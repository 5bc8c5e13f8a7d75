import TraceExplorer.Proofs.KeyValue.Offsets

/-
  Values that the scan for pairs takes whole (`IsValue`): outside quotes, brackets, braces and
  parentheses are balanced, each kind for itself, and blanks stand only where a group is open.
  `Outside.taken` carries the scan over such a text with the depth that the marks before it
  give. Quoted texts are values, and without their quotes they are what was quoted.
-/

namespace TraceExplorer.KeyValue

variable {q c : Char} {s t u v w body rest : List Char} {d : Depth}

/-! ## Quoted texts -/

theorem enclosed_escape (q : Char) (s : List Char) : Enclosed q (escape q s) := by
  induction s with
  | nil => exact .nil
  | cons c s ih =>
    rw [escape]
    split
    · exact .pair c ih
    · rename_i hc
      rw [Bool.or_eq_true_iff, not_or, beq_iff_eq, beq_iff_eq] at hc
      exact .char hc.1 hc.2 ih

theorem unescape_cons (hc : c ≠ '\\') (s : List Char) : unescape (c :: s) = c :: unescape s := by
  rw [unescape]
  rintro c' s' rfl _
  exact hc rfl

theorem unescape_escape (q : Char) (s : List Char) : unescape (escape q s) = s := by
  induction s with
  | nil => rfl
  | cons c s ih =>
    rw [escape]
    split
    · rw [unescape, ih]
    · rename_i hc
      rw [Bool.or_eq_true_iff, not_or, beq_iff_eq] at hc
      rw [unescape_cons hc.1, ih]

theorem unquoteChars_quoted (hq : isQuote q = true) (body : List Char) :
    unquoteChars (q :: (body ++ [q])) = unescape body := by
  simp [unquoteChars, hq]

theorem unquoteChars_eq_or (s : List Char) : unquoteChars s = s ∨
    ∃ q body, isQuote q = true ∧ s = q :: (body ++ [q]) ∧ unquoteChars s = unescape body := by
  cases s with
  | nil => exact .inl rfl
  | cons q s =>
    by_cases h : isQuote q = true ∧ s.getLast? = some q
    · obtain ⟨body, rfl⟩ := List.getLast?_eq_some_iff.1 h.2
      exact .inr ⟨q, body, h.1, rfl, unquoteChars_quoted h.1 body⟩
    · refine .inl ?_
      rw [unquoteChars, if_neg (by simpa using h)]

/-- A text without some of its backslashes. -/
inductive Deletes : List Char → List Char → Prop where
  | nil : Deletes [] []
  | keep (c : Char) {s t : List Char} (h : Deletes s t) : Deletes (c :: s) (c :: t)
  | delete {s t : List Char} (h : Deletes s t) : Deletes ('\\' :: s) t

theorem deletes_unescape (s : List Char) : Deletes s (unescape s) := by
  fun_induction unescape s with
  | case1 => exact .nil
  | case2 c s ih => exact .delete (.keep c ih)
  | case3 c s _ ih => exact .keep c ih

/-! ## Balanced texts -/

/-- The marks that open and close a group. -/
def groups : List (Char × Char) := [('[', ']'), ('{', '}'), ('(', ')')]

/-- A closing mark stands behind an opening one of its kind, and an opening one before a closing
one. -/
structure Balanced (u : List Char) : Prop where
  matched : ∀ g ∈ groups, ∀ n ≤ u.length, (u.take n).count g.2 ≤ (u.take n).count g.1
  closed : ∀ g ∈ groups, u.count g.2 = u.count g.1

/-- Before every blank some group is open. -/
def BlanksInside (u : List Char) : Prop :=
  ∀ n, (h : n < u.length) → isSpace u[n] = true →
    ∃ g ∈ groups, (u.take n).count g.2 < (u.take n).count g.1

instance (u : List Char) : Decidable (Balanced u) :=
  decidable_of_iff ((∀ g ∈ groups, ∀ n ≤ u.length, (u.take n).count g.2 ≤ (u.take n).count g.1) ∧
    ∀ g ∈ groups, u.count g.2 = u.count g.1) ⟨fun h => ⟨h.1, h.2⟩, fun h => ⟨h.1, h.2⟩⟩

instance (u : List Char) : Decidable (BlanksInside u) :=
  inferInstanceAs (Decidable (∀ n, (h : n < u.length) → isSpace u[n] = true →
    ∃ g ∈ groups, (u.take n).count g.2 < (u.take n).count g.1))

/-- What of a text stands outside quotes, if all its quotes are closed. -/
inductive Outside : List Char → List Char → Prop where
  | nil : Outside [] []
  | char {c : Char} {v u : List Char} (hc : isQuote c = false) (h : Outside v u) :
      Outside (c :: v) (c :: u)
  | quoted {q : Char} {body v u : List Char} (hq : isQuote q = true) (hbody : Enclosed q body)
      (h : Outside v u) : Outside (q :: (body ++ q :: v)) u

/-- A value that stands for itself among pairs. -/
def IsValue (v : List Char) : Prop := ∃ u, Outside v u ∧ Balanced u ∧ BlanksInside u

theorem isValue_enquote (hq : isQuote q = true) (t : List Char) : IsValue (enquote q t) :=
  ⟨[], .quoted hq (enclosed_escape q t) .nil, by decide, by decide⟩

/-! ## The depth of a text -/

/-- The depth counts the groups that a text leaves open. -/
structure Opened (d : Depth) (w : List Char) : Prop where
  brackets : d.brackets + w.count ']' = w.count '['
  braces : d.braces + w.count '}' = w.count '{'
  parens : d.parens + w.count ')' = w.count '('

theorem Depth.after_eq (d : Depth) (c : Char) : d.after c =
    ⟨d.brackets + [c].count '[' - [c].count ']', d.braces + [c].count '{' - [c].count '}',
      d.parens + [c].count '(' - [c].count ')'⟩ := by
  unfold after
  split
  case h_7 hb hb' hc hc' hp hp' =>
    have hcount : ∀ m, (c = m → False) → [c].count m = 0 := fun m hm =>
      List.count_eq_zero.2 fun hmem => hm (List.mem_singleton.1 hmem).symm
    rw [hcount _ hb, hcount _ hb', hcount _ hc, hcount _ hc', hcount _ hp, hcount _ hp']
    rfl
  all_goals rfl

theorem Opened.after (h : Opened d w)
    (hmatched : ∀ g ∈ groups, (w ++ [c]).count g.2 ≤ (w ++ [c]).count g.1) :
    Opened (d.after c) (w ++ [c]) := by
  obtain ⟨h₁, h₂, h₃⟩ := h
  obtain ⟨m₁, m₂, m₃, _⟩ : _ ∧ _ ∧ _ ∧ _ := by
    simpa only [groups, List.forall_mem_cons] using hmatched
  simp only [List.count_append] at m₁ m₂ m₃
  rw [Depth.after_eq]
  constructor <;> (simp only [List.count_append]; omega)

theorem Opened.isNone_iff (h : Opened d w) :
    d.isNone = true ↔ ∀ g ∈ groups, w.count g.1 ≤ w.count g.2 := by
  obtain ⟨h₁, h₂, h₃⟩ := h
  simp only [Depth.isNone, beq_iff_eq, groups, List.forall_mem_cons, List.not_mem_nil,
    false_imp_iff, implies_true, and_true]
  omega

/-! ## Values -/

/-- Over a text that goes on as a value the scan stands outside quotes again, at the depth that
its marks give. -/
theorem Outside.taken (h : Outside v u) (hd : Opened d w)
    (hbalanced : Balanced (w ++ u)) (hinside : BlanksInside (w ++ u)) : ∃ d', Opened d' (w ++ u) ∧
      ∀ rest, (Place.plain d).taken (v ++ rest) = v ++ (Place.plain d').taken rest ∧
        (Place.plain d).left (v ++ rest) = (Place.plain d').left rest := by
  -- `w` is what the scan has passed outside quotes, so that `w ++ u` stays the same text.
  induction h generalizing d w with
  | nil => exact ⟨d, by rwa [List.append_nil], fun rest => ⟨rfl, rfl⟩⟩
  | @char c v u hc _ ih =>
    have htake : (w ++ c :: u).take w.length = w := List.take_left
    have hopen : (isSpace c && d.isNone) = false := by
      cases hspace : isSpace c with
      | false => rfl
      | true =>
        obtain ⟨g, hg, hlt⟩ := hinside w.length (by simp) (by simpa using hspace)
        rw [htake] at hlt
        exact Bool.eq_false_iff.2 fun hnone =>
          absurd (hd.isNone_iff.1 hnone g hg) (Nat.not_le.2 hlt)
    have hstep : (Place.plain d).step c = some (.plain (d.after c)) := by
      rw [Place.plain_step, hc, hopen]
      rfl
    have hsnoc : w ++ c :: u = (w ++ [c]) ++ u := by simp
    have hmatched : ∀ g ∈ groups, (w ++ [c]).count g.2 ≤ (w ++ [c]).count g.1 := fun g hg => by
      have h := hbalanced.matched g hg (w ++ [c]).length (by simp)
      rwa [hsnoc, List.take_left] at h
    rw [hsnoc] at hbalanced hinside ⊢
    obtain ⟨d', hd', htaken⟩ := ih (hd.after hmatched) hbalanced hinside
    refine ⟨d', hd', fun rest => ?_⟩
    rw [List.cons_append, Place.taken_cons hstep, Place.left_cons hstep, (htaken rest).1,
      (htaken rest).2]
    exact ⟨rfl, rfl⟩
  | @quoted q body v u hq hbody _ ih =>
    have hstep : (Place.plain d).step q = some (.quoted q d) := by
      rw [Place.plain_step, if_pos hq]
    have hslash := ne_backslash_of_isQuote hq
    obtain ⟨d', hd', htaken⟩ := ih hd hbalanced hinside
    refine ⟨d', hd', fun rest => ?_⟩
    rw [List.cons_append, List.append_assoc, List.cons_append, Place.taken_cons hstep,
      Place.left_cons hstep, hbody.taken hslash, hbody.left hslash, (htaken rest).1,
      (htaken rest).2]
    exact ⟨by simp, rfl⟩

/-- A value ends where it should. -/
theorem IsValue.taken (h : IsValue v)
    (hrest : rest = [] ∨ ∃ c s, rest = c :: s ∧ isSpace c = true) :
    Place.start.taken (v ++ rest) = v ∧ Place.start.left (v ++ rest) = rest := by
  obtain ⟨u, hu, hbalanced, hinside⟩ := h
  have hnone : Opened .none [] := ⟨rfl, rfl, rfl⟩
  obtain ⟨d, hd, htaken⟩ := hu.taken (w := []) hnone hbalanced hinside
  have hclosed : d.isNone = true :=
    hd.isNone_iff.2 fun g hg => Nat.le_of_eq (hbalanced.closed g hg).symm
  obtain ⟨htaken, hleft⟩ := htaken rest
  rw [Place.start, htaken, hleft]
  obtain rfl | ⟨c, s, rfl, hc⟩ := hrest
  · exact ⟨List.append_nil v, rfl⟩
  · have hstep : (Place.plain d).step c = none :=
      Place.step_eq_none.2 ⟨hc, d, rfl, hclosed, isQuote_of_isSpace hc⟩
    rw [Place.taken, Place.left, hstep]
    exact ⟨List.append_nil v, rfl⟩

/-! ## Pairs -/

/-- A pair whose text can be read back: nothing in its key ends a key, and its value is one. -/
structure IsPair (e : String × String) : Prop where
  key : ∀ c ∈ e.1.toList, isSpace c = false ∧ c ≠ '='
  value : (∃ q t, isQuote q = true ∧ e.2.toList = enquote q t) ∨ IsValue e.2.toList

/-- Pairs as `key=value`, with blanks between them. -/
inductive Joined : List (String × String) → List Char → Prop where
  | nil : Joined [] []
  | last (key value : String) : Joined [(key, value)] (key.toList ++ '=' :: value.toList)
  | cons (key value : String) {c : Char} {gap text : List Char} {ps : List (String × String)}
      (hc : isSpace c = true) (hgap : ∀ c ∈ gap, isSpace c = true) (h : Joined ps text) :
      Joined ((key, value) :: ps) (key.toList ++ '=' :: (value.toList ++ c :: (gap ++ text)))

theorem IsPair.isValue {e : String × String} (h : IsPair e) : IsValue e.2.toList := by
  obtain ⟨q, t, hq, heq⟩ | hvalue := h.value
  · rw [heq]
    exact isValue_enquote hq t
  · exact hvalue

theorem IsPair.pairsFrom {key value : String} (h : IsPair (key, value))
    (hrest : rest = [] ∨ ∃ c s, rest = c :: s ∧ isSpace c = true) :
    pairsFrom (.key []) (key.toList ++ '=' :: (value.toList ++ rest)) =
      (key, value) :: pairsFrom (.key []) rest.tail := by
  obtain ⟨htaken, hleft⟩ := h.isValue.taken hrest
  rw [pairsFrom_pair h.key, htaken, hleft, String.ofList_toList, String.ofList_toList]

theorem Joined.pairs_eq {ps : List (String × String)} {text : List Char} (h : Joined ps text)
    (hps : ∀ e ∈ ps, IsPair e) : pairs (String.ofList text) = ps := by
  rw [pairs, String.toList_ofList]
  induction h with
  | nil => rfl
  | last key value =>
    have hpair := (hps _ List.mem_cons_self).pairsFrom (.inl (rfl : ([] : List Char) = []))
    rw [List.append_nil] at hpair
    rw [hpair]
    rfl
  | @cons key value c gap text ps hc hgap _ ih =>
    rw [(hps _ List.mem_cons_self).pairsFrom (.inr ⟨c, _, rfl, hc⟩), List.tail_cons,
      pairsFrom_blanks hgap, ih fun e he => hps e (List.mem_cons_of_mem _ he)]

/-! ## What is read back -/

/-- A text without the quotes at its ends and without some of the backslashes between them. The
bytes that are left are those of a text, so that reading them replaces nothing. -/
def Stripped (s r : String) : Prop :=
  ∃ q body, isQuote q = true ∧ s.toList = q :: (body ++ [q]) ∧ Deletes body r.toList ∧
    Offsets.unescape (Text.Utf8.bytes body) = Text.Utf8.bytes r.toList

theorem unquote_eq_or (s : String) : unquote s = s ∨ Stripped s (unquote s) := by
  unfold unquote
  obtain h | ⟨q, body, hq, hs, h⟩ := unquoteChars_eq_or s.toList
  · exact .inl (by rw [h, String.ofList_toList])
  · refine .inr ⟨q, body, hq, hs, ?_, ?_⟩
    · rw [String.toList_ofList, h]
      exact deletes_unescape body
    · rw [String.toList_ofList, h, Offsets.unescape_bytes]

theorem unquote_enquote (hq : isQuote q = true) (t : List Char) :
    unquote (String.ofList (enquote q t)) = String.ofList t := by
  rw [unquote, String.toList_ofList, enquote, List.cons_append, unquoteChars_quoted hq,
    unescape_escape]

/-- What quoting keeps: pairs, whatever they hold, and a text between quotes; of any other text
taking off quotes keeps all, or all but some backslashes. -/
structure Keeps (ps : List (String × String)) (text : List Char) (q : Char) : Prop where
  pairs : pairs (String.ofList text) = ps
  pairs_offsets : Offsets.pairs? (String.ofList text) = some ps
  quoted : ∀ t, Offsets.unquote? (String.ofList (enquote q t)) = some (String.ofList t)
  unquoted : ∀ s, Offsets.unquote? s = some (unquote s)
  stripped : ∀ s, unquote s = s ∨ Stripped s (unquote s)

theorem keeps_joined {ps : List (String × String)} {text : List Char}
    (hps : ∀ e ∈ ps, IsPair e) (htext : Joined ps text) (hq : isQuote q = true) :
    Keeps ps text q where
  pairs := htext.pairs_eq hps
  pairs_offsets := by rw [Offsets.pairs?_eq, htext.pairs_eq hps]
  quoted t := by rw [Offsets.unquote?_eq, unquote_enquote hq]
  unquoted := Offsets.unquote?_eq
  stripped := unquote_eq_or

/-- Groups of two kinds that overlap, and a quoted mark. -/
theorem keeps_joined_overlappingGroups : Keeps
    [("values", "[3 \x7b4] \"a ]\"\x7dé"), ("err", "\"a=\\\"\"")]
    "values=[3 \x7b4] \"a ]\"\x7dé \t err=\"a=\\\"\"".toList '"' := by
  have hquoted : Enclosed '"' ['a', ' ', ']'] :=
    .char (by decide) (by decide) <| .char (by decide) (by decide) <|
      .char (by decide) (by decide) .nil
  have houtside : Outside "[3 \x7b4] \"a ]\"\x7dé".toList "[3 \x7b4] \x7dé".toList :=
    .char rfl <| .char rfl <| .char rfl <| .char rfl <| .char rfl <| .char rfl <| .char rfl <|
      .quoted rfl hquoted <| .char rfl <| .char rfl .nil
  have hkey : ∀ key ∈ ["values", "err"], ∀ c ∈ key.toList, isSpace c = false ∧ c ≠ '=' := by
    simp [isSpace]
  have hgap : ∀ c ∈ ['\t', ' '], isSpace c = true := by simp [isSpace]
  refine keeps_joined ?_ ?_ rfl
  · simp only [List.forall_mem_cons]
    refine ⟨⟨hkey _ (by simp), .inr ⟨_, houtside, by decide, by decide⟩⟩,
      ⟨hkey _ (by simp), .inl ⟨'"', "a=\"".toList, rfl, rfl⟩⟩, by simp⟩
  · have htext : "values=[3 \x7b4] \"a ]\"\x7dé \t err=\"a=\\\"\"".toList =
        "values".toList ++ '=' :: ("[3 \x7b4] \"a ]\"\x7dé".toList ++ ' ' :: (['\t', ' '] ++
          ("err".toList ++ '=' :: "\"a=\\\"\"".toList))) := by simp
    rw [htext]
    exact .cons "values" _ rfl hgap (.last "err" _)

end TraceExplorer.KeyValue
