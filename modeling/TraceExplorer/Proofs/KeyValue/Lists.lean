import TraceExplorer.Proofs.KeyValue.Quoting
import TraceExplorer.Proofs.KeyValue.Splits
import TraceExplorer.Proofs.MachineId

/-
  Nested lists as they are written, and read back. The text of a list stands for itself among
  others because its brackets are balanced and close only at its end (`blanksInside_brackets`); so
  the scan for elements finds what stands between the brackets, one element after the other
  (`elements?_body`), and by induction on the list each of them means what it should.
-/

namespace TraceExplorer.Number

theorem integer?_digits {s : List Char} {n : Nat} (h : digits? s = some n)
    (hlimit : n < integerLimit) : integer? s = some (n : Int) := by
  have hdigit : ∀ c t, s = c :: t → c.isDigit = true := by
    rintro c t rfl
    unfold digits? at h
    split at h
    · cases h
    · split at h
      · rename_i hall
        exact List.all_eq_true.1 hall c List.mem_cons_self
      · cases h
  unfold integer?
  split
  · exact absurd (hdigit _ _ rfl) (by decide)
  · exact absurd (hdigit _ _ rfl) (by decide)
  · rw [h, Option.bind_some, if_pos hlimit]

/-- The decimal text of an integer of 64 bits is read back. -/
theorem integer?_integer (n : Int64) : integer? (integer n.toInt).toList = some n.toInt := by
  have hlow : -(integerLimit : Int) ≤ n.toInt := n.le_toInt
  have hhigh : n.toInt < (integerLimit : Int) := n.toInt_lt
  unfold integer
  rw [String.toList_ofList]
  by_cases hneg : n.toInt < 0
  · rw [if_pos hneg, List.singleton_append, integer?, digits?_toDigits, Option.bind_some,
      if_pos (by omega)]
    congr 1
    omega
  · rw [if_neg hneg, List.nil_append,
      integer?_digits (digits?_toDigits n.toInt.natAbs) (by omega)]
    congr 1
    omega

end TraceExplorer.Number

namespace TraceExplorer.KeyValue

variable {c : Char} {s t u u' v v' rest : List Char}

/-! ## Balanced texts -/

theorem Balanced.count_take_le (h : Balanced u) {g : Char × Char} (hg : g ∈ groups) (n : Nat) :
    (u.take n).count g.2 ≤ (u.take n).count g.1 := by
  by_cases hn : n ≤ u.length
  · exact h.matched g hg n hn
  · rw [List.take_of_length_le (by omega)]
    exact Nat.le_of_eq (h.closed g hg)

theorem Balanced.append (h : Balanced u) (h' : Balanced u') : Balanced (u ++ u') where
  matched g hg n _ := by
    rw [List.take_append, List.count_append, List.count_append]
    exact Nat.add_le_add (h.count_take_le hg n) (h'.count_take_le hg _)
  closed g hg := by rw [List.count_append, List.count_append, h.closed g hg, h'.closed g hg]

/-- The characters that are no marks at all. -/
def IsPlain (c : Char) : Prop :=
  isQuote c = false ∧ isSpace c = false ∧ ∀ g ∈ groups, c ≠ g.1 ∧ c ≠ g.2

instance (c : Char) : Decidable (IsPlain c) := inferInstanceAs (Decidable (_ ∧ _ ∧ _))

theorem balanced_of_isPlain (h : ∀ c ∈ u, IsPlain c) : Balanced u := by
  have hcount : ∀ g ∈ groups, ∀ w, w ⊆ u → w.count g.1 = 0 ∧ w.count g.2 = 0 := fun g hg w hw =>
    ⟨List.count_eq_zero.2 fun hmem => ((h _ (hw hmem)).2.2 g hg).1 rfl,
      List.count_eq_zero.2 fun hmem => ((h _ (hw hmem)).2.2 g hg).2 rfl⟩
  constructor
  · intro g hg n _
    obtain ⟨h₁, h₂⟩ := hcount g hg _ (List.take_subset n u)
    omega
  · intro g hg
    obtain ⟨h₁, h₂⟩ := hcount g hg _ (List.Subset.refl u)
    omega

theorem take_singleton (c : Char) (n : Nat) : [c].take n = [] ∨ [c].take n = [c] := by
  cases n with
  | zero => exact .inl rfl
  | succ n => exact .inr (by rw [List.take_succ_cons, List.take_nil])

theorem mem_groups {g : Char × Char} :
    g ∈ groups ↔ g = ('[', ']') ∨ g = ('{', '}') ∨ g = ('(', ')') := by
  simp [groups]

theorem balanced_brackets (h : Balanced u) : Balanced ('[' :: (u ++ [']'])) where
  matched g hg n _ := by
    cases n with
    | zero => exact Nat.le_refl 0
    | succ n =>
      have hle := h.count_take_le hg n
      rw [List.take_succ_cons, List.take_append]
      rcases mem_groups.1 hg with rfl | rfl | rfl <;>
        obtain hend | hend := take_singleton ']' (n - u.length) <;>
          simp [hend] at hle ⊢ <;> omega
  closed g hg := by
    have heq := h.closed g hg
    rcases mem_groups.1 hg with rfl | rfl | rfl <;> simpa using heq

/-- A list is closed only at its end. -/
theorem blanksInside_brackets (h : Balanced u) : BlanksInside ('[' :: (u ++ [']'])) := by
  intro n hn hspace
  cases n with
  | zero => cases hspace
  | succ n =>
    have hlt : n < u.length := by
      rw [List.length_cons, List.length_append, List.length_singleton] at hn
      refine Nat.lt_of_not_le fun hle => ?_
      obtain rfl : n = u.length := by omega
      simp at hspace
      cases hspace
    have hle := h.matched _ (mem_groups.2 (.inl rfl)) n (Nat.le_of_lt hlt)
    refine ⟨_, mem_groups.2 (.inl rfl), ?_⟩
    rw [List.take_succ_cons, List.take_append_of_le_length (Nat.le_of_lt hlt)]
    simpa using Nat.lt_succ_of_le hle

theorem Outside.append (h : Outside v u) (h' : Outside v' u') : Outside (v ++ v') (u ++ u') := by
  induction h with
  | nil => exact h'
  | char hc _ ih => exact .char hc ih
  | @quoted q body v u hq hbody _ ih =>
    rw [List.cons_append, List.append_assoc]
    exact .quoted hq hbody ih

theorem outside_of_isPlain (h : ∀ c ∈ v, IsPlain c) : Outside v v := by
  induction v with
  | nil => exact .nil
  | cons c v ih =>
    exact .char (h c List.mem_cons_self).1 (ih fun c hc => h c (List.mem_cons_of_mem _ hc))

theorem isValue_of_isPlain (h : ∀ c ∈ v, IsPlain c) : IsValue v := by
  refine ⟨v, outside_of_isPlain h, balanced_of_isPlain h, fun n hn hspace => ?_⟩
  rw [(h _ (List.getElem_mem hn)).2.1] at hspace
  cases hspace

/-! ## Nested lists -/

/-- A text that is read as itself, and as nothing else. -/
structure IsWord (t : List Char) : Prop where
  integer : Number.integer? t = none
  truth : truth? t = none
  real : Number.real? t = none
  body : body? t = none

/-- What lists are built from. -/
inductive Item where
  | int (n : Int64)
  | bool (b : Bool)
  | word (t : {t : List Char // IsWord t})
  | list (items : List Item)

namespace Item

/-- What holds of a list if it holds of its items holds of all items. -/
theorem induct {P : Item → Prop} (int : ∀ n, P (.int n)) (bool : ∀ b, P (.bool b))
    (word : ∀ t, P (.word t)) (list : ∀ items, (∀ i ∈ items, P i) → P (.list items)) :
    ∀ i, P i := by
  refine @Item.rec P (fun items => ∀ i ∈ items, P i) int bool word list ?_ ?_
  · simp
  · exact fun i items hi hitems => List.forall_mem_cons.2 ⟨hi, hitems⟩

mutual

/-- An item as it is written. -/
def written : Item → List Char
  | .int n => (Number.integer n.toInt).toList
  | .bool b => if b then "true".toList else "false".toList
  | .word t => enquote '"' t.1
  | .list items => '[' :: (body items ++ [']'])

/-- The items of a list, with a space between them. -/
def body : List Item → List Char
  | [] => []
  | [i] => i.written
  | i :: j :: items => i.written ++ ' ' :: body (j :: items)

end

mutual

/-- The meaning of an item. -/
def json : Item → Json
  | .int n => .int n.toInt
  | .bool b => .bool b
  | .word t => .str (String.ofList t.1)
  | .list items => .arr (jsons items)

def jsons : List Item → List Json
  | [] => []
  | i :: items => i.json :: jsons items

end

/-- The text of an item as an element: quotes are taken off. -/
def text : Item → List Char
  | .word t => t.1
  | i => i.written

theorem jsons_eq (items : List Item) : jsons items = items.map json := by
  induction items with
  | nil => rfl
  | cons i items ih => rw [jsons, ih, List.map_cons]

theorem body_cons (i : Item) (items : List Item) : ∃ rest, body (i :: items) = i.written ++ rest ∧
    (rest = [] ∨ ∃ s, rest = ' ' :: s) ∧ rest.tail = body items := by
  cases items with
  | nil => exact ⟨[], (List.append_nil _).symm, .inl rfl, rfl⟩
  | cons j items => exact ⟨' ' :: body (j :: items), rfl, .inr ⟨_, rfl⟩, rfl⟩

/-! ## Items as values -/

theorem isPlain_of_isDigit (h : c.isDigit = true) : IsPlain c := by
  have hne : ∀ m, m.isDigit = false → c ≠ m := by
    rintro m hm rfl
    exact Bool.false_ne_true (hm.symm.trans h)
  refine ⟨?_, ?_, fun g hg => ?_⟩
  · simp [isQuote, hne '"' (by decide), hne '\'' (by decide)]
  · simp [isSpace, hne ' ' (by decide), hne '\t' (by decide), hne '\n' (by decide)]
  · rcases mem_groups.1 hg with rfl | rfl | rfl <;> exact ⟨hne _ (by decide), hne _ (by decide)⟩

theorem isPlain_written_int (n : Int64) : ∀ c ∈ (Item.int n).written, IsPlain c := by
  intro c hc
  rw [written, Number.integer, String.toList_ofList, List.mem_append] at hc
  obtain hc | hc := hc
  · split at hc
    · rw [List.mem_singleton.1 hc]
      decide
    · cases hc
  · exact isPlain_of_isDigit (Nat.isDigit_of_mem_toDigits (by omega) (by omega) hc)

theorem isPlain_written_bool (b : Bool) : ∀ c ∈ (Item.bool b).written, IsPlain c := by
  have hall : (Item.bool b).written.all (fun c => decide (IsPlain c)) = true := by
    cases b <;> decide
  simpa using hall

theorem exists_outside_body {items : List Item}
    (h : ∀ i ∈ items, ∃ u, Outside i.written u ∧ Balanced u) :
    ∃ u, Outside (body items) u ∧ Balanced u := by
  induction items with
  | nil => exact ⟨[], .nil, by decide⟩
  | cons i items ih =>
    obtain ⟨u, hu, hbalanced⟩ := h i List.mem_cons_self
    obtain ⟨u', hu', hbalanced'⟩ := ih fun j hj => h j (List.mem_cons_of_mem i hj)
    obtain ⟨rest, hbody, hrest, htail⟩ := body_cons i items
    rw [hbody]
    obtain rfl | ⟨s, rfl⟩ := hrest
    · exact ⟨u, by rwa [List.append_nil], hbalanced⟩
    · have hspace : Balanced [' '] := by decide
      rw [List.tail_cons] at htail
      rw [htail]
      exact ⟨u ++ ([' '] ++ u'), hu.append (.char rfl hu'),
        hbalanced.append (hspace.append hbalanced')⟩

/-- Outside quotes the text of an item is balanced. -/
theorem exists_outside (i : Item) : ∃ u, Outside i.written u ∧ Balanced u := by
  induction i using induct with
  | int n =>
    have hplain := isPlain_written_int n
    exact ⟨_, outside_of_isPlain hplain, balanced_of_isPlain hplain⟩
  | bool b =>
    have hplain := isPlain_written_bool b
    exact ⟨_, outside_of_isPlain hplain, balanced_of_isPlain hplain⟩
  | word t => exact ⟨[], .quoted rfl (enclosed_escape '"' t.1) .nil, by decide⟩
  | list items ih =>
    obtain ⟨u, hu, hbalanced⟩ := exists_outside_body ih
    exact ⟨'[' :: (u ++ [']']), .char rfl (hu.append (.char rfl .nil)),
      balanced_brackets hbalanced⟩

theorem isValue_list (items : List Item) : IsValue (Item.list items).written := by
  obtain ⟨u, hu, hbalanced⟩ := exists_outside_body fun i (_ : i ∈ items) => i.exists_outside
  exact ⟨'[' :: (u ++ [']']), .char rfl (hu.append (.char rfl .nil)),
    balanced_brackets hbalanced, blanksInside_brackets hbalanced⟩

/-! ## Elements -/

/-- A value that starts with no quote is one element. -/
theorem elementsFrom_isValue (hv : IsValue (c :: v)) (hquote : isQuote c = false)
    (hspace : isSpace c = false) (hrest : rest = [] ∨ ∃ s, rest = ' ' :: s) :
    elementsFrom .gap (c :: v ++ rest) = (elementsFrom .gap rest.tail).map ((c :: v) :: ·) := by
  have hblank : rest = [] ∨ ∃ c s, rest = c :: s ∧ isSpace c = true :=
    hrest.imp_right fun ⟨s, hs⟩ => ⟨' ', s, hs, rfl⟩
  obtain ⟨htaken, hleft⟩ := hv.taken hblank
  rw [List.cons_append] at htaken hleft ⊢
  rw [elementsFrom_value hquote hspace, htaken, hleft]

theorem elementsFrom_isPlain (hne : v ≠ []) (hv : ∀ c ∈ v, IsPlain c)
    (hrest : rest = [] ∨ ∃ s, rest = ' ' :: s) :
    elementsFrom .gap (v ++ rest) = (elementsFrom .gap rest.tail).map (v :: ·) := by
  obtain ⟨c, v, rfl⟩ := List.exists_cons_of_ne_nil hne
  obtain ⟨hquote, hspace, _⟩ := hv c List.mem_cons_self
  exact elementsFrom_isValue (isValue_of_isPlain hv) hquote hspace hrest

theorem elementsFrom_written (i : Item) (hrest : rest = [] ∨ ∃ s, rest = ' ' :: s) :
    elementsFrom .gap (i.written ++ rest) = (elementsFrom .gap rest.tail).map (i.text :: ·) := by
  cases i with
  | int n =>
    refine elementsFrom_isPlain ?_ (isPlain_written_int n) hrest
    rw [written, Number.integer, String.toList_ofList]
    exact List.append_ne_nil_of_right_ne_nil _ Nat.toDigits_ne_nil
  | bool b =>
    refine elementsFrom_isPlain ?_ (isPlain_written_bool b) hrest
    cases b <;> decide
  | word t =>
    have hclosed : elementsFrom .closed rest = elementsFrom .gap rest.tail := by
      obtain rfl | ⟨s, rfl⟩ := hrest <;> rfl
    rw [written, enquote, List.cons_append, List.cons_append, List.append_assoc,
      List.singleton_append, elementsFrom_quoted rfl (enclosed_escape '"' t.1), unescape_escape,
      hclosed]
    rfl
  | list items => exact elementsFrom_isValue (isValue_list items) rfl rfl hrest

/-- The elements of a list are those that it is written from. -/
theorem elements?_body (items : List Item) : elements? (body items) = some (items.map text) := by
  unfold elements?
  induction items with
  | nil => rfl
  | cons i items ih =>
    obtain ⟨rest, hbody, hrest, htail⟩ := body_cons i items
    rw [hbody, elementsFrom_written i hrest, htail, ih]
    rfl

/-! ## What lists mean -/

theorem value?_of_body (h : body? s = none) : value? s = some (scalar s) := by
  rw [value?_eq, h]

theorem body?_of_isPlain (h : ∀ c ∈ s, IsPlain c) : body? s = none := by
  cases hbody : body? s with
  | none => rfl
  | some t =>
    rw [body?_eq_some_iff.1 hbody] at h
    exact absurd (h '[' List.mem_cons_self) (by decide)

theorem value?_list {items : List Item} (h : ∀ i ∈ items, value? i.text = some i.json) :
    value? (Item.list items).written = some (.arr (items.map json)) := by
  have hbody : body? (Item.list items).written = some (body items) := body?_eq_some_iff.2 rfl
  rw [value?_eq, hbody]
  simp only [elements?_body, Option.bind_some]
  rw [mapM_map_eq_pure h, Option.pure_def, Option.map_some]

theorem value?_text (i : Item) : value? i.text = some i.json := by
  induction i using induct with
  | int n =>
    have hbody : body? (Item.int n).text = none := body?_of_isPlain (isPlain_written_int n)
    have hint : Number.integer? (Item.int n).text = some n.toInt := Number.integer?_integer n
    rw [value?_of_body hbody, scalar, hint]
    rfl
  | bool b =>
    have hbody : body? (Item.bool b).text = none := body?_of_isPlain (isPlain_written_bool b)
    rw [value?_of_body hbody]
    cases b <;> rfl
  | word t =>
    have htext : (Item.word t).text = t.1 := rfl
    rw [htext, value?_of_body t.2.body, scalar, t.2.integer, t.2.truth, t.2.real]
    rfl
  | list items ih =>
    have htext : (Item.list items).text = (Item.list items).written := rfl
    rw [htext, value?_list ih, json, jsons_eq]

/-- A list that is written as `text` is read back. -/
structure ReadsBack (items : List Item) (text : List Char) : Prop where
  value : value? text = some (.arr (items.map json))
  value_offsets : Offsets.value? (String.ofList text) = some (.arr (items.map json))
  elements : Offsets.elements? (String.ofList (body items)) =
    some (items.map fun i => String.ofList i.text)
  /-- The reading of a text ends, since it goes on with shorter texts. -/
  shorter : ∀ s b es e, Offsets.IsList s → Offsets.body? s = some b →
    Offsets.elements? b = some es → e ∈ es → e.toList.length < s.toList.length

theorem readsBack (items : List Item) : ReadsBack items (Item.list items).written where
  value := value?_list fun i _ => i.value?_text
  value_offsets := by
    rw [Offsets.value?_eq, String.toList_ofList, value?_list fun i _ => i.value?_text]
  elements := by
    rw [Offsets.elements?_eq, String.toList_ofList, elements?_body, Option.map_some, List.map_map]
    rfl
  shorter _ _ _ _ := Offsets.length_lt_of_mem

example : (Item.list [.int (-7), .list [], .list [.bool true, .int 4]]).written =
    "[-7 [] [true 4]]".toList := by
  decide

end Item

end TraceExplorer.KeyValue
