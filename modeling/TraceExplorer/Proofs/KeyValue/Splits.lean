import TraceExplorer.KeyValue.Value
import TraceExplorer.Proofs.Fallible
import TraceExplorer.Proofs.KeyValue.Offsets
import TraceExplorer.Trace.Draft

/-
  Where a scan splits a character. The scan for elements passes over one byte behind a closing
  quote, and `Splits` says that it comes to a closing quote with a character of several bytes
  behind it. No other scan can fail (`scans`), a value fails only in a list, and a line of a
  trace only in a value of its tail.
-/

namespace TraceExplorer.KeyValue

open Text.Utf8 (bytes)

variable {q c : Char} {s t body rest : List Char}

/-! ## Elements -/

/-- In the body of a list, the scan comes to a quoted element whose closing quote stands right
before a character of several bytes. -/
inductive Splits : List Char → Prop where
  | here {q c : Char} {body rest : List Char} (hquote : isQuote q = true)
      (hbody : Enclosed q body) (hc : 128 ≤ c.toNat) : Splits (q :: (body ++ q :: c :: rest))
  | blank {c : Char} {s : List Char} (hc : isSpace c = true) (h : Splits s) : Splits (c :: s)
  | behindQuoted {q c : Char} {body rest : List Char} (hquote : isQuote q = true)
      (hbody : Enclosed q body) (hc : c.toNat < 128) (h : Splits rest) :
      Splits (q :: (body ++ q :: c :: rest))
  | behindValue {c c' : Char} {s rest : List Char} (hquote : isQuote c = false)
      (hspace : isSpace c = false) (hleft : Place.start.left (c :: s) = c' :: rest)
      (h : Splits rest) : Splits (c :: s)

theorem Splits.elements_eq (h : Splits s) : elements? s = none := by
  unfold elements?
  induction h with
  | here hquote hbody hc =>
    rw [elementsFrom_quoted hquote hbody, elementsFrom, if_neg (Nat.not_lt.2 hc)]
    rfl
  | @blank c s hc _ ih => rw [elementsFrom, if_pos hc, ih]
  | behindQuoted hquote hbody hc _ ih =>
    rw [elementsFrom_quoted hquote hbody, elementsFrom, if_pos hc, ih]
    rfl
  | behindValue hquote hspace hleft _ ih =>
    rw [elementsFrom_value hquote hspace, hleft, List.tail_cons, ih]
    rfl

theorem splits_of_elements (s : List Char) (h : elements? s = none) : Splits s := by
  unfold elements? at h
  match s with
  | [] => cases h
  | c :: s =>
    cases hspace : isSpace c with
    | true =>
      rw [elementsFrom, if_pos hspace] at h
      exact .blank hspace (splits_of_elements s h)
    | false =>
      cases hquote : isQuote c with
      | true =>
        obtain ⟨body, rest, hs, hbody⟩ | hs := enclosed_or_unclosed c s
        · have hlength := congrArg List.length hs
          rw [hs] at h ⊢
          rw [elementsFrom_quoted hquote hbody, Option.map_eq_none_iff] at h
          cases rest with
          | nil => cases h
          | cons c' rest =>
            by_cases hc : c'.toNat < 128
            · rw [elementsFrom, if_pos hc] at h
              have hlt : rest.length < (c :: s).length := by
                rw [List.length_cons, hlength, List.length_append, List.length_cons,
                  List.length_cons]
                omega
              exact .behindQuoted hquote hbody hc (splits_of_elements rest h)
            · exact .here hquote hbody (Nat.le_of_not_lt hc)
        · rw [elementsFrom_unfinished hquote hs] at h
          cases h
      | false =>
        rw [elementsFrom_value hquote hspace, Option.map_eq_none_iff] at h
        have hlength := Place.start.length_left_le (c :: s)
        cases hleft : Place.start.left (c :: s) with
        | nil =>
          rw [hleft] at h
          cases h
        | cons c' rest =>
          rw [hleft] at h
          have hlt : rest.length < (c :: s).length := by
            rw [hleft] at hlength
            exact hlength
          exact .behindValue hquote hspace hleft (splits_of_elements rest h)
termination_by s.length
decreasing_by
  · exact hlt
  · exact hlt
  · exact Nat.lt_succ_self _

theorem elements?_eq_none_iff : elements? s = none ↔ Splits s :=
  ⟨splits_of_elements s, Splits.elements_eq⟩

example : Splits ['4', ' ', '"', 'a', '"', 'é'] := by
  have ha : Enclosed '"' ['a'] := .char (by decide) (by decide) .nil
  exact .behindValue rfl rfl rfl (.here rfl ha (by decide))

/-! ## Values -/

theorem body?_eq_some_iff : body? s = some t ↔ s = '[' :: (t ++ [']']) := by
  constructor
  · intro h
    unfold body? at h
    split at h
    · rename_i s
      split at h
      · rename_i hlast
        obtain ⟨t, rfl⟩ := List.getLast?_eq_some_iff.1 (beq_iff_eq.1 hlast)
        rw [List.dropLast_concat] at h
        rw [Option.some.inj h]
      · cases h
    · cases h
  · rintro rfl
    simp [body?]

theorem value?_eq (s : List Char) : value? s =
    match body? s with
    | none => some (scalar s)
    | some b => (elements? b).bind fun es => (es.mapM value?).map .arr := by
  rw [value?]
  split
  · rename_i hbody
    rw [hbody]
  · rename_i b hbody
    rw [hbody]
    split
    · rename_i hnone
      simp only [hnone, Option.bind_none]
    · rename_i es hes
      simp only [hes, Option.bind_some]
      rw [List.mapM_subtype fun _ _ => rfl, List.unattach_attach]

/-- A value fails in a list, or in a list of it. -/
theorem value?_eq_none_iff : value? s = none ↔ ∃ t, s = '[' :: (t ++ [']']) ∧
    (elements? t = none ∨ ∃ es, elements? t = some es ∧ ∃ e ∈ es, value? e = none) := by
  rw [value?_eq]
  constructor
  · intro h
    cases hbody : body? s with
    | none =>
      rw [hbody] at h
      cases h
    | some t =>
      rw [hbody] at h
      refine ⟨t, body?_eq_some_iff.1 hbody, ?_⟩
      cases hes : elements? t with
      | none => exact .inl rfl
      | some es =>
        simp only [hes, Option.bind_some, Option.map_eq_none_iff] at h
        exact .inr ⟨es, rfl, mapM_eq_none_iff.1 h⟩
  · rintro ⟨t, hs, h⟩
    rw [body?_eq_some_iff.2 hs]
    obtain hnone | ⟨es, hes, he⟩ := h
    · simp only [hnone, Option.bind_none]
    · simp only [hes, Option.bind_some, mapM_eq_none_iff.2 he, Option.map_none]

namespace Offsets

/-- Whether a text is a list: brackets stand at both its ends. -/
def IsList (s : String) : Prop :=
  2 ≤ (bytes s.toList).length ∧ s.toList.head? = some '[' ∧ s.toList.getLast? = some ']'

instance (s : String) : Decidable (IsList s) := inferInstanceAs (Decidable (_ ∧ _ ∧ _))

theorem isList_iff {s : String} : IsList s ↔ ∃ t, s.toList = '[' :: (t ++ [']']) := by
  unfold IsList
  constructor
  · rintro ⟨hlength, hfirst, hlast⟩
    obtain ⟨t, ht⟩ := List.getLast?_eq_some_iff.1 hlast
    rw [ht] at hfirst hlength ⊢
    cases t with
    | nil => cases hfirst
    | cons c t => exact ⟨t, by rw [Option.some.inj hfirst]; rfl⟩
  · rintro ⟨t, ht⟩
    rw [ht, length_bytes_cons (by decide), Text.Utf8.bytes_append, List.length_append,
      length_bytes_cons (by decide)]
    refine ⟨by omega, rfl, ?_⟩
    rw [← List.cons_append, List.getLast?_concat]

/-- The text between the brackets of a list. -/
def body? (s : String) : Option String :=
  slice? (bytes s.toList) 1 ((bytes s.toList).length - 1)

theorem body?_eq {s : String} (h : s.toList = '[' :: (t ++ [']'])) :
    body? s = some (String.ofList t) := by
  have hat := At.zero s.toList
  rw [h] at hat
  have hinner := (hat.exists_mark (by decide)).2
  rw [body?, h, hinner.length_sub_one (by decide), hinner.slice_eq]

/-- An element is shorter than the list that it is in. -/
theorem length_lt_of_mem {s b e : String} {es : List String} (h : IsList s)
    (hb : body? s = some b) (hes : elements? b = some es) (he : e ∈ es) :
    e.toList.length < s.toList.length := by
  obtain ⟨t, ht⟩ := isList_iff.1 h
  obtain rfl := Option.some.inj ((body?_eq ht).symm.trans hb)
  rw [elements?_eq, String.toList_ofList] at hes
  obtain ⟨l, hl, rfl⟩ := Option.map_eq_some_iff.1 hes
  obtain ⟨x, hx, rfl⟩ := List.mem_map.1 he
  have := length_le_of_mem_elements hl hx
  rw [String.toList_ofList, ht, List.length_cons, List.length_append]
  omega

/-- The meaning of a text, found by offsets. -/
def value? (s : String) : Option Json :=
  if _ : IsList s then
    match _ : body? s with
    | none => none
    | some b =>
      match _ : elements? b with
      | none => none
      | some es => (es.attach.mapM fun e => value? e.1).map .arr
  else some (scalar s.toList)
termination_by s.toList.length
decreasing_by exact length_lt_of_mem ‹_› ‹_› ‹_› e.2

theorem value?_eq (s : String) : value? s = KeyValue.value? s.toList := by
  rw [value?, KeyValue.value?_eq]
  by_cases h : IsList s
  · obtain ⟨t, ht⟩ := isList_iff.1 h
    have hbody := body?_eq ht
    have helements := elements?_eq (String.ofList t)
    rw [String.toList_ofList] at helements
    rw [dif_pos h, body?_eq_some_iff.2 ht]
    split
    · rename_i hnone
      rw [hbody] at hnone
      cases hnone
    · rename_i b hb
      obtain rfl := Option.some.inj (hbody.symm.trans hb)
      split
      · rename_i hnone
        rw [helements, Option.map_eq_none_iff] at hnone
        simp only [hnone, Option.bind_none]
      · rename_i es hes
        obtain ⟨l, hl, rfl⟩ := Option.map_eq_some_iff.1 (helements.symm.trans hes)
        have hmem : ∀ x ∈ l, (value? ∘ String.ofList) x = KeyValue.value? x := fun x hx => by
          rw [Function.comp_apply, value?_eq (String.ofList x), String.toList_ofList]
        simp only [hl, Option.bind_some]
        rw [List.mapM_subtype fun _ _ => rfl, List.unattach_attach, List.mapM_map,
          mapM_congr hmem]
  · have hnone : KeyValue.body? s.toList = none := by
      cases hbody : KeyValue.body? s.toList with
      | none => rfl
      | some t => exact absurd (isList_iff.2 ⟨t, body?_eq_some_iff.1 hbody⟩) h
    rw [dif_neg h, hnone]
termination_by s.toList.length
decreasing_by exact length_lt_of_mem h hb hes (List.mem_map_of_mem hx)

/-- A value fails just if it is a list whose elements cannot be told apart, or one that fails is
among them. -/
theorem value?_eq_none_iff (s : String) : value? s = none ↔ IsList s ∧ ∃ b, body? s = some b ∧
    (elements? b = none ∨ ∃ es, elements? b = some es ∧ ∃ e ∈ es, value? e = none) := by
  rw [value?_eq, KeyValue.value?_eq_none_iff]
  constructor
  · rintro ⟨t, ht, h⟩
    refine ⟨isList_iff.2 ⟨t, ht⟩, String.ofList t, body?_eq ht, ?_⟩
    rw [elements?_eq, String.toList_ofList]
    obtain hnone | ⟨es, hes, e, he, hvalue⟩ := h
    · exact .inl (by rw [hnone]; rfl)
    · refine .inr ⟨es.map String.ofList, by rw [hes]; rfl, String.ofList e,
        List.mem_map_of_mem he, ?_⟩
      rw [value?_eq, String.toList_ofList, hvalue]
  · rintro ⟨hlist, b, hb, h⟩
    obtain ⟨t, ht⟩ := isList_iff.1 hlist
    obtain rfl := Option.some.inj ((body?_eq ht).symm.trans hb)
    refine ⟨t, ht, ?_⟩
    rw [elements?_eq, String.toList_ofList] at h
    obtain hnone | ⟨es, hes, e, he, hvalue⟩ := h
    · exact .inl (Option.map_eq_none_iff.1 hnone)
    · obtain ⟨l, hl, rfl⟩ := Option.map_eq_some_iff.1 hes
      obtain ⟨x, hx, rfl⟩ := List.mem_map.1 he
      rw [value?_eq, String.toList_ofList] at hvalue
      exact .inr ⟨l, hl, x, hx, hvalue⟩

end Offsets

end TraceExplorer.KeyValue

namespace TraceExplorer.Trace

open KeyValue (Offsets.value?)

/-! ## Lines -/

/-- Whether the value of a pair is read as such: not if it names the child of a copy. -/
def IsRead (e : String × String) : Prop := e.1 = "child" → MachineId.find? e.2.toList = none

/-- A value in the tail of a record fails. -/
def Line.Splits (l : Line) : Prop :=
  ∃ id r, l = .record id r ∧ ∃ e ∈ KeyValue.pairs r.tail, IsRead e ∧ Offsets.value? e.2 = none

theorem tailValue?_eq_none_iff {e : String × String} :
    tailValue? e.1 e.2 = none ↔ IsRead e ∧ Offsets.value? e.2 = none := by
  unfold tailValue? IsRead
  rw [KeyValue.Offsets.value?_eq]
  by_cases hkey : e.1 = "child"
  · rw [if_pos hkey]
    cases MachineId.find? e.2.toList <;> simp [hkey]
  · simp [hkey]

theorem tailExtra?_eq_none_iff {tail : String} : tailExtra? tail = none ↔
    ∃ e ∈ KeyValue.pairs tail, IsRead e ∧ Offsets.value? e.2 = none := by
  rw [tailExtra?, Option.map_eq_none_iff, mapM_eq_none_iff]
  simp only [Option.map_eq_none_iff, tailValue?_eq_none_iff]

theorem Draft.step_eq_none_iff (d : Draft) (l : Line) : d.step l = none ↔ l.Splits := by
  unfold Line.Splits
  cases l with
  | stray text => cases hcurrent : d.current <;> simp [step, hcurrent]
  | note id text => simp [step]
  | record id r =>
    simp only [step, Option.map_eq_none_iff, Record.event?, tailExtra?_eq_none_iff]
    constructor
    · exact fun h => ⟨id, r, rfl, h⟩
    · rintro ⟨id', r', heq, h⟩
      rw [(Line.record.inj heq).2]
      exact h

theorem foldlM_step_eq_none_iff {lines : List String} {d : Draft} :
    lines.foldlM (fun (d : Draft) line => d.step (Line.ofString line)) d = none ↔
      ∃ line ∈ lines, (Line.ofString line).Splits := by
  induction lines generalizing d with
  | nil => simp
  | cons line lines ih =>
    have hline := d.step_eq_none_iff (Line.ofString line)
    rw [List.foldlM_cons]
    simp only [List.mem_cons, exists_eq_or_imp, ← hline]
    cases d.step (Line.ofString line) with
    | none => simp
    | some d' => simpa using ih

/-- A trace fails just if one of its lines does. -/
theorem ofLines?_eq_none_iff {lines : List String} :
    ofLines? lines = none ↔ ∃ line ∈ lines, (Line.ofString line).Splits := by
  rw [ofLines?, Option.map_eq_none_iff, foldlM_step_eq_none_iff]

end TraceExplorer.Trace

namespace TraceExplorer.KeyValue

/-- What the scans of a text by offsets give, and when they fail. -/
structure Scans (s : String) : Prop where
  pairs : Offsets.pairs? s = some (pairs s)
  unquote : Offsets.unquote? s = some (unquote s)
  elements : Offsets.elements? s = (elements? s.toList).map fun es => es.map String.ofList
  elements_fail : Offsets.elements? s = none ↔ Splits s.toList
  value : Offsets.value? s = value? s.toList
  value_fail : Offsets.value? s = none ↔ Offsets.IsList s ∧ ∃ b, Offsets.body? s = some b ∧
    (Offsets.elements? b = none ∨
      ∃ es, Offsets.elements? b = some es ∧ ∃ e ∈ es, Offsets.value? e = none)
  line_fail : ∀ d : Trace.Draft,
    d.step (Trace.Line.ofString s) = none ↔ (Trace.Line.ofString s).Splits

theorem scans (s : String) : Scans s where
  pairs := Offsets.pairs?_eq s
  unquote := Offsets.unquote?_eq s
  elements := Offsets.elements?_eq s
  elements_fail := by
    rw [Offsets.elements?_eq, Option.map_eq_none_iff, elements?_eq_none_iff]
  value := Offsets.value?_eq s
  value_fail := Offsets.value?_eq_none_iff s
  line_fail d := d.step_eq_none_iff _

end TraceExplorer.KeyValue
