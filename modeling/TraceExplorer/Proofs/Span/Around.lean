import TraceExplorer.Proofs.Span.Forest
import Mathlib.Data.List.Perm.Basic

/-
  The spans around a row. A row is surrounded by the spans that started before it and have not
  ended before it. Closing spans for a later row leaves the count for the rows so far as it is
  (`countP_hung_iterate_pop`). For the row that comes next it is the depth of the stack
  (`Nested.countP_hung`).

  A span closed on row 0 has no end, as if it were open. There is one only if a machine ends on
  row 0; it is void, and surrounds no row.
-/

namespace TraceExplorer.Span

/-- The span was opened and closed on row 0, where a machine ended if `ends`. -/
def isVoid (ends : Bool) (s : Span) : Bool := ends && s.start = 0

/-- The span is around the row: the row is inside, but does not open the span. -/
def surrounds (ends : Bool) (row : Nat) (s : Span) : Bool :=
  s.start < row && s.last.all (row ≤ ·) && !s.isVoid ends

/-- As many elements have `p` as there are places of elements with `p`. -/
theorem countP_eq_length {α : Type} {p : α → Bool} {l : List α} {ns : List Nat}
    (hnodup : ns.Nodup) (h : ∀ n, n ∈ ns ↔ ∃ a, l[n]? = some a ∧ p a = true) :
    l.countP p = ns.length := by
  have hperm : (l.findIdxs p).Perm ns := by
    refine (List.perm_ext_iff_of_nodup List.nodup_findIdxs hnodup).2 fun n => ?_
    rw [List.mem_findIdxs_iff_exists_getElem_pos, h]
    simp only [List.getElem?_eq_some_iff]
    constructor
    · rintro ⟨hn, hp⟩
      exact ⟨l[n], ⟨hn, rfl⟩, hp⟩
    · rintro ⟨_, ⟨hn, rfl⟩, hp⟩
      exact ⟨hn, hp⟩
  exact List.length_findIdxs.symm.trans hperm.length_eq

theorem countP_congr_getElem? {α : Type} {p : α → Bool} {l l' : List α}
    (h : ∀ n : Nat, l[n]?.map p = l'[n]?.map p) : l.countP p = l'.countP p := by
  have hmap : l.map p = l'.map p := List.ext_getElem? fun n => by
    rw [List.getElem?_map, List.getElem?_map, h]
  have hcount := congrArg (List.countP id) hmap
  rwa [List.countP_map, List.countP_map] at hcount

namespace Builder

variable {b : Builder} {row : Nat} {ends : Bool}

theorem length_hung_iterate_pop (b : Builder) (row k : Nat) :
    ((pop row)^[k] b).hung.length = b.hung.length :=
  iterate_pop_induction (P := fun c => c.hung.length = b.hung.length)
    (fun c hc => by rw [length_hung, length_spans_pop, ← length_hung, hc]) rfl k

/-- To open a span and close all adds one that is closed to those closed without it. -/
theorem hung_closeAll_push (h : b.Nested row) (labels : List String) (row' : Nat) :
    ((b.push labels row').closeAll row').hung =
      (b.closeAll row').hung ++
        [⟨labels.headD "", row', rowBefore? row', b.stack.head?, []⟩] := by
  have hlen := length_hung_iterate_pop b row' b.stack.length
  rw [closeAll_eq, closeAll_eq]
  refine List.ext_getElem? fun n => ?_
  rw [getElem?_hung_iterate_pop, List.take_length, hung_push h.stack_lt]
  rcases Nat.lt_trichotomy n b.hung.length with hn | rfl | hn
  · have hmem : n ∈ (b.push labels row').stack ↔ n ∈ b.stack := by
      refine ⟨fun hmem => (List.mem_cons.1 hmem).resolve_left fun heq => ?_,
        List.mem_cons_of_mem _⟩
      rw [length_hung, heq] at hn
      exact Nat.lt_irrefl _ hn
    rw [List.getElem?_append_left hn, List.getElem?_append_left (hlen ▸ hn),
      getElem?_hung_iterate_pop, List.take_length]
    simp only [hmem]
  · rw [List.getElem?_concat_length, ← hlen, List.getElem?_concat_length, hlen, length_hung]
    simp [push]
  · rw [List.getElem?_eq_none (by simp; omega), List.getElem?_eq_none (by simp [hlen]; omega)]
    rfl

/-! ## Counts -/

theorem countP_hung_iterate_pop (h : b.Nested row) {row' r : Nat} (hr : r < row') (k : Nat) :
    ((pop row')^[k] b).hung.countP (surrounds ends r) = b.hung.countP (surrounds ends r) := by
  refine countP_congr_getElem? fun n => ?_
  rw [getElem?_hung_iterate_pop]
  cases hs : b.hung[n]? with
  | none => rfl
  | some s =>
    rw [Option.map_some, Option.map_some, Option.map_some]
    by_cases hn : n ∈ b.stack.take k
    · -- The span was open, and ends on the row before `row'`.
      have hlast := h.last_open n s hs (List.mem_of_mem_take hn)
      have hend : rowBefore? row' = some (row' - 1) := rowBefore?_eq_some.2 (by omega)
      have hle : r ≤ row' - 1 := by omega
      simp [hn, surrounds, isVoid, hlast, hend, hle]
    · rw [if_neg hn]

theorem countP_finish (b : Builder) (ends : Bool) (r : Nat) :
    b.finish.spans.countP (surrounds ends r) = b.hung.countP (surrounds ends r) := by
  refine countP_congr_getElem? fun n => ?_
  rw [show b.finish.spans[n]? = b.finish.span? n from rfl, span?_finish, Option.map_map]
  rfl

/-- The open spans surround the row that comes next. -/
theorem Nested.countP_hung (h : b.Nested row) (hstack : ∀ n s, b.hung[n]? = some s →
      (n ∈ b.stack ↔ s.start < row ∧ s.last = none ∧ s.isVoid ends = false)) :
    b.hung.countP (surrounds ends row) = b.depth := by
  refine countP_eq_length h.nodup_stack fun n => ?_
  constructor
  · intro hn
    have hlt := h.stack_lt n hn
    rw [← length_hung] at hlt
    obtain ⟨hstart, hlast, hvoid⟩ := (hstack n _ (List.getElem?_eq_getElem hlt)).1 hn
    refine ⟨_, List.getElem?_eq_getElem hlt, ?_⟩
    simp [surrounds, hstart, hlast, hvoid]
  · rintro ⟨s, hs, hsurrounds⟩
    simp only [surrounds, Bool.and_eq_true, decide_eq_true_eq, Bool.not_eq_true'] at hsurrounds
    obtain ⟨⟨hstart, hlast⟩, hvoid⟩ := hsurrounds
    refine (hstack n s hs).2 ⟨hstart, ?_, hvoid⟩
    cases hend : s.last with
    | none => rfl
    | some u =>
      have hlt := h.last_lt s (List.mem_of_getElem? hs) u hend
      rw [hend, Option.all_some, decide_eq_true_eq] at hlast
      omega

end Builder

end TraceExplorer.Span
