import TraceExplorer.Proofs.Span.Around

/-
  A builder and one that comes out of it by later actions. A span that is closed stays as it is,
  one that is open may be closed at a later row, and the spans that are opened start at later rows
  (`Later`). Each action keeps this (`Later.act`). So which spans were closed by a row so
  far can be told from any later builder (`Later.closedBy_iff`).
-/

namespace TraceExplorer.Span

/-- The span was closed by the operation on the row. One that was closed by row 0 has no end, as if
    it were open, and is void. -/
structure ClosedBy (ends : Bool) (s : Span) (row : Nat) : Prop where
  last : s.last = Builder.rowBefore? row
  void : row = 0 → s.isVoid ends = true

namespace Builder

theorem rowBefore?_inj {row row' : Nat} (h : rowBefore? row = rowBefore? row') : row = row' := by
  cases hlast : rowBefore? row' with
  | none =>
    have hzero := rowBefore?_eq_none.1 hlast
    have hzero' := rowBefore?_eq_none.1 (h.trans hlast)
    omega
  | some last =>
    have hrow := rowBefore?_eq_some.1 hlast
    have hrow' := rowBefore?_eq_some.1 (h.trans hlast)
    omega

/-- `c` comes out of `b` by actions at `row` and behind. -/
structure Later (row : Nat) (b c : Builder) : Prop where
  /-- Only the end of a span that is open can be another. -/
  kept : ∀ (n : Nat) (s : Span), b.hung[n]? = some s → ∃ last, c.hung[n]? = some { s with last } ∧
    (last = s.last ∨ n ∈ b.stack ∧ ∃ close, row ≤ close ∧ last = rowBefore? close)
  opened : ∀ (n : Nat) (t : Span), b.hung[n]? = none → c.hung[n]? = some t → row ≤ t.start
  stack : ∀ n ∈ c.stack, n ∈ b.stack ∨ b.hung[n]? = none

variable {b c : Builder} {row row' : Nat}

theorem Later.refl (row : Nat) (b : Builder) : Later row b b where
  kept _ s hs := ⟨s.last, hs, .inl rfl⟩
  opened n t hnone ht := by
    rw [hnone] at ht
    cases ht
  stack _ hn := .inl hn

theorem Later.length_le (h : Later row b c) : b.hung.length ≤ c.hung.length := by
  rw [← Nat.not_lt]
  intro hlt
  obtain ⟨last, hlast, _⟩ := h.kept _ _ (List.getElem?_eq_getElem hlt)
  have := (List.getElem?_eq_some_iff.1 hlast).1
  omega

theorem Later.iterate_pop (h : Later row b c) {close : Nat} (hle : row ≤ close) (k : Nat) :
    Later row b ((pop close)^[k] c) where
  kept n s hs := by
    obtain ⟨last, hlast, hend⟩ := h.kept n s hs
    rw [getElem?_hung_iterate_pop, hlast, Option.map_some]
    by_cases hn : n ∈ c.stack.take k
    · -- The span is closed now, so it is open in both.
      have hopen : n ∈ b.stack := by
        refine (h.stack n (List.mem_of_mem_take hn)).resolve_right fun hnone => ?_
        rw [hnone] at hs
        cases hs
      exact ⟨rowBefore? close, by rw [if_pos hn], .inr ⟨hopen, close, hle, rfl⟩⟩
    · exact ⟨last, by rw [if_neg hn], hend⟩
  opened n t hnone ht := by
    obtain ⟨s, hs, rfl⟩ := exists_of_hung_iterate_pop ht
    have hstart := h.opened n s hnone hs
    split <;> exact hstart
  stack n hn := by
    rw [stack_iterate_pop] at hn
    exact h.stack n (List.mem_of_mem_drop hn)

theorem Later.push (h : Later row b c) (hc : c.Nested row') {start : Nat} (hle : row ≤ start)
    (labels : List String) : Later row b (c.push labels start) where
  kept n s hs := by
    obtain ⟨last, hlast, hend⟩ := h.kept n s hs
    have hn := (List.getElem?_eq_some_iff.1 hlast).1
    refine ⟨last, ?_, hend⟩
    rw [hung_push hc.stack_lt, List.getElem?_append_left hn, hlast]
  opened n t hnone ht := by
    rcases getElem?_hung_push hc ht with ⟨_, ht⟩ | ⟨_, rfl⟩
    · exact h.opened n t hnone ht
    · exact hle
  stack n hn := by
    rcases List.mem_cons.1 hn with rfl | hn
    · have hlen := h.length_le
      rw [length_hung c] at hlen
      exact .inr (List.getElem?_eq_none hlen)
    · exact h.stack n hn

theorem Later.act (h : Later row b c) (hc : c.Nested row') {a : Action} (hle : row ≤ a.row) :
    Later row b (c.act a) := by
  rcases act_cases c a with ⟨k, heq⟩ | ⟨labels, heq⟩
  · rw [heq]
    exact h.iterate_pop hle k
  · rw [heq]
    exact h.push hc hle labels

/-- A span was closed before `row` by the row that closed it in `b`, if any did. -/
theorem Later.closedBy_iff (h : Later row b c) {ends : Bool} (hopen : ∀ n s, b.hung[n]? = some s →
      (n ∈ b.stack ↔ s.last = none ∧ s.isVoid ends = false)) {n : Nat} {s t : Span}
    (hs : b.hung[n]? = some s) (ht : c.hung[n]? = some t) {close : Nat} (hclose : close < row) :
    t.ClosedBy ends close ↔ s.ClosedBy ends close := by
  obtain ⟨last, hlast, hend⟩ := h.kept n s hs
  obtain rfl := Option.some.inj (hlast.symm.trans ht)
  rcases hend with rfl | ⟨hmem, close', hle, rfl⟩
  · exact Iff.rfl
  · obtain ⟨hnone, hvoid⟩ := (hopen n s hs).1 hmem
    constructor
    · intro hclosed
      have := rowBefore?_inj hclosed.last
      omega
    · intro hclosed
      have hzero := rowBefore?_eq_none.1 (hclosed.last.symm.trans hnone)
      rw [hclosed.void hzero] at hvoid
      cases hvoid

end Builder

end TraceExplorer.Span
