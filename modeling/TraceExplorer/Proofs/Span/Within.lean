import TraceExplorer.Proofs.Span.Forest

/-
  What lies below a closed span. It was opened while the span was open, and closed before it or
  with it; so it is closed as well, and ends no later (`Encloses`). Each action keeps this
  (`Encloses.act`). So the rows of a span are rows of every closed span that it lies below
  (`Encloses.within`). A span that is still open has no rows, whatever lies below it.
-/

namespace TraceExplorer.Span

/-- The rows of `t` are rows of `s`. -/
structure Within (t s : Span) : Prop where
  start_le : s.start ≤ t.start
  last_le : ∀ v, t.last = some v → ∃ u, s.last = some u ∧ v ≤ u

namespace Within

variable {r s t : Span}

theorem trans (h : Within t s) (h' : Within s r) : Within t r := by
  refine ⟨Nat.le_trans h'.start_le h.start_le, fun v hv => ?_⟩
  obtain ⟨u, hu, hle⟩ := h.last_le v hv
  obtain ⟨w, hw, hle'⟩ := h'.last_le u hu
  exact ⟨w, hw, Nat.le_trans hle hle'⟩

theorem isBroken_eq_false (h : Within t s) (ht : t.isBroken = false) : s.isBroken = false := by
  obtain ⟨v, hv, hstart⟩ := exists_last_of_not_broken ht
  obtain ⟨u, hu, hle⟩ := h.last_le v hv
  have := h.start_le
  unfold isBroken
  rw [hu, decide_eq_false_iff_not]
  omega

end Within

theorem Below.exists_child {spans : List Span} {n m : Nat} (h : Below spans n m) :
    ∃ c, (c = n ∨ Below spans n c) ∧ parentIn? spans c = some m := by
  obtain ⟨c, hc, hparent⟩ := Relation.TransGen.tail'_iff.1 h
  exact ⟨c, (Relation.reflTransGen_iff_eq_or_transGen.1 hc), hparent⟩

namespace Builder

/-- What hangs off a closed span is closed, and it ends no later. -/
structure Encloses (b : Builder) : Prop where
  closed : ∀ n p, parentIn? b.hung n = some p → p ∉ b.stack → n ∉ b.stack
  last_le : ∀ (n p : Nat) (s t : Span), b.hung[p]? = some s → b.hung[n]? = some t →
    t.parent = some p → p ∉ b.stack → ∀ v, t.last = some v → ∃ u, s.last = some u ∧ v ≤ u

variable {b : Builder} {row row' : Nat}

theorem encloses_empty : empty.Encloses where
  closed _ _ h := by cases h
  last_le _ _ _ _ h := by cases h

theorem Encloses.push (h : b.Encloses) (hb : b.Nested row) (labels : List String) :
    (b.push labels row').Encloses where
  closed n p hparent hp hn := by
    obtain ⟨t, ht, hparent⟩ := Option.bind_eq_some_iff.1 hparent
    have hp : p ∉ b.stack := fun hmem => hp (List.mem_cons_of_mem _ hmem)
    rcases getElem?_hung_push hb ht with ⟨hlt, ht⟩ | ⟨_, rfl⟩
    · rcases List.mem_cons.1 hn with rfl | hn
      · exact absurd hlt (Nat.lt_irrefl _)
      · exact h.closed n p (Option.bind_eq_some_iff.2 ⟨t, ht, hparent⟩) hp hn
    · exact hp (List.mem_of_mem_head? hparent)
  last_le n p s t hs ht hparent hp v hv := by
    have hp : p ∉ b.stack := fun hmem => hp (List.mem_cons_of_mem _ hmem)
    rcases getElem?_hung_push hb ht with ⟨hlt, ht⟩ | ⟨_, rfl⟩
    · rcases getElem?_hung_push hb hs with ⟨_, hs⟩ | ⟨rfl, _⟩
      · exact h.last_le n p s t hs ht hparent hp v hv
      · have := hb.parent_lt n _ (Option.bind_eq_some_iff.2 ⟨t, ht, hparent⟩)
        omega
    · cases hv

theorem Encloses.pop (h : b.Encloses) (hb : b.Nested row) (hle : row ≤ row') :
    (b.pop row').Encloses := by
  cases hstack : b.stack with
  | nil =>
    rw [Builder.pop, hstack]
    exact h
  | cons m stack =>
    have hpop : (b.pop row').stack = stack := by rw [stack_pop, hstack]; rfl
    have hfirst := (List.pairwise_cons.1 (hstack ▸ hb.stack_descends)).1
    have hclosed : ∀ n p, parentIn? b.hung n = some p → p ∉ stack → n ∉ stack := by
      intro n p hparent hp hn
      by_cases hpm : p = m
      · -- The span around is the innermost one, so nothing that is open hangs off it.
        have := hfirst n hn
        have := hb.parent_lt n p hparent
        omega
      · refine h.closed n p hparent (fun hmem => ?_) (hstack ▸ List.mem_cons_of_mem _ hn)
        rw [hstack] at hmem
        exact (List.mem_cons.1 hmem).elim hpm hp
    refine ⟨fun n p hparent => ?_, fun n p s' t' hs' ht' hparent hp v hv => ?_⟩
    · rw [hpop]
      exact hclosed n p (parentIn?_hung_pop b row' ▸ hparent)
    · obtain ⟨s, hs, rfl⟩ := getElem?_hung_pop hstack hs'
      obtain ⟨t, ht, rfl⟩ := getElem?_hung_pop hstack ht'
      rw [hpop] at hp
      have hparent : t.parent = some p := by
        rw [← hparent]
        split <;> rfl
      have hlt := hb.parent_lt n p (Option.bind_eq_some_iff.2 ⟨t, ht, hparent⟩)
      by_cases hpm : m = p
      · -- The span around is closed now, and no end is later.
        rw [if_neg (by omega)] at hv
        have := hb.last_lt t (List.mem_of_getElem? ht) v hv
        refine ⟨row' - 1, ?_, by omega⟩
        rw [if_pos hpm]
        exact rowBefore?_eq_some.2 (by omega)
      · have hp : p ∉ b.stack := fun hmem => by
          rw [hstack] at hmem
          exact (List.mem_cons.1 hmem).elim (fun heq => hpm heq.symm) hp
        have hn := h.closed n p (Option.bind_eq_some_iff.2 ⟨t, ht, hparent⟩) hp
        rw [hstack] at hn
        rw [if_neg fun heq : m = n => hn (heq ▸ List.mem_cons_self)] at hv
        rw [if_neg hpm]
        exact h.last_le n p s t hs ht hparent hp v hv

theorem Encloses.act (h : b.Encloses) {a : Action} (hb : b.Nested row) (hle : row ≤ a.row) :
    (b.act a).Encloses := by
  rcases act_cases b a with ⟨k, heq⟩ | ⟨labels, heq⟩
  · rw [heq]
    refine (iterate_pop_induction (P := fun c => c.Nested a.row ∧ c.Encloses) ?_
      ⟨hb.mono hle, h⟩ k).2
    rintro c ⟨hc, henc⟩
    exact ⟨hc.pop (Nat.le_refl _), henc.pop hc (Nat.le_refl _)⟩
  · rw [heq]
    exact h.push hb labels

theorem encloses_ofActions {actions : List Action}
    (h : actions.Pairwise fun a b => a.row ≤ b.row) : (ofActions actions).Encloses := by
  induction actions using List.reverseRecOn with
  | nil => exact encloses_empty
  | append_singleton actions a ih =>
    obtain ⟨hfront, _, hlast⟩ := List.pairwise_append.1 h
    rw [ofActions_concat]
    exact (ih hfront).act
      (nested_ofActions hfront fun b hb => hlast b hb a List.mem_cons_self) (Nat.le_refl _)

/-! ## Any number of levels -/

theorem Encloses.not_mem_stack (h : b.Encloses) {n m : Nat} (hbelow : Below b.hung n m)
    (hm : m ∉ b.stack) : n ∉ b.stack := by
  induction hbelow using Relation.TransGen.head_induction_on with
  | single hparent => exact h.closed _ _ hparent hm
  | head hparent _ ih => exact h.closed _ _ hparent ih

theorem Encloses.within_parent (h : b.Encloses) (hb : b.Nested row) {n p : Nat} {t : Span}
    (hparent : parentIn? b.hung n = some p) (hp : p ∉ b.stack) (ht : b.hung[n]? = some t) :
    ∃ s, b.hung[p]? = some s ∧ Within t s := by
  have hlt := hb.parent_lt n p hparent
  have hn := lt_of_parentIn?_eq_some hparent
  have hs := List.getElem?_eq_getElem (Nat.lt_trans hlt hn)
  rw [parentIn?, ht] at hparent
  exact ⟨_, hs, hb.start_le_start hlt hs ht, h.last_le n p _ t hs ht hparent hp⟩

/-- The rows of a span are rows of every closed span that it lies below. -/
theorem Encloses.within (h : b.Encloses) (hb : b.Nested row) {n m : Nat} {t : Span}
    (hbelow : Below b.hung n m) (hm : m ∉ b.stack) (ht : b.hung[n]? = some t) :
    ∃ s, b.hung[m]? = some s ∧ Within t s := by
  induction hbelow using Relation.TransGen.head_induction_on generalizing t with
  | single hparent => exact h.within_parent hb hparent hm ht
  | head hparent hrest ih =>
    obtain ⟨s, hs, hwithin⟩ := h.within_parent hb hparent (h.not_mem_stack hrest hm) ht
    obtain ⟨r, hr, hwithin'⟩ := ih hs
    exact ⟨r, hr, hwithin.trans hwithin'⟩

/-! ## In the finished forest -/

theorem below_finish (b : Builder) : Below b.finish.spans = Below b.hung := by
  unfold Below
  rw [parentIn?_finish]

theorem Nested.not_mem_stack_of_last (hb : b.Nested row) {n u : Nat} {t : Span}
    (ht : b.finish.span? n = some t) (hu : t.last = some u) : n ∉ b.stack := by
  obtain ⟨s, hs, _, hlast, _⟩ := exists_of_span?_finish ht
  intro hmem
  rw [hlast, hb.last_open n s hs hmem] at hu
  cases hu

theorem Encloses.within_finish (h : b.Encloses) (hb : b.Nested row) {n m : Nat} {t : Span}
    (hbelow : Below b.finish.spans n m) (hm : m ∉ b.stack) (ht : b.finish.span? n = some t) :
    ∃ s, b.finish.span? m = some s ∧ Within t s := by
  rw [below_finish] at hbelow
  obtain ⟨t', ht', hstart, hlast, _⟩ := exists_of_span?_finish ht
  obtain ⟨s', hs', hwithin⟩ := h.within hb hbelow hm ht'
  obtain ⟨s, hs, hstart', hlast', _⟩ := exists_span?_finish hs'
  refine ⟨s, hs, ?_, ?_⟩
  · rw [hstart, hstart']
    exact hwithin.start_le
  · rw [hlast, hlast']
    exact hwithin.last_le

end Builder

/-- A span below another was opened after it. -/
theorem Forest.WellNested.lt_of_below {f : Forest} (h : f.WellNested) {n m : Nat}
    (hbelow : Below f.spans n m) : m < n := by
  have hlt : ∀ {n p}, parentIn? f.spans n = some p → p < n := fun hparent => by
    obtain ⟨s, hs, hparent⟩ := Option.bind_eq_some_iff.1 hparent
    exact h.parent_lt _ s _ hs hparent
  induction hbelow with
  | single hparent => exact hlt hparent
  | tail _ hparent ih => exact Nat.lt_trans (hlt hparent) ih

end TraceExplorer.Span
