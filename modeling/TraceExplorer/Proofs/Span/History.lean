import TraceExplorer.Proofs.Span.Nesting

/-
  When spans open and close. An action opens a span, closes it, or leaves it as it is
  (`change_act`); over a list of actions a span is opened once and closed at most once, it starts
  at the row of the one action and ends before the row of the other (`story_ofActions`).
-/

namespace TraceExplorer.Span.Builder

/-! ## One action -/

/-- What an action at `row` does with span `n`, before it and after it. -/
inductive Change (b c : Builder) (row n : Nat) : Option Span → Option Span → Prop
  | absent (hb : n ∉ b.stack) (hc : n ∉ c.stack) : Change b c row n none none
  | opens {t : Span} (hb : n ∉ b.stack) (hc : n ∈ c.stack) (hstart : t.start = row)
      (hlast : t.last = none) : Change b c row n none (some t)
  | closes {s t : Span} (hb : n ∈ b.stack) (hc : n ∉ c.stack) (hstart : t.start = s.start)
      (hlast : t.last = rowBefore? row) : Change b c row n (some s) (some t)
  | keeps {s t : Span} (hstack : n ∈ c.stack ↔ n ∈ b.stack) (hstart : t.start = s.start)
      (hlast : t.last = s.last) : Change b c row n (some s) (some t)

variable {b : Builder} {row row' : Nat}

theorem Nested.not_mem_stack (h : b.Nested row) {n : Nat} (hn : b.hung[n]? = none) :
    n ∉ b.stack := fun hmem => by
  rw [List.getElem?_eq_none_iff, length_hung] at hn
  have := h.stack_lt n hmem
  omega

theorem Nested.change_push (h : b.Nested row) (labels : List String) (row' n : Nat) :
    Change b (b.push labels row') row' n b.hung[n]? (b.push labels row').hung[n]? := by
  rw [hung_push h.stack_lt]
  rcases Nat.lt_trichotomy n b.hung.length with hn | rfl | hn
  · rw [List.getElem?_append_left hn, List.getElem?_eq_getElem hn]
    refine .keeps ⟨fun hmem => ?_, List.mem_cons_of_mem _⟩ rfl rfl
    rcases List.mem_cons.1 hmem with rfl | hmem
    · rw [length_hung] at hn
      exact absurd hn (Nat.lt_irrefl _)
    · exact hmem
  · rw [List.getElem?_concat_length, List.getElem?_eq_none (Nat.le_refl _)]
    refine .opens (h.not_mem_stack (List.getElem?_eq_none (Nat.le_refl _))) ?_ rfl rfl
    rw [length_hung]
    exact List.mem_cons_self
  · have hnone : b.hung[n]? = none := List.getElem?_eq_none (Nat.le_of_lt hn)
    rw [hnone, List.getElem?_eq_none (by rw [List.length_append, List.length_singleton]; omega)]
    refine .absent (h.not_mem_stack hnone) fun hmem => ?_
    rcases List.mem_cons.1 hmem with rfl | hmem
    · rw [length_hung] at hn
      exact absurd hn (Nat.lt_irrefl _)
    · exact h.not_mem_stack hnone hmem

theorem stack_iterate_pop (b : Builder) (row k : Nat) :
    ((pop row)^[k] b).stack = b.stack.drop k := by
  induction k generalizing b with
  | zero => rfl
  | succ k ih => rw [Function.iterate_succ_apply, ih, stack_pop, List.drop_tail]

/-- The spans taken off the stack end before the row, the others stay as they are. -/
theorem getElem?_hung_iterate_pop (b : Builder) (row k n : Nat) :
    ((pop row)^[k] b).hung[n]? = b.hung[n]?.map fun s =>
      if n ∈ b.stack.take k then { s with last := rowBefore? row } else s := by
  induction k generalizing b with
  | zero => simp
  | succ k ih =>
    rw [Function.iterate_succ_apply, ih, stack_pop]
    cases hstack : b.stack with
    | nil =>
      rw [pop, hstack]
      simp
    | cons m stack =>
      rw [hung_pop hstack, List.getElem?_modify, List.tail_cons, List.take_succ_cons]
      cases b.hung[n]? with
      | none => rfl
      | some s => by_cases hm : m = n <;> by_cases hn : n ∈ stack.take k <;> simp [hm, hn, Ne.symm]

theorem Nested.mem_stack_iterate_pop (h : b.Nested row) {row' k n : Nat} :
    n ∈ ((Builder.pop row')^[k] b).stack ↔ n ∈ b.stack ∧ n ∉ b.stack.take k := by
  have hnodup := h.nodup_stack
  rw [← List.take_append_drop k b.stack, List.nodup_append] at hnodup
  rw [stack_iterate_pop]
  constructor
  · intro hdrop
    exact ⟨List.mem_of_mem_drop hdrop, fun htake => hnodup.2.2 n htake n hdrop rfl⟩
  · rintro ⟨hmem, htake⟩
    rw [← List.take_append_drop k b.stack] at hmem
    exact (List.mem_append.1 hmem).resolve_left htake

/-- A span after some were closed is the one before, with its end. -/
theorem exists_of_hung_iterate_pop {k n : Nat} {t : Span}
    (h : ((pop row)^[k] b).hung[n]? = some t) : ∃ s, b.hung[n]? = some s ∧
      t = if n ∈ b.stack.take k then { s with last := rowBefore? row } else s := by
  rw [getElem?_hung_iterate_pop] at h
  obtain ⟨s, hs, rfl⟩ := Option.map_eq_some_iff.1 h
  exact ⟨s, hs, rfl⟩

theorem Nested.change_iterate_pop (h : b.Nested row) (row' k n : Nat) :
    Change b ((Builder.pop row')^[k] b) row' n b.hung[n]?
      ((Builder.pop row')^[k] b).hung[n]? := by
  rw [getElem?_hung_iterate_pop]
  cases hn : b.hung[n]? with
  | none =>
    have hmem := h.not_mem_stack hn
    exact .absent hmem fun hopen => hmem (h.mem_stack_iterate_pop.1 hopen).1
  | some s =>
    rw [Option.map_some]
    by_cases htake : n ∈ b.stack.take k
    · rw [if_pos htake]
      exact .closes (List.mem_of_mem_take htake)
        (fun hopen => (h.mem_stack_iterate_pop.1 hopen).2 htake) rfl rfl
    · rw [if_neg htake]
      refine .keeps ?_ rfl rfl
      rw [h.mem_stack_iterate_pop]
      exact and_iff_left htake

theorem Nested.change_act (h : b.Nested row) (a : Action) (n : Nat) :
    Change b (b.act a) a.row n b.hung[n]? (b.act a).hung[n]? := by
  rcases act_cases b a with ⟨k, heq⟩ | ⟨labels, heq⟩
  · rw [heq]
    exact h.change_iterate_pop a.row k n
  · rw [heq]
    exact h.change_push labels a.row n

/-! ## A list of actions -/

/-- Among the actions is one on the row that takes the builder from one with `P` to one with
    `Q`. -/
def TurnsAt (actions : List Action) (P Q : Builder → Prop) (row : Nat) : Prop :=
  ∃ before a after, actions = before ++ a :: after ∧ P (ofActions before) ∧
    Q (ofActions (before ++ [a])) ∧ a.row = row

/-- Span `n` is opened by an action on the row. -/
def OpensAt (actions : List Action) (n row : Nat) : Prop :=
  TurnsAt actions (n ∉ ·.stack) (n ∈ ·.stack) row

/-- Span `n` is closed by an action on the row. -/
def ClosesAt (actions : List Action) (n row : Nat) : Prop :=
  TurnsAt actions (n ∈ ·.stack) (n ∉ ·.stack) row

theorem not_turnsAt_nil (P Q : Builder → Prop) (row : Nat) : ¬ TurnsAt [] P Q row := by
  rintro ⟨before, a, after, heq, _⟩
  simp at heq

theorem turnsAt_concat {actions : List Action} {a : Action} {P Q : Builder → Prop} {row : Nat} :
    TurnsAt (actions ++ [a]) P Q row ↔ TurnsAt actions P Q row ∨
      P (ofActions actions) ∧ Q (ofActions (actions ++ [a])) ∧ a.row = row := by
  constructor
  · rintro ⟨before, c, after, heq, hP, hQ, hrow⟩
    rcases List.eq_nil_or_concat after with rfl | ⟨after, d, rfl⟩
    · obtain ⟨rfl, hlast⟩ := List.append_inj' heq rfl
      cases hlast
      exact .inr ⟨hP, hQ, hrow⟩
    · rw [List.concat_eq_append, ← List.cons_append, ← List.append_assoc] at heq
      obtain ⟨rfl, _⟩ := List.append_inj' heq rfl
      exact .inl ⟨before, c, after, rfl, hP, hQ, hrow⟩
  · rintro (⟨before, c, after, rfl, hP, hQ, hrow⟩ | ⟨hP, hQ, hrow⟩)
    · exact ⟨before, c, after ++ [a], by simp, hP, hQ, hrow⟩
    · exact ⟨actions, a, [], rfl, hP, hQ, hrow⟩

/-- What the actions did with span `n`: it was opened by one of them, if it is there, and closed
    by one at most. -/
inductive Story (actions : List Action) (n : Nat) : Option Span → Prop
  | absent (hstack : n ∉ (ofActions actions).stack) (hopens : ∀ row, ¬ OpensAt actions n row)
      (hcloses : ∀ row, ¬ ClosesAt actions n row) : Story actions n none
  | stays {s : Span} (hstack : n ∈ (ofActions actions).stack)
      (hopens : ∀ row, OpensAt actions n row ↔ s.start = row)
      (hcloses : ∀ row, ¬ ClosesAt actions n row) (hlast : s.last = none) :
      Story actions n (some s)
  | closed {s : Span} {last : Nat} (hstack : n ∉ (ofActions actions).stack)
      (hopens : ∀ row, OpensAt actions n row ↔ s.start = row)
      (hcloses : ∀ row, ClosesAt actions n row ↔ last = row) (hlast : s.last = rowBefore? last) :
      Story actions n (some s)

theorem story_ofActions {actions : List Action} (h : actions.Pairwise fun a b => a.row ≤ b.row)
    (n : Nat) : Story actions n (ofActions actions).hung[n]? := by
  induction actions using List.reverseRecOn with
  | nil => exact .absent (by simp [ofActions, empty]) (not_turnsAt_nil _ _) (not_turnsAt_nil _ _)
  | append_singleton actions a ih =>
    obtain ⟨hfront, _, hlast⟩ := List.pairwise_append.1 h
    have hnested := nested_ofActions hfront fun b hb => hlast b hb a List.mem_cons_self
    have hchange := hnested.change_act a n
    have hstory := ih hfront
    rw [← ofActions_concat] at hchange
    have hopens : ∀ row, OpensAt (actions ++ [a]) n row ↔ OpensAt actions n row ∨
        n ∉ (ofActions actions).stack ∧ n ∈ (ofActions (actions ++ [a])).stack ∧ a.row = row :=
      fun _ => turnsAt_concat
    have hcloses : ∀ row, ClosesAt (actions ++ [a]) n row ↔ ClosesAt actions n row ∨
        n ∈ (ofActions actions).stack ∧ n ∉ (ofActions (actions ++ [a])).stack ∧ a.row = row :=
      fun _ => turnsAt_concat
    generalize (ofActions actions).hung[n]? = before at hchange hstory
    generalize (ofActions (actions ++ [a])).hung[n]? = now at hchange
    cases hchange with
    | absent hb hc =>
      cases hstory with
      | absent _ ho hk =>
        exact .absent hc (fun row => by simp [hopens, ho, hc]) fun row => by simp [hcloses, hk, hb]
    | opens hb hc hstart hlast =>
      cases hstory with
      | absent _ ho hk =>
        refine .stays hc (fun row => ?_) (fun row => by simp [hcloses, hk, hb]) hlast
        simp [hopens, ho, hb, hc, hstart]
    | closes hb hc hstart hlast =>
      cases hstory with
      | stays _ ho hk _ =>
        refine .closed hc (fun row => ?_) (fun row => ?_) hlast
        · simp [hopens, ho, hb, hstart]
        · simp [hcloses, hk, hb, hc]
      | closed hstack => exact absurd hb hstack
    | keeps hstack hstart hlast =>
      cases hstory with
      | stays hb ho hk hnone =>
        have hc := hstack.2 hb
        refine .stays hc (fun row => ?_) (fun row => ?_) (hlast.trans hnone)
        · simp [hopens, ho, hb, hstart]
        · simp [hcloses, hk, hc]
      | closed hb ho hk hend =>
        have hc := mt hstack.1 hb
        refine .closed hc (fun row => ?_) (fun row => ?_) (hlast.trans hend)
        · simp [hopens, ho, hc, hstart]
        · simp [hcloses, hk, hb]

end TraceExplorer.Span.Builder
