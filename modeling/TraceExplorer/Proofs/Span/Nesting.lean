import TraceExplorer.Proofs.Span.Builder
import Mathlib.Data.List.Induction
import Mathlib.Logic.Relation

/-
  The spans of a builder nest. `Nested b row` says what holds before an action at `row` or later:
  the open spans hang one off the other in the order of the stack, and of any two spans the later
  one either lies below the earlier and ends no later, or starts behind its end. Each move keeps
  this, `pop` because it ends the innermost span, `push` because it starts one behind every end
  (`Nested.pop`, `Nested.push`), and so does every action (`Nested.act`).
-/

namespace TraceExplorer.Span

/-- The parent of span `n`, if it has one. -/
def parentIn? (spans : List Span) (n : Nat) : Option Nat := spans[n]?.bind (·.parent)

/-- Span `n` lies below span `m`, its parent or the parent of one that it lies below. -/
def Below (spans : List Span) : Nat → Nat → Prop :=
  Relation.TransGen fun n m => parentIn? spans n = some m

/-- Span `n` lies below `k` others. -/
inductive Depth (spans : List Span) : Nat → Nat → Prop
  | root {n : Nat} {s : Span} (hs : spans[n]? = some s) (hparent : s.parent = none) :
      Depth spans n 0
  | child {n p k : Nat} {s : Span} (hs : spans[n]? = some s) (hparent : s.parent = some p)
      (hp : Depth spans p k) : Depth spans n (k + 1)

theorem parentIn?_append {spans : List Span} {n : Nat} (h : n < spans.length)
    (more : List Span) : parentIn? (spans ++ more) n = parentIn? spans n := by
  rw [parentIn?, List.getElem?_append_left h, parentIn?]

theorem lt_of_parentIn?_eq_some {spans : List Span} {n p : Nat} (h : parentIn? spans n = some p) :
    n < spans.length := by
  obtain ⟨s, hs, _⟩ := Option.bind_eq_some_iff.1 h
  exact (List.getElem?_eq_some_iff.1 hs).1

theorem Below.append {spans : List Span} {n m : Nat} (h : Below spans n m) (more : List Span) :
    Below (spans ++ more) n m :=
  Relation.TransGen.mono
    (fun _ _ hp => (parentIn?_append (lt_of_parentIn?_eq_some hp) more).trans hp) _ _ h

theorem Depth.mono {spans spans' : List Span}
    (h : ∀ (n : Nat) (s : Span), spans[n]? = some s →
      ∃ t, spans'[n]? = some t ∧ t.parent = s.parent) {n k : Nat} (hdepth : Depth spans n k) :
    Depth spans' n k := by
  induction hdepth with
  | root hs hparent =>
    obtain ⟨t, ht, heq⟩ := h _ _ hs
    exact .root ht (heq.trans hparent)
  | child hs hparent _ ih =>
    obtain ⟨t, ht, heq⟩ := h _ _ hs
    exact .child ht (heq.trans hparent) ih

theorem Depth.append {spans : List Span} {n k : Nat} (h : Depth spans n k) (more : List Span) :
    Depth (spans ++ more) n k :=
  h.mono fun _ s hs =>
    ⟨s, by rw [List.getElem?_append_left (List.getElem?_eq_some_iff.1 hs).1, hs], rfl⟩

/-! ## Stacks of open spans -/

/-- Each span of the stack has the next one as its parent, and the last one has none. -/
def Hangs (spans : List Span) : List Nat → Prop
  | [] => True
  | n :: stack => parentIn? spans n = stack.head? ∧ Hangs spans stack

theorem Hangs.append {spans : List Span} {stack : List Nat} (h : Hangs spans stack)
    (hlt : ∀ n ∈ stack, n < spans.length) (more : List Span) : Hangs (spans ++ more) stack := by
  induction stack with
  | nil => trivial
  | cons n stack ih =>
    refine ⟨?_, ih h.2 fun m hm => hlt m (List.mem_cons_of_mem _ hm)⟩
    rw [parentIn?_append (hlt n List.mem_cons_self)]
    exact h.1

theorem Hangs.congr {spans spans' : List Span} {stack : List Nat} (h : Hangs spans stack)
    (heq : parentIn? spans' = parentIn? spans) : Hangs spans' stack := by
  induction stack with
  | nil => trivial
  | cons n stack ih => exact ⟨heq ▸ h.1, ih h.2⟩

theorem Hangs.below {spans : List Span} {n : Nat} {stack : List Nat}
    (h : Hangs spans (n :: stack)) : ∀ m ∈ stack, Below spans n m := by
  induction stack generalizing n with
  | nil => simp
  | cons p stack ih =>
    intro m hm
    rcases List.mem_cons.1 hm with rfl | hm
    · exact .single h.1
    · exact .head h.1 (ih h.2 m hm)

/-- The innermost span of a stack lies below the others. -/
theorem Hangs.depth {spans : List Span} {n : Nat} {stack : List Nat}
    (h : Hangs spans (n :: stack)) (hlt : ∀ m ∈ n :: stack, m < spans.length) :
    Depth spans n stack.length := by
  induction stack generalizing n with
  | nil =>
    have hs := List.getElem?_eq_getElem (hlt n List.mem_cons_self)
    have hparent := h.1
    rw [parentIn?, hs] at hparent
    exact .root hs hparent
  | cons p stack ih =>
    have hs := List.getElem?_eq_getElem (hlt n List.mem_cons_self)
    have hparent := h.1
    rw [parentIn?, hs] at hparent
    exact .child hs hparent (ih h.2 fun m hm => hlt m (List.mem_cons_of_mem _ hm))

/-- The parent of each span of a stack is the one beneath it. -/
theorem Hangs.getElem {spans : List Span} {stack : List Nat} (h : Hangs spans stack) {i n : Nat}
    (hn : stack[i]? = some n) : parentIn? spans n = stack[i + 1]? := by
  induction stack generalizing i with
  | nil => cases hn
  | cons m stack ih =>
    cases i with
    | zero =>
      obtain rfl := Option.some.inj hn
      rw [h.1, List.head?_eq_getElem?]
      rfl
    | succ i => exact ih h.2 hn

namespace Builder

/-- How a span `t`, numbered `j`, lies to an earlier span `s`, numbered `i`. -/
inductive Placed (b : Builder) (i j : Nat) (s t : Span) : Prop
  | inside (hbelow : Below b.hung j i) (hopen : j ∈ b.stack → i ∈ b.stack)
      (hlast : ∀ u v, s.last = some u → t.last = some v → v ≤ u)
  | behind (hclosed : i ∉ b.stack) (hlast : ∀ u, s.last = some u → u < t.start)

structure Nested (b : Builder) (row : Nat) : Prop where
  stack_descends : b.stack.Pairwise (· > ·)
  stack_lt : ∀ n ∈ b.stack, n < b.spans.length
  hangs : Hangs b.hung b.stack
  parent_lt : ∀ n p, parentIn? b.hung n = some p → p < n
  ascends : (b.hung.map (·.start)).Pairwise (· ≤ ·)
  start_le : ∀ s ∈ b.hung, s.start ≤ row
  last_open : ∀ n s, b.hung[n]? = some s → n ∈ b.stack → s.last = none
  last_lt : ∀ s ∈ b.hung, ∀ u, s.last = some u → u < row
  placed : ∀ i j s t, i < j → b.hung[i]? = some s → b.hung[j]? = some t → b.Placed i j s t

theorem nested_empty (row : Nat) : empty.Nested row where
  stack_descends := .nil
  stack_lt _ h := by cases h
  hangs := trivial
  parent_lt _ _ h := by cases h
  ascends := .nil
  start_le _ h := by cases h
  last_open _ _ h := by cases h
  last_lt _ h := by cases h
  placed _ _ _ _ _ h := by cases h

variable {b : Builder} {row row' : Nat}

theorem Nested.mono (h : b.Nested row) (hle : row ≤ row') : b.Nested row' :=
  { h with
    start_le := fun s hs => Nat.le_trans (h.start_le s hs) hle
    last_lt := fun s hs u hu => Nat.lt_of_lt_of_le (h.last_lt s hs u hu) hle }

theorem Nested.nodup_stack (h : b.Nested row) : b.stack.Nodup :=
  h.stack_descends.imp fun hlt => Nat.ne_of_gt hlt

theorem Nested.start_le_start (h : b.Nested row) {i j : Nat} {s t : Span} (hij : i < j)
    (hs : b.hung[i]? = some s) (ht : b.hung[j]? = some t) : s.start ≤ t.start := by
  obtain ⟨hi, rfl⟩ := List.getElem?_eq_some_iff.1 hs
  obtain ⟨hj, rfl⟩ := List.getElem?_eq_some_iff.1 ht
  exact List.pairwise_iff_getElem.1 (List.pairwise_map.1 h.ascends) i j hi hj hij

/-! ## Opening a span -/

theorem getElem?_hung_push (h : b.Nested row) {labels : List String} {n : Nat} {s : Span}
    (hs : (b.push labels row').hung[n]? = some s) :
    (n < b.spans.length ∧ b.hung[n]? = some s) ∨
      n = b.spans.length ∧ s = ⟨labels.headD "", row', none, b.stack.head?, []⟩ := by
  rw [hung_push h.stack_lt] at hs
  rw [← length_hung]
  exact getElem?_concat_eq_some hs

theorem Nested.hangs_push (h : b.Nested row) (labels : List String) :
    Hangs (b.push labels row').hung (b.push labels row').stack := by
  have hlt : ∀ n ∈ b.stack, n < b.hung.length := fun n hn => by
    rw [length_hung]
    exact h.stack_lt n hn
  rw [hung_push h.stack_lt]
  refine ⟨?_, h.hangs.append hlt _⟩
  rw [parentIn?, ← length_hung, List.getElem?_concat_length]
  rfl

theorem Nested.push (h : b.Nested row) (hle : row ≤ row') (labels : List String) :
    (b.push labels row').Nested row' where
  stack_descends := List.pairwise_cons.2 ⟨fun n hn => h.stack_lt n hn, h.stack_descends⟩
  stack_lt n hn := by
    rw [Builder.push, List.length_append, List.length_singleton]
    rcases List.mem_cons.1 hn with rfl | hn
    · omega
    · have := h.stack_lt n hn
      omega
  hangs := h.hangs_push labels
  parent_lt n p hp := by
    obtain ⟨s, hs, hparent⟩ := Option.bind_eq_some_iff.1 hp
    rcases getElem?_hung_push h hs with ⟨_, hs⟩ | ⟨rfl, rfl⟩
    · exact h.parent_lt n p (Option.bind_eq_some_iff.2 ⟨s, hs, hparent⟩)
    · exact h.stack_lt p (List.mem_of_mem_head? hparent)
  ascends := by
    rw [hung_push h.stack_lt, List.map_append]
    refine List.pairwise_append.2 ⟨h.ascends, List.pairwise_singleton _ _, fun u hu v hv => ?_⟩
    obtain ⟨s, hs, rfl⟩ := List.mem_map.1 hu
    rw [List.mem_singleton.1 hv]
    exact Nat.le_trans (h.start_le s hs) hle
  start_le s hs := by
    rw [hung_push h.stack_lt] at hs
    rcases List.mem_append.1 hs with hs | hs
    · exact Nat.le_trans (h.start_le s hs) hle
    · exact Nat.le_of_eq (congrArg Span.start (List.mem_singleton.1 hs))
  last_open n s hs hn := by
    rcases getElem?_hung_push h hs with ⟨hlt, hs⟩ | ⟨_, rfl⟩
    · rcases List.mem_cons.1 hn with rfl | hn
      · exact absurd hlt (Nat.lt_irrefl _)
      · exact h.last_open n s hs hn
    · rfl
  last_lt s hs u hu := by
    rw [hung_push h.stack_lt] at hs
    rcases List.mem_append.1 hs with hs | hs
    · exact Nat.lt_of_lt_of_le (h.last_lt s hs u hu) hle
    · rw [List.mem_singleton.1 hs] at hu
      cases hu
  placed i j s t hij hs ht := by
    rcases getElem?_hung_push h ht with ⟨hj, ht⟩ | ⟨rfl, rfl⟩
    · rcases getElem?_hung_push h hs with ⟨hi, hs⟩ | ⟨rfl, _⟩
      · cases h.placed i j s t hij hs ht with
        | inside hbelow hopen hlast =>
          refine .inside ?_ (fun hmem => ?_) hlast
          · rw [hung_push h.stack_lt]
            exact hbelow.append _
          · rcases List.mem_cons.1 hmem with rfl | hmem
            · exact absurd hj (Nat.lt_irrefl _)
            · exact List.mem_cons_of_mem _ (hopen hmem)
        | behind hclosed hlast =>
          refine .behind (fun hmem => ?_) hlast
          rcases List.mem_cons.1 hmem with rfl | hmem
          · exact absurd hi (Nat.lt_irrefl _)
          · exact hclosed hmem
      · omega
    · rcases getElem?_hung_push h hs with ⟨hi, hs⟩ | ⟨rfl, _⟩
      · by_cases hopen : i ∈ b.stack
        · refine .inside ((h.hangs_push labels).below i hopen) (fun _ => ?_) (by simp)
          exact List.mem_cons_of_mem _ hopen
        · refine .behind (fun hmem => ?_) fun u hu => ?_
          · rcases List.mem_cons.1 hmem with rfl | hmem
            · exact absurd hi (Nat.lt_irrefl _)
            · exact hopen hmem
          · exact Nat.lt_of_lt_of_le (h.last_lt s (List.mem_of_getElem? hs) u hu) hle
      · exact absurd hij (Nat.lt_irrefl _)

/-! ## Closing a span -/

theorem getElem?_hung_pop {n : Nat} {stack : List Nat} (h : b.stack = n :: stack) {m : Nat}
    {s : Span} (hs : (b.pop row').hung[m]? = some s) :
    ∃ r, b.hung[m]? = some r ∧ s = if n = m then { r with last := rowBefore? row' } else r := by
  rw [hung_pop h, List.getElem?_modify] at hs
  obtain ⟨r, hr, rfl⟩ := Option.map_eq_some_iff.1 hs
  exact ⟨r, hr, rfl⟩

theorem parentIn?_hung_pop (b : Builder) (row : Nat) :
    parentIn? (b.pop row).hung = parentIn? b.hung := by
  funext m
  cases h : b.stack with
  | nil => rw [Builder.pop, h]
  | cons n stack =>
    rw [parentIn?, hung_pop h, List.getElem?_modify, parentIn?]
    cases b.hung[m]? with
    | none => rfl
    | some s =>
      by_cases hm : n = m
      · simp [hm]
      · simp [hm]

theorem map_start_hung_pop (b : Builder) (row : Nat) :
    (b.pop row).hung.map (·.start) = b.hung.map (·.start) := by
  refine List.ext_getElem? fun m => ?_
  cases h : b.stack with
  | nil => rw [Builder.pop, h]
  | cons n stack =>
    rw [hung_pop h, List.getElem?_map, List.getElem?_map, List.getElem?_modify]
    cases b.hung[m]? with
    | none => rfl
    | some s =>
      by_cases hm : n = m
      · simp [hm]
      · simp [hm]

theorem Nested.placed_pop (h : b.Nested row) (hle : row ≤ row') {n : Nat} {stack : List Nat}
    (hstack : b.stack = n :: stack) {i j : Nat} {s t : Span} (hij : i < j)
    (hs : (b.pop row').hung[i]? = some s) (ht : (b.pop row').hung[j]? = some t) :
    (b.pop row').Placed i j s t := by
  have hpop : (b.pop row').stack = stack := by rw [stack_pop, hstack]; rfl
  have hdescends := h.stack_descends
  have hopen_n : n ∈ b.stack := by rw [hstack]; exact List.mem_cons_self
  rw [hstack] at hdescends
  have hfirst := (List.pairwise_cons.1 hdescends).1
  have hmem : ∀ m, m ∈ stack → m ∈ b.stack := fun m hm => hstack ▸ List.mem_cons_of_mem _ hm
  obtain ⟨r, hr, rfl⟩ := getElem?_hung_pop hstack hs
  obtain ⟨q, hq, rfl⟩ := getElem?_hung_pop hstack ht
  cases h.placed i j r q hij hr hq with
  | inside hbelow hopen hlast =>
    refine .inside ?_ (fun hj => ?_) fun u v hu hv => ?_
    · rw [Below, parentIn?_hung_pop]
      exact hbelow
    · rw [hpop] at hj ⊢
      have hi := hopen (hmem j hj)
      rw [hstack] at hi
      rcases List.mem_cons.1 hi with rfl | hi
      · have := hfirst j hj
        omega
      · exact hi
    · by_cases hi : n = i
      · -- The earlier span ends now, and no end is later.
        have hj : n ≠ j := by omega
        rw [if_pos hi, rowBefore?_eq_some] at hu
        rw [if_neg hj] at hv
        have := h.last_lt q (List.mem_of_getElem? hq) v hv
        omega
      · rw [if_neg hi] at hu
        by_cases hj : n = j
        · -- The later span ends now, so both were open.
          rw [h.last_open i r hr (hopen (hj ▸ hopen_n))] at hu
          cases hu
        · rw [if_neg hj] at hv
          exact hlast u v hu hv
  | behind hclosed hlast =>
    have hi : n ≠ i := fun heq => hclosed (heq ▸ hopen_n)
    refine .behind (fun hmem' => hclosed (hmem i (hpop ▸ hmem'))) fun u hu => ?_
    rw [if_neg hi] at hu
    rw [show (if n = j then { q with last := rowBefore? row' } else q).start = q.start by
      split <;> rfl]
    exact hlast u hu

theorem Nested.pop (h : b.Nested row) (hle : row ≤ row') : (b.pop row').Nested row' := by
  cases hstack : b.stack with
  | nil =>
    rw [Builder.pop, hstack]
    exact h.mono hle
  | cons n stack =>
    have hpop : (b.pop row').stack = stack := by rw [stack_pop, hstack]; rfl
    have hmem : ∀ m, m ∈ stack → m ∈ b.stack := fun m hm => hstack ▸ List.mem_cons_of_mem _ hm
    obtain ⟨hfirst, hdescends⟩ := List.pairwise_cons.1 (hstack ▸ h.stack_descends)
    refine
      { stack_descends := hpop ▸ hdescends
        stack_lt := fun m hm => length_spans_pop b row' ▸ h.stack_lt m (hmem m (hpop ▸ hm))
        hangs := ?_
        parent_lt := fun m p hp => h.parent_lt m p (parentIn?_hung_pop b row' ▸ hp)
        ascends := map_start_hung_pop b row' ▸ h.ascends
        start_le := fun s hs => ?_
        last_open := fun m s hs hm => ?_
        last_lt := fun s hs u hu => ?_
        placed := fun i j s t hij hs ht => h.placed_pop hle hstack hij hs ht }
    · rw [hpop]
      exact (hstack ▸ h.hangs).2.congr (parentIn?_hung_pop b row')
    · have hstart : s.start ∈ (b.pop row').hung.map (·.start) := List.mem_map_of_mem hs
      rw [map_start_hung_pop] at hstart
      obtain ⟨r, hr, hrs⟩ := List.mem_map.1 hstart
      rw [← hrs]
      exact Nat.le_trans (h.start_le r hr) hle
    · obtain ⟨r, hr, rfl⟩ := getElem?_hung_pop hstack hs
      rw [hpop] at hm
      have hne : n ≠ m := fun heq => absurd (hfirst m hm) (by omega)
      rw [if_neg hne]
      exact h.last_open m r hr (hmem m hm)
    · obtain ⟨m, hm⟩ := List.mem_iff_getElem?.1 hs
      obtain ⟨r, hr, rfl⟩ := getElem?_hung_pop hstack hm
      split at hu
      · rw [rowBefore?_eq_some] at hu
        omega
      · exact Nat.lt_of_lt_of_le (h.last_lt r (List.mem_of_getElem? hr) u hu) hle

theorem Nested.iterate_pop (h : b.Nested row) (hle : row ≤ row') (k : Nat) :
    ((Builder.pop row')^[k] b).Nested row' :=
  iterate_pop_induction (P := fun b => b.Nested row') (fun _ h => h.pop (Nat.le_refl row'))
    (h.mono hle) k

/-- Every action at the row or later keeps the spans nested. -/
theorem Nested.act {a : Action} (h : b.Nested row) (hle : row ≤ a.row) :
    (b.act a).Nested a.row := by
  rcases act_cases b a with ⟨k, heq⟩ | ⟨labels, heq⟩
  · rw [heq]
    exact h.iterate_pop hle k
  · rw [heq]
    exact h.push hle labels

theorem nested_ofActions {actions : List Action} (h : actions.Pairwise fun a b => a.row ≤ b.row)
    (hrow : ∀ a ∈ actions, a.row ≤ row) : (ofActions actions).Nested row := by
  induction actions using List.reverseRecOn generalizing row with
  | nil => exact nested_empty row
  | append_singleton actions a ih =>
    obtain ⟨hfront, _, hlast⟩ := List.pairwise_append.1 h
    have hnested := ih hfront fun b hb => hlast b hb a List.mem_cons_self
    rw [ofActions_concat]
    exact (hnested.act (Nat.le_refl _)).mono (hrow a (by simp))

theorem exists_nested_ofActions {actions : List Action}
    (h : actions.Pairwise fun a b => a.row ≤ b.row) : ∃ row, (ofActions actions).Nested row := by
  rcases List.eq_nil_or_concat actions with rfl | ⟨front, a, rfl⟩
  · exact ⟨0, nested_empty 0⟩
  · rw [List.concat_eq_append] at h ⊢
    refine ⟨a.row, nested_ofActions h fun c hc => ?_⟩
    rcases List.mem_append.1 hc with hc | hc
    · exact (List.pairwise_append.1 h).2.2 c hc a List.mem_cons_self
    · exact Nat.le_of_eq (congrArg Action.row (List.mem_singleton.1 hc))

end Builder

end TraceExplorer.Span
