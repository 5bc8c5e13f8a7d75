import TraceExplorer.Span.Builder
import Mathlib.Logic.Function.Iterate

/-
  The moves of a builder. To close spans is to close the innermost one, a number of times, and
  to open a span is `push`; every action is one or the other (`act_cases`). `hung` shows the
  spans with the parents that they have if no more of them are closed: closing one ends it
  (`hung_pop`), opening one adds it (`hung_push`), and nothing else changes.
-/

namespace TraceExplorer.Span.Builder

/-! ## Moves -/

/-- The row before `row`. -/
def rowBefore? (row : Nat) : Option Nat := if row = 0 then none else some (row - 1)

theorem rowBefore?_eq_none {row : Nat} : rowBefore? row = none ↔ row = 0 := by
  unfold rowBefore?
  by_cases h : row = 0 <;> simp [h]

theorem rowBefore?_eq_some {row last : Nat} : rowBefore? row = some last ↔ row = last + 1 := by
  unfold rowBefore?
  by_cases h : row = 0
  · simp [h]
  · simp only [h, if_false, Option.some.injEq]
    omega

/-- Closes the innermost open span before `row`. -/
def pop (row : Nat) (b : Builder) : Builder :=
  match b.stack with
  | [] => b
  | n :: stack => closeAt ⟨b.spans, stack⟩ n row

theorem stack_pop (b : Builder) (row : Nat) : (b.pop row).stack = b.stack.tail := by
  unfold pop
  cases h : b.stack with
  | nil => exact h
  | cons n stack => rfl

theorem length_spans_pop (b : Builder) (row : Nat) :
    (b.pop row).spans.length = b.spans.length := by
  unfold pop
  split
  · rfl
  · exact List.length_modify _ _ _

theorem closeStack_eq (row : Nat) (labels : List String) (spans : List Span) (stack : List Nat) :
    (closeStack row labels spans stack).1 =
      (pop row)^[(closeStack row labels spans stack).2] ⟨spans, stack⟩ := by
  induction stack generalizing labels spans with
  | nil => rfl
  | cons n stack ih =>
    unfold closeStack
    cases use? (label ⟨spans, []⟩ n) labels with
    | none => rfl
    | some rest => exact ih rest (closeAt ⟨spans, stack⟩ n row).spans

/-- A close closes as many spans as it counts. -/
theorem close_eq (b : Builder) (labels : List String) (row : Nat) :
    (b.close labels row).1 = (pop row)^[(b.close labels row).2] b :=
  closeStack_eq row labels b.spans b.stack

theorem closeAllStack_eq (row : Nat) (spans : List Span) (stack : List Nat) :
    (⟨closeAllStack row spans stack, []⟩ : Builder) = (pop row)^[stack.length] ⟨spans, stack⟩ := by
  induction stack generalizing spans with
  | nil => rfl
  | cons n stack ih => exact ih (closeAt ⟨spans, stack⟩ n row).spans

theorem closeAll_eq (b : Builder) (row : Nat) : b.closeAll row = (pop row)^[b.stack.length] b :=
  closeAllStack_eq row b.spans b.stack

theorem enter_eq (b : Builder) (labels : List String) (row : Nat) :
    (b.enter labels row).1 = b ∨ (b.enter labels row).1 = b.push labels row := by
  unfold enter
  split
  · split
    · exact .inl rfl
    · exact .inr rfl
  · exact .inr rfl

/-! ## Actions -/

/-- What an operation about to land on a row asks of a builder. -/
inductive Action where
  | enter (labels : List String) (row : Nat)
  | close (labels : List String) (row : Nat)
  | closeAll (row : Nat)

def Action.row : Action → Nat
  | .enter _ row => row
  | .close _ row => row
  | .closeAll row => row

def act (b : Builder) : Action → Builder
  | .enter labels row => (b.enter labels row).1
  | .close labels row => (b.close labels row).1
  | .closeAll row => b.closeAll row

/-- An action closes some of the innermost spans, maybe none, or opens one. -/
theorem act_cases (b : Builder) (a : Action) :
    (∃ k, b.act a = (pop a.row)^[k] b) ∨ ∃ labels, b.act a = b.push labels a.row := by
  cases a with
  | enter labels row => exact (enter_eq b labels row).imp (fun h => ⟨0, h⟩) fun h => ⟨labels, h⟩
  | close labels row => exact .inl ⟨_, close_eq b labels row⟩
  | closeAll row => exact .inl ⟨_, closeAll_eq b row⟩

theorem iterate_pop_induction {P : Builder → Prop} {row : Nat} (hpop : ∀ b, P b → P (b.pop row))
    {b : Builder} (h : P b) (k : Nat) : P ((pop row)^[k] b) := by
  induction k with
  | zero => exact h
  | succ k ih =>
    rw [Function.iterate_succ_apply']
    exact hpop _ ih

/-- The builder after a list of actions. -/
def ofActions (actions : List Action) : Builder := actions.foldl act empty

theorem ofActions_append (actions more : List Action) :
    ofActions (actions ++ more) = more.foldl act (ofActions actions) :=
  List.foldl_append

theorem ofActions_concat (actions : List Action) (a : Action) :
    ofActions (actions ++ [a]) = (ofActions actions).act a :=
  ofActions_append actions [a]

/-! ## Spans with their parents -/

/-- The spans, each open one with the one beneath it as its parent. -/
def hung (b : Builder) : List Span := hang b.spans b.stack

theorem length_hang (spans : List Span) (stack : List Nat) :
    (hang spans stack).length = spans.length := by
  induction stack generalizing spans with
  | nil => rfl
  | cons n stack ih => rw [hang, ih, List.length_modify]

theorem length_hung (b : Builder) : b.hung.length = b.spans.length := length_hang _ _

theorem modify_append {α : Type} {l : List α} {n : Nat} (h : n < l.length) (f : α → α)
    (r : List α) : (l ++ r).modify n f = l.modify n f ++ r := by
  induction l generalizing n with
  | nil => cases h
  | cons a l ih =>
    cases n with
    | zero => rfl
    | succ n => exact congrArg (a :: ·) (ih (Nat.lt_of_succ_lt_succ h))

theorem modify_concat {α : Type} (l : List α) (a : α) (f : α → α) :
    (l ++ [a]).modify l.length f = l ++ [f a] := by
  induction l with
  | nil => rfl
  | cons b l ih => exact congrArg (b :: ·) ih

theorem getElem?_concat_eq_some {α : Type} {l : List α} {a c : α} {n : Nat}
    (h : (l ++ [a])[n]? = some c) : n < l.length ∧ l[n]? = some c ∨ n = l.length ∧ c = a := by
  rcases Nat.lt_or_ge n l.length with hn | hn
  · rw [List.getElem?_append_left hn] at h
    exact .inl ⟨hn, h⟩
  · obtain ⟨hlt, hget⟩ := List.getElem?_eq_some_iff.1 h
    rw [List.length_append, List.length_singleton] at hlt
    obtain rfl : n = l.length := by omega
    rw [List.getElem_concat_length rfl] at hget
    exact .inr ⟨rfl, hget.symm⟩

theorem hang_append {spans : List Span} {stack : List Nat} (h : ∀ n ∈ stack, n < spans.length)
    (more : List Span) : hang (spans ++ more) stack = hang spans stack ++ more := by
  induction stack generalizing spans with
  | nil => rfl
  | cons n stack ih =>
    rw [hang, hang, modify_append (h n List.mem_cons_self)]
    refine ih fun m hm => ?_
    rw [List.length_modify]
    exact h m (List.mem_cons_of_mem _ hm)

/-- The end of a span may be set before or after the parents are. -/
theorem hang_setLast (spans : List Span) (stack : List Nat) (n : Nat) (last : Option Nat) :
    hang (spans.modify n fun s => { s with last }) stack =
      (hang spans stack).modify n fun s => { s with last } := by
  induction stack generalizing spans with
  | nil => rfl
  | cons m stack ih =>
    rw [hang, hang, ← ih]
    congr 1
    by_cases h : n = m
    · rw [h, List.modify_modify_eq, List.modify_modify_eq]
      rfl
    · rw [List.modify_modify_ne _ _ _ h]

theorem hung_push {b : Builder} (h : ∀ n ∈ b.stack, n < b.spans.length) (labels : List String)
    (row : Nat) :
    (b.push labels row).hung = b.hung ++ [⟨labels.headD "", row, none, b.stack.head?, []⟩] := by
  unfold hung push
  rw [hang, modify_concat, hang_append h]

theorem hung_pop {b : Builder} {n : Nat} {stack : List Nat} (h : b.stack = n :: stack)
    (row : Nat) :
    (b.pop row).hung = b.hung.modify n fun s => { s with last := rowBefore? row } := by
  unfold hung pop
  simp only [h, closeAt, hang]
  rw [← hang_setLast, List.modify_modify_eq]
  rfl

end TraceExplorer.Span.Builder
