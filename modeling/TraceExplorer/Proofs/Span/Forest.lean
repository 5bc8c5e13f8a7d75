import TraceExplorer.Proofs.Span.History

/-
  The forest that a builder finishes. Its spans are those of `hung` with their children
  (`span?_finish`), each listed once, with its parent or among the roots, by ascending start
  (`mem_childrenOf`, `childrenOf_ascends`), and they nest as those of the builder do
  (`Nested.wellNested_finish`). So the forest records what the actions did, if their rows do not
  descend (`records_finish`).
-/

namespace TraceExplorer.Span

/-! ## Children -/

namespace Builder

theorem mem_childrenOf {spans : List Span} {parent : Option Nat} {n : Nat} :
    n ∈ childrenOf spans parent ↔ ∃ s, spans[n]? = some s ∧ s.parent = parent := by
  unfold childrenOf
  simp only [List.mem_map, List.mem_mergeSort, List.mem_filter, beq_iff_eq]
  constructor
  · rintro ⟨e, ⟨hmem, hparent⟩, rfl⟩
    exact ⟨e.1, List.mem_zipIdx_iff_getElem?.1 hmem, hparent⟩
  · rintro ⟨s, hs, hparent⟩
    exact ⟨(s, n), ⟨List.mem_zipIdx_iff_getElem?.2 hs, hparent⟩, rfl⟩

theorem nodup_childrenOf (spans : List Span) (parent : Option Nat) :
    (childrenOf spans parent).Nodup := by
  have hnodup : (spans.zipIdx.map Prod.snd).Nodup := by
    rw [List.zipIdx_map_snd]
    exact List.nodup_range'
  refine ((List.mergeSort_perm _ _).map _).nodup_iff.2 ?_
  exact hnodup.sublist (List.filter_sublist.map _)

theorem childrenOf_ascends (spans : List Span) (parent : Option Nat) :
    (childrenOf spans parent).Pairwise fun a b =>
      ∀ s t, spans[a]? = some s → spans[b]? = some t → s.start ≤ t.start := by
  have hsorted : ((spans.zipIdx.filter (·.1.parent == parent)).mergeSort
      fun a b => a.1.start ≤ b.1.start).Pairwise fun a b => a.1.start ≤ b.1.start := by
    refine (List.pairwise_mergeSort (fun a b c hab hbc => ?_) (fun a b => ?_) _).imp
      of_decide_eq_true
    · rw [decide_eq_true_iff] at *
      exact Nat.le_trans hab hbc
    · rw [Bool.or_eq_true, decide_eq_true_iff, decide_eq_true_iff]
      exact Nat.le_total _ _
  unfold childrenOf
  refine List.pairwise_map.2 (hsorted.imp_of_mem fun {a b} ha hb hle s t hs ht => ?_)
  have ha := List.mem_zipIdx_iff_getElem?.1 (List.mem_filter.1 (List.mem_mergeSort.1 ha)).1
  have hb := List.mem_zipIdx_iff_getElem?.1 (List.mem_filter.1 (List.mem_mergeSort.1 hb)).1
  rw [Option.some.inj (hs.symm.trans ha), Option.some.inj (ht.symm.trans hb)]
  exact hle

end Builder

namespace Forest

/-- The spans that the forest lists below a parent, or among the roots. -/
def listed (f : Forest) : Option Nat → List Nat
  | none => f.roots
  | some p => (f.span? p).elim [] (·.children)

/-- The spans nest like brackets. -/
structure WellNested (f : Forest) : Prop where
  ascends : (f.spans.map (·.start)).Pairwise (· ≤ ·)
  parent_lt : ∀ n s p, f.span? n = some s → s.parent = some p → p < n
  /-- Each span is listed once, with its parent or among the roots. -/
  mem_listed : ∀ parent n, n ∈ f.listed parent ↔ ∃ s, f.span? n = some s ∧ s.parent = parent
  nodup_listed : ∀ parent, (f.listed parent).Nodup
  listed_ascends : ∀ parent, (f.listed parent).Pairwise fun a b =>
    ∀ s t, f.span? a = some s → f.span? b = some t → s.start ≤ t.start
  /-- Of two spans that are not broken, the later lies below the earlier and within its rows, or
      behind its rows. -/
  below_or_behind : ∀ i j s t, i < j → f.span? i = some s → f.span? j = some t →
    s.isBroken = false → t.isBroken = false → ∃ u v, s.last = some u ∧ t.last = some v ∧
      ((Below f.spans j i ∧ s.start ≤ t.start ∧ t.start ≤ v ∧ v ≤ u) ∨ u < t.start)

end Forest

/-! ## The finished forest -/

theorem exists_last_of_not_broken {s : Span} (h : s.isBroken = false) :
    ∃ u, s.last = some u ∧ s.start ≤ u := by
  unfold isBroken at h
  split at h
  · rename_i u hu
    exact ⟨u, hu, Nat.le_of_not_lt (of_decide_eq_false h)⟩
  · cases h

namespace Builder

variable {b : Builder} {row : Nat}

theorem span?_finish (b : Builder) (n : Nat) : b.finish.span? n =
    b.hung[n]?.map fun s => { s with children := childrenOf b.hung (some n) } := by
  show (b.hung.zipIdx.map fun e =>
    { e.1 with children := childrenOf b.hung (some e.2) })[n]? = _
  rw [List.getElem?_map, List.getElem?_zipIdx, Option.map_map, Nat.zero_add]
  rfl

/-- A span of the forest is the one of the builder, its children aside. -/
theorem exists_of_span?_finish {n : Nat} {t : Span} (h : b.finish.span? n = some t) :
    ∃ s, b.hung[n]? = some s ∧ t.start = s.start ∧ t.last = s.last ∧ t.parent = s.parent := by
  rw [span?_finish] at h
  obtain ⟨s, hs, rfl⟩ := Option.map_eq_some_iff.1 h
  exact ⟨s, hs, rfl, rfl, rfl⟩

theorem exists_span?_finish {n : Nat} {s : Span} (h : b.hung[n]? = some s) :
    ∃ t, b.finish.span? n = some t ∧ t.start = s.start ∧ t.last = s.last ∧
      t.parent = s.parent := by
  rw [span?_finish, h]
  exact ⟨_, rfl, rfl, rfl, rfl⟩

theorem parentIn?_finish (b : Builder) : parentIn? b.finish.spans = parentIn? b.hung := by
  funext n
  rw [parentIn?, show b.finish.spans[n]? = b.finish.span? n from rfl, span?_finish, parentIn?]
  cases b.hung[n]? <;> rfl

theorem map_start_finish (b : Builder) :
    b.finish.spans.map (·.start) = b.hung.map (·.start) := by
  refine List.ext_getElem? fun n => ?_
  rw [List.getElem?_map, List.getElem?_map,
    show b.finish.spans[n]? = b.finish.span? n from rfl, span?_finish, Option.map_map]
  rfl

theorem Nested.listed_finish (h : b.Nested row) (parent : Option Nat) :
    b.finish.listed parent = childrenOf b.hung parent := by
  cases parent with
  | none => rfl
  | some p =>
    rw [Forest.listed, span?_finish]
    cases hp : b.hung[p]? with
    | some s => rfl
    | none =>
      refine (List.eq_nil_iff_forall_not_mem.2 fun n hn => ?_).symm
      obtain ⟨s, hs, hparent⟩ := mem_childrenOf.1 hn
      have hlt := h.parent_lt n p (Option.bind_eq_some_iff.2 ⟨s, hs, hparent⟩)
      have := (List.getElem?_eq_some_iff.1 hs).1
      have := List.getElem?_eq_none_iff.1 hp
      omega

theorem Nested.wellNested_finish (h : b.Nested row) : b.finish.WellNested where
  ascends := map_start_finish b ▸ h.ascends
  parent_lt n t p ht hparent := by
    obtain ⟨s, hs, _, _, heq⟩ := exists_of_span?_finish ht
    exact h.parent_lt n p (Option.bind_eq_some_iff.2 ⟨s, hs, heq ▸ hparent⟩)
  mem_listed parent n := by
    rw [h.listed_finish, mem_childrenOf]
    constructor
    · rintro ⟨s, hs, hparent⟩
      obtain ⟨t, ht, _, _, heq⟩ := exists_span?_finish hs
      exact ⟨t, ht, heq.trans hparent⟩
    · rintro ⟨t, ht, hparent⟩
      obtain ⟨s, hs, _, _, heq⟩ := exists_of_span?_finish ht
      exact ⟨s, hs, heq.symm.trans hparent⟩
  nodup_listed parent := h.listed_finish parent ▸ nodup_childrenOf b.hung parent
  listed_ascends parent := by
    rw [h.listed_finish]
    refine (childrenOf_ascends b.hung parent).imp fun hle u v hu hv => ?_
    obtain ⟨s, hs, hstart, _⟩ := exists_of_span?_finish hu
    obtain ⟨t, ht, hstart', _⟩ := exists_of_span?_finish hv
    rw [hstart, hstart']
    exact hle s t hs ht
  below_or_behind i j s' t' hij hs' ht' hsbroken htbroken := by
    obtain ⟨u, hu, _⟩ := exists_last_of_not_broken hsbroken
    obtain ⟨v, hv, hle⟩ := exists_last_of_not_broken htbroken
    obtain ⟨s, hs, hstart, hlast, _⟩ := exists_of_span?_finish hs'
    obtain ⟨t, ht, hstart', hlast', _⟩ := exists_of_span?_finish ht'
    refine ⟨u, v, hu, hv, ?_⟩
    cases h.placed i j s t hij hs ht with
    | inside hbelow _ hends =>
      refine .inl ⟨?_, ?_, hle, hends u v (hlast ▸ hu) (hlast' ▸ hv)⟩
      · rw [Below, parentIn?_finish]
        exact hbelow
      · rw [hstart, hstart']
        exact h.start_le_start hij hs ht
    | behind _ hends => exact .inr (hstart' ▸ hends u (hlast ▸ hu))

/-- What the actions did stands in the forest. -/
structure Records (actions : List Action) (f : Forest) : Prop where
  nested : f.WellNested
  /-- A span starts on the row of the action that opened it. -/
  start : ∀ n row, OpensAt actions n row ↔ ∃ s, f.span? n = some s ∧ s.start = row
  /-- The spans still open hang one off the other, as on the stack. -/
  hangs : ∀ i n, (ofActions actions).stack[i]? = some n →
    ∃ s, f.span? n = some s ∧ s.parent = (ofActions actions).stack[i + 1]?
  /-- A span without an end is still open, or was closed on the first row. -/
  last_none : ∀ n s, f.span? n = some s →
    (s.last = none ↔ n ∈ (ofActions actions).stack ∨ ClosesAt actions n 0)
  last_some : ∀ n s u, f.span? n = some s → (s.last = some u ↔ ClosesAt actions n (u + 1))

theorem Nested.hangs_finish (h : b.Nested row) {i n : Nat} (hn : b.stack[i]? = some n) :
    ∃ s, b.finish.span? n = some s ∧ s.parent = b.stack[i + 1]? := by
  have hlt := h.stack_lt n (List.mem_of_getElem? hn)
  rw [← length_hung] at hlt
  have hs := List.getElem?_eq_getElem hlt
  have hparent := h.hangs.getElem hn
  rw [parentIn?, hs] at hparent
  obtain ⟨t, ht, _, _, heq⟩ := exists_span?_finish hs
  exact ⟨t, ht, heq.trans hparent⟩

theorem Story.start_iff {actions : List Action} {n row : Nat} {s : Span}
    (h : Story actions n (some s)) : OpensAt actions n row ↔ s.start = row := by
  cases h with
  | stays _ hopens => exact hopens row
  | closed _ hopens => exact hopens row

theorem Story.last_none_iff {actions : List Action} {n : Nat} {s : Span}
    (h : Story actions n (some s)) :
    s.last = none ↔ n ∈ (ofActions actions).stack ∨ ClosesAt actions n 0 := by
  cases h with
  | stays hstack _ _ hlast => simp [hstack, hlast]
  | closed hstack _ hcloses hlast => simp [hstack, hlast, hcloses, rowBefore?_eq_none]

theorem Story.last_some_iff {actions : List Action} {n u : Nat} {s : Span}
    (h : Story actions n (some s)) : s.last = some u ↔ ClosesAt actions n (u + 1) := by
  cases h with
  | stays _ _ hcloses hlast => simp [hlast, hcloses]
  | closed _ _ hcloses hlast => rw [hlast, hcloses, rowBefore?_eq_some]

/-- Actions whose rows do not descend make a forest of nested spans that records them. -/
theorem records_finish (actions : List Action) (h : actions.Pairwise fun a b => a.row ≤ b.row) :
    Records actions (ofActions actions).finish := by
  obtain ⟨row, hnested⟩ := exists_nested_ofActions h
  refine
    { nested := hnested.wellNested_finish
      start := fun n row => ⟨fun hopens => ?_, ?_⟩
      hangs := fun i n hn => hnested.hangs_finish hn
      last_none := fun n t ht => ?_
      last_some := fun n t u ht => ?_ }
  · have hstory := story_ofActions h n
    cases hs : (ofActions actions).hung[n]? with
    | none =>
      rw [hs] at hstory
      cases hstory with
      | absent _ hopens' => exact absurd hopens (hopens' row)
    | some s =>
      rw [hs] at hstory
      obtain ⟨t, ht, hstart, _⟩ := exists_span?_finish hs
      exact ⟨t, ht, hstart.trans (hstory.start_iff.1 hopens)⟩
  · rintro ⟨t, ht, hstart⟩
    obtain ⟨s, hs, heq, _⟩ := exists_of_span?_finish ht
    have hstory := story_ofActions h n
    rw [hs] at hstory
    exact hstory.start_iff.2 (heq.symm.trans hstart)
  · obtain ⟨s, hs, _, heq, _⟩ := exists_of_span?_finish ht
    have hstory := story_ofActions h n
    rw [hs] at hstory
    rw [heq]
    exact hstory.last_none_iff
  · obtain ⟨s, hs, _, heq, _⟩ := exists_of_span?_finish ht
    have hstory := story_ofActions h n
    rw [hs] at hstory
    rw [heq]
    exact hstory.last_some_iff

/-- A span closed on the first row, one that closes with the one around it, an opening refused, a
    span closed on its own row, and one that stays open. -/
def unevenActions : List Action :=
  [.enter ["start"] 0, .closeAll 0, .enter ["loop"] 0, .enter ["body", "loop"] 1,
    .enter ["body"] 2, .close ["main.body", "loop"] 4, .enter ["late"] 4, .closeAll 4,
    .enter ["rest"] 5]

theorem records_finish_unevenActions : (unevenActions.Pairwise fun a b => a.row ≤ b.row) ∧
    Records unevenActions (ofActions unevenActions).finish :=
  ⟨by decide, records_finish unevenActions (by decide)⟩

end Builder

end TraceExplorer.Span
