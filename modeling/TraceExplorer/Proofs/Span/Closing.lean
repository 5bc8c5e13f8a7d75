import TraceExplorer.Proofs.Span.Builder

/-
  The labels of a close in another order. A label can name open spans that have different labels,
  and a close takes the first label that names the innermost one; so its order decides which
  labels are left for the spans beneath. `Uses` says how many spans labels can close when any
  label that fits may be taken: these numbers are those that the orders of the labels give
  (`exists_order_iff`). The order means nothing if two labels that name one open span name the
  same of those beneath it (`Uses.unique`), and it can mean something if they do not
  (`not_unordered_nestedActions`).
-/

namespace TraceExplorer.Span.Builder

variable {labels labels' rest : List String} {f : String} {spans : List String} {k k' : Nat}

/-! ## What a close counts -/

theorem use?_eq_none : use? f labels = none ↔ ∀ l ∈ labels, names l f = false := by
  induction labels with
  | nil => simp [use?]
  | cons l labels ih =>
    rw [use?, List.forall_mem_cons]
    cases hl : names l f with
    | true => simp
    | false => simp [ih]

theorem use?_eq_some (h : use? f labels = some rest) :
    ∃ l, names l f = true ∧ labels.Perm (l :: rest) := by
  induction labels generalizing rest with
  | nil => cases h
  | cons l labels ih =>
    rw [use?] at h
    split at h
    · rename_i hl
      obtain rfl := Option.some.inj h
      exact ⟨l, hl, .refl _⟩
    · obtain ⟨kept, hkept, rfl⟩ := Option.map_eq_some_iff.1 h
      obtain ⟨used, hused, hperm⟩ := ih hkept
      exact ⟨used, hused, (hperm.cons l).trans (.swap used l kept)⟩

/-- How many spans are closed, by their labels from the innermost on. -/
def countClosed (labels : List String) : List String → Nat
  | [] => 0
  | f :: spans =>
    match use? f labels with
    | none => 0
    | some rest => countClosed rest spans + 1

theorem label_closeAt (b : Builder) (n row m : Nat) : (b.closeAt n row).label m = b.label m := by
  unfold closeAt label
  rw [List.getElem?_modify]
  by_cases h : n = m
  · simp only [h, if_true]
    cases b.spans[m]? <;> rfl
  · simp [h]

theorem countClosed_closeStack (row : Nat) (labels : List String) (spans : List Span)
    (stack : List Nat) : (closeStack row labels spans stack).2 =
      countClosed labels (stack.map (label ⟨spans, []⟩)) := by
  induction stack generalizing labels spans with
  | nil => rfl
  | cons n stack ih =>
    rw [closeStack, List.map_cons, countClosed]
    cases use? (label ⟨spans, []⟩ n) labels with
    | none => rfl
    | some rest =>
      have hlabel : label ⟨(closeAt ⟨spans, stack⟩ n row).spans, []⟩ = label ⟨spans, []⟩ :=
        funext fun m => label_closeAt ⟨spans, stack⟩ n row m
      simp only [ih, hlabel]

/-- The labels of the open spans, the innermost first. -/
def openLabels (b : Builder) : List String := b.stack.map b.label

theorem close_snd (b : Builder) (labels : List String) (row : Nat) :
    (b.close labels row).2 = countClosed labels b.openLabels :=
  countClosed_closeStack row labels b.spans b.stack

/-- A close does to a builder what it counts. -/
theorem close_eq_close_iff (b : Builder) (row : Nat) : b.close labels row = b.close labels' row ↔
    countClosed labels b.openLabels = countClosed labels' b.openLabels := by
  rw [← close_snd b labels row, ← close_snd b labels' row]
  refine ⟨congrArg Prod.snd, fun h => Prod.ext ?_ h⟩
  rw [close_eq, close_eq, h]

/-! ## Any label that fits -/

/-- `labels` can close the first `k` spans and no more then, each with a label of its own. -/
inductive Uses : List String → List String → Nat → Prop where
  | all (labels : List String) : Uses labels [] 0
  | stop {labels spans : List String} {f : String} (h : ∀ l ∈ labels, names l f = false) :
      Uses labels (f :: spans) 0
  | use {labels rest spans : List String} {l f : String} {k : Nat} (hl : names l f = true)
      (hperm : labels.Perm (l :: rest)) (h : Uses rest spans k) : Uses labels (f :: spans) (k + 1)

theorem Uses.perm (h : Uses labels spans k) (hperm : labels.Perm labels') :
    Uses labels' spans k := by
  cases h with
  | all => exact .all _
  | stop h => exact .stop fun l hl => h l (hperm.mem_iff.2 hl)
  | use hl hrest h => exact .use hl (hperm.symm.trans hrest) h

theorem uses_countClosed (labels spans : List String) :
    Uses labels spans (countClosed labels spans) := by
  induction spans generalizing labels with
  | nil => exact .all _
  | cons f spans ih =>
    rw [countClosed]
    cases h : use? f labels with
    | none => exact .stop (use?_eq_none.1 h)
    | some rest =>
      obtain ⟨l, hl, hperm⟩ := use?_eq_some h
      exact .use hl hperm (ih rest)

/-- The labels that are taken stand first, in the order in which they are. -/
theorem Uses.exists_order (h : Uses labels spans k) :
    ∃ labels', labels'.Perm labels ∧ countClosed labels' spans = k := by
  induction h with
  | all labels => exact ⟨labels, .refl _, rfl⟩
  | stop h => exact ⟨_, .refl _, by rw [countClosed, use?_eq_none.2 h]⟩
  | @use labels rest spans l f k hl hperm _ ih =>
    obtain ⟨order, horder, hcount⟩ := ih
    refine ⟨l :: order, (horder.cons l).trans hperm.symm, ?_⟩
    rw [countClosed, use?, if_pos hl]
    exact congrArg (· + 1) hcount

theorem exists_order_iff :
    (∃ labels', labels'.Perm labels ∧ countClosed labels' spans = k) ↔ Uses labels spans k := by
  constructor
  · rintro ⟨order, hperm, rfl⟩
    exact (uses_countClosed order spans).perm hperm
  · exact Uses.exists_order

/-! ## Labels that may change places -/

/-- Which of the spans a label names. -/
def named (spans : List String) (l : String) : List Bool := spans.map (names l)

/-- Two of the labels that name one span name the same of the spans beneath it. -/
def Interchangeable (labels spans : List String) : Prop :=
  spans.Pairwise fun f g => ∀ l ∈ labels, ∀ l' ∈ labels,
    names l f = true → names l' f = true → names l g = names l' g

theorem exists_names (h : (labels.map (named (f :: spans))).Perm (labels'.map (named (f :: spans))))
    {l : String} (hl : l ∈ labels) (hf : names l f = true) : ∃ l' ∈ labels', names l' f = true := by
  obtain ⟨l', hl', heq⟩ := List.mem_map.1 (h.mem_iff.1 (List.mem_map_of_mem hl))
  refine ⟨l', hl', ?_⟩
  rw [(List.cons.inj heq).1]
  exact hf

/-- Labels that name the same spans, and may change places, close equally many. -/
theorem Uses.unique {all : List String} (h : Uses labels spans k) (h' : Uses labels' spans k')
    (hall : Interchangeable all spans) (hsub : labels ⊆ all) (hsub' : labels' ⊆ all)
    (hnamed : (labels.map (named spans)).Perm (labels'.map (named spans))) : k = k' := by
  induction h generalizing labels' k' with
  | all => cases h' with
    | all => rfl
  | stop hnone => cases h' with
    | stop => rfl
    | use hl' hperm' _ =>
      obtain ⟨l, hl, hf⟩ :=
        exists_names hnamed.symm (hperm'.mem_iff.2 List.mem_cons_self) hl'
      rw [hnone l hl] at hf
      cases hf
  | @use labels rest spans l f k hl hperm _ ih => cases h' with
    | stop hnone =>
      obtain ⟨l', hl', hf⟩ := exists_names hnamed (hperm.mem_iff.2 List.mem_cons_self) hl
      rw [hnone l' hl'] at hf
      cases hf
    | @use _ rest' _ l' _ k' hl' hperm' h' =>
      have hmem : l ∈ all := hsub (hperm.mem_iff.2 List.mem_cons_self)
      have hmem' : l' ∈ all := hsub' (hperm'.mem_iff.2 List.mem_cons_self)
      have hrest : rest ⊆ all := fun _ hx => hsub (hperm.mem_iff.2 (List.mem_cons_of_mem _ hx))
      have hrest' : rest' ⊆ all :=
        fun _ hx => hsub' (hperm'.mem_iff.2 (List.mem_cons_of_mem _ hx))
      obtain ⟨hbeneath, hall⟩ := List.pairwise_cons.1 hall
      -- The two labels that are taken name the same spans, so those left do together.
      have hsame : named (f :: spans) l = named (f :: spans) l' := by
        unfold named
        rw [List.map_cons, List.map_cons, hl, hl']
        exact congrArg _ (List.map_congr_left fun g hg => hbeneath g hg l hmem l' hmem' hl hl')
      have hleft : (rest.map (named (f :: spans))).Perm (rest'.map (named (f :: spans))) := by
        have h := ((hperm.map _).symm.trans hnamed).trans (hperm'.map _)
        rw [List.map_cons, List.map_cons, hsame] at h
        exact h.cons_inv
      have htails := hleft.map List.tail
      rw [List.map_map, List.map_map] at htails
      exact congrArg (· + 1) (ih h' hall hrest hrest' htails)

/-- What the order of the labels of a close means. -/
structure Orders (b : Builder) (labels : List String) (row : Nat) : Prop where
  /-- The orders close what labels taken as they fit can close. -/
  counts : ∀ k, (∃ labels', labels'.Perm labels ∧ (b.close labels' row).2 = k) ↔
    Uses labels b.openLabels k
  /-- The order means nothing just if the choice among the labels that fit does not. -/
  unordered_iff : (∀ labels', labels'.Perm labels → b.close labels' row = b.close labels row) ↔
    ∀ k, Uses labels b.openLabels k → k = (b.close labels row).2
  unordered : Interchangeable labels b.openLabels →
    ∀ labels', labels'.Perm labels → b.close labels' row = b.close labels row

theorem orders_close (b : Builder) (labels : List String) (row : Nat) : b.Orders labels row where
  counts k := by
    simp only [close_snd]
    exact exists_order_iff
  unordered_iff := by
    simp only [close_eq_close_iff, close_snd]
    constructor
    · intro hall k hk
      obtain ⟨order, hperm, rfl⟩ := hk.exists_order
      exact hall order hperm
    · intro hall order hperm
      exact hall _ ((uses_countClosed order _).perm hperm)
  unordered hinter order hperm := by
    rw [close_eq_close_iff]
    exact (uses_countClosed order _).unique (uses_countClosed labels _) hinter
      hperm.subset (List.Subset.refl _) (hperm.map _)

/-- A span, and one inside it whose label is the last component of its label. -/
def nestedActions : List Action := [.enter ["x.c"] 0, .enter ["c"] 1]

/-- The label of the outer span closes the inner one if it stands first, and then the outer one
    stays open. -/
theorem not_unordered_nestedActions : ["c", "x.c"].Perm ["x.c", "c"] ∧
    ((ofActions nestedActions).close ["c", "x.c"] 2).2 = 2 ∧
    ((ofActions nestedActions).close ["x.c", "c"] 2).2 = 1 ∧
    ((ofActions nestedActions).close ["c", "x.c"] 2).1 ≠
      ((ofActions nestedActions).close ["x.c", "c"] 2).1 := by
  refine ⟨.swap _ _ _, by decide +kernel, by decide +kernel, by decide +kernel⟩

end TraceExplorer.Span.Builder
