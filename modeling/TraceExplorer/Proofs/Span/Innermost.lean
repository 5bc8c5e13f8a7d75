import TraceExplorer.Proofs.Span.Within

/-
  The search for the innermost span of a row. It goes down from the roots through spans that hold
  the row. The spans around a span that holds the row hold it as well, as far as they are closed
  (`Encloses.holds_of_below`), and of two spans that hold the row one lies below the other
  (`WellNested.below_or_below`). So there is one way down, it comes to every span that holds the row
  and does not lie below one that is still open, and it ends at the innermost of them
  (`findsClosed_ofActions`). A span that is still open holds no row, and the search never goes
  below it.
-/

namespace TraceExplorer.Span

namespace Forest

/-- Span `n` is not broken, and the row is one of its rows. -/
def Holds (f : Forest) (row n : Nat) : Prop :=
  ∃ s u, f.span? n = some s ∧ s.isBroken = false ∧ s.last = some u ∧ s.start ≤ row ∧ row ≤ u

/-- Span `n` holds the row, and no span below it does. -/
def IsInnermost (f : Forest) (row n : Nat) : Prop :=
  f.Holds row n ∧ ∀ m, f.Holds row m → ¬ Below f.spans m n

/-- The search finds the innermost span of the row, and nothing just if no span holds it. -/
structure FindsInnermost (f : Forest) (row : Nat) : Prop where
  some_iff : ∀ n, f.innermost? row = some n ↔ f.IsInnermost row n
  none_iff : f.innermost? row = none ↔ ∀ n, ¬ f.Holds row n

variable {f : Forest} {row n m : Nat}

theorem contains_iff_holds : (f.span? n).any (·.contains row) = true ↔ f.Holds row n := by
  rw [Option.any_eq_true]
  unfold Holds
  constructor
  · rintro ⟨s, hs, hcontains⟩
    unfold contains at hcontains
    split at hcontains
    · rename_i u hu
      obtain ⟨hstart, hlast⟩ := Bool.and_eq_true_iff.1 hcontains
      have hstart := of_decide_eq_true hstart
      have hlast := of_decide_eq_true hlast
      refine ⟨s, u, hs, ?_, hu, hstart, hlast⟩
      unfold isBroken
      rw [hu, decide_eq_false_iff_not]
      omega
    · cases hcontains
  · rintro ⟨s, u, hs, _, hu, hstart, hlast⟩
    refine ⟨s, hs, ?_⟩
    unfold contains
    rw [hu]
    exact Bool.and_eq_true_iff.2 ⟨decide_eq_true hstart, decide_eq_true hlast⟩

theorem containing?_eq_none {ns : List Nat} :
    f.containing? row ns = none ↔ ∀ n ∈ ns, ¬ f.Holds row n := by
  unfold containing?
  simp only [List.find?_eq_none, contains_iff_holds]

theorem holds_of_containing? {ns : List Nat} (h : f.containing? row ns = some n) :
    n ∈ ns ∧ f.Holds row n := by
  unfold containing? at h
  exact ⟨List.mem_of_find?_eq_some h, contains_iff_holds.1 (List.find?_some h :)⟩

theorem Holds.lt_length (h : f.Holds row n) : n < f.spans.length := by
  obtain ⟨_, _, hs, _⟩ := h
  exact (List.getElem?_eq_some_iff.1 hs).1

namespace WellNested

theorem parentIn?_eq_some (h : f.WellNested) : parentIn? f.spans n = some m ↔
    n ∈ f.listed (some m) := by
  rw [h.mem_listed, parentIn?, Option.bind_eq_some_iff]
  rfl

/-- Of two spans that hold a row, one lies below the other. -/
theorem below_or_below (h : f.WellNested) (hn : f.Holds row n) (hm : f.Holds row m) :
    n = m ∨ Below f.spans n m ∨ Below f.spans m n := by
  -- The later one cannot start behind the rows of the earlier one.
  have hlater : ∀ {i j}, i < j → f.Holds row i → f.Holds row j → Below f.spans j i := by
    rintro i j hij ⟨s, u, hs, hsbroken, hu, _, hle⟩ ⟨t, _, ht, htbroken, _, hstart, _⟩
    obtain ⟨u', _, hu', _, ⟨hbelow, _⟩ | hbehind⟩ :=
      h.below_or_behind i j s t hij hs ht hsbroken htbroken
    · exact hbelow
    · obtain rfl := Option.some.inj (hu.symm.trans hu')
      omega
  rcases Nat.lt_trichotomy n m with hlt | heq | hlt
  · exact .inr (.inr (hlater hlt hn hm))
  · exact .inl heq
  · exact .inr (.inl (hlater hlt hm hn))

/-- A row that some span holds has an innermost span, that one or one below it. -/
theorem exists_isInnermost (h : f.WellNested) {n : Nat} (hn : f.Holds row n) :
    ∃ i, f.IsInnermost row i ∧ (i = n ∨ Below f.spans i n) := by
  by_cases hbelow : ∃ m, f.Holds row m ∧ Below f.spans m n
  · obtain ⟨m, hm, hmn⟩ := hbelow
    have := h.lt_of_below hmn
    have := hm.lt_length
    obtain ⟨i, hi, him⟩ := h.exists_isInnermost hm
    exact ⟨i, hi, .inr (him.elim (fun heq => heq ▸ hmn) fun him => him.trans hmn)⟩
  · exact ⟨n, ⟨hn, fun m hm hmn => hbelow ⟨m, hm, hmn⟩⟩, .inl rfl⟩
termination_by f.spans.length - n

end WellNested

end Forest

namespace Builder

/-- A span around `n` is still open. -/
def BelowOpen (b : Builder) (n : Nat) : Prop := ∃ m ∈ b.stack, Below b.finish.spans n m

/-- The search finds the innermost span of the row unless that lies below one still open. -/
structure FindsClosed (b : Builder) (row : Nat) : Prop where
  some_iff : ∀ n, b.finish.innermost? row = some n ↔
    b.finish.IsInnermost row n ∧ ¬ b.BelowOpen n
  none_iff : b.finish.innermost? row = none ↔ ∀ n, b.finish.Holds row n → b.BelowOpen n
  /-- It finds the innermost span just if none of the spans of the row lies below an open one. -/
  finds_iff : b.finish.FindsInnermost row ↔ ∀ n, b.finish.Holds row n → ¬ b.BelowOpen n

variable {b : Builder} {row' row n m : Nat}

theorem Nested.not_mem_stack_of_holds (hb : b.Nested row') (h : b.finish.Holds row n) :
    n ∉ b.stack := by
  obtain ⟨t, u, ht, _, hu, _⟩ := h
  exact hb.not_mem_stack_of_last ht hu

theorem Encloses.holds_of_below (h : b.Encloses) (hb : b.Nested row')
    (hn : b.finish.Holds row n) (hbelow : Below b.finish.spans n m) (hm : m ∉ b.stack) :
    b.finish.Holds row m := by
  obtain ⟨t, v, ht, hbroken, hv, hstart, hlast⟩ := hn
  obtain ⟨s, hs, hwithin⟩ := h.within_finish hb hbelow hm ht
  obtain ⟨u, hu, hle⟩ := hwithin.last_le v hv
  exact ⟨s, u, hs, hwithin.isBroken_eq_false hbroken, hu,
    Nat.le_trans hwithin.start_le hstart, Nat.le_trans hlast hle⟩

/-- A span with a parent lies below an open one if its parent is open or does. -/
theorem belowOpen_iff (hparent : parentIn? b.finish.spans n = some m) :
    b.BelowOpen n ↔ m ∈ b.stack ∨ b.BelowOpen m := by
  constructor
  · rintro ⟨k, hk, hbelow⟩
    obtain ⟨p, hp, hrest⟩ := Relation.TransGen.head'_iff.1 hbelow
    obtain rfl := Option.some.inj (hparent.symm.trans hp)
    rcases Relation.reflTransGen_iff_eq_or_transGen.1 hrest with rfl | hrest
    · exact .inl hk
    · exact .inr ⟨k, hk, hrest⟩
  · rintro (hm | ⟨k, hk, hbelow⟩)
    · exact ⟨m, hm, .single hparent⟩
    · exact ⟨k, hk, .head hparent hbelow⟩

/-- The way down ends at a span that holds the row, not below an open one, none of whose children
    holds the row. -/
theorem Nested.innermostBelow_spec (hb : b.Nested row') {height found : Nat}
    (hfound : b.finish.Holds row found) (hopen : ¬ b.BelowOpen found)
    (hheight : b.finish.spans.length ≤ height + found) :
    b.finish.Holds row (b.finish.innermostBelow row height found) ∧
    ¬ b.BelowOpen (b.finish.innermostBelow row height found) ∧
    ∀ c, parentIn? b.finish.spans c = some (b.finish.innermostBelow row height found) →
      ¬ b.finish.Holds row c := by
  have hnested := hb.wellNested_finish
  induction height generalizing found with
  | zero =>
    have := hfound.lt_length
    omega
  | succ height ih =>
    rw [Forest.innermostBelow]
    split
    · rename_i c hc
      obtain ⟨hmem, hholds⟩ := Forest.holds_of_containing? hc
      have hparent := hnested.parentIn?_eq_some.2 hmem
      have hlt := hnested.lt_of_below (.single hparent)
      refine ih hholds (fun hc => ?_) (by omega)
      exact ((belowOpen_iff hparent).1 hc).elim (hb.not_mem_stack_of_holds hfound) hopen
    · rename_i hnone
      refine ⟨hfound, hopen, fun c hparent => ?_⟩
      exact Forest.containing?_eq_none.1 hnone c (hnested.parentIn?_eq_some.1 hparent)

theorem Encloses.isInnermost_of_children (h : b.Encloses) (hb : b.Nested row')
    (hn : b.finish.Holds row n)
    (hchildren : ∀ c, parentIn? b.finish.spans c = some n → ¬ b.finish.Holds row c) :
    b.finish.IsInnermost row n := by
  refine ⟨hn, fun m hm hbelow => ?_⟩
  obtain ⟨c, hc, hparent⟩ := hbelow.exists_child
  refine hchildren c hparent ?_
  rcases hc with rfl | hc
  · exact hm
  · refine h.holds_of_below hb hm hc (h.closed c n ?_ (hb.not_mem_stack_of_holds hn))
    rwa [parentIn?_finish] at hparent

/-- Above a span that holds the row, and does not lie below an open one, a root holds the row. -/
theorem Encloses.exists_root (h : b.Encloses) (hb : b.Nested row') {n : Nat}
    (hn : b.finish.Holds row n) (hopen : ¬ b.BelowOpen n) :
    ∃ r ∈ b.finish.roots, b.finish.Holds row r := by
  have hnested := hb.wellNested_finish
  cases hparent : parentIn? b.finish.spans n with
  | none =>
    obtain ⟨s, _, hs, _⟩ := id hn
    rw [parentIn?, show b.finish.spans[n]? = some s from hs] at hparent
    exact ⟨n, (hnested.mem_listed none n).2 ⟨s, hs, hparent⟩, hn⟩
  | some p =>
    rw [belowOpen_iff hparent, not_or] at hopen
    have := hnested.lt_of_below (.single hparent)
    exact h.exists_root hb (h.holds_of_below hb hn (.single hparent) hopen.1) hopen.2
termination_by n

theorem Nested.not_belowOpen_root (hb : b.Nested row') (h : n ∈ b.finish.roots) :
    ¬ b.BelowOpen n := by
  obtain ⟨s, hs, hparent⟩ := (hb.wellNested_finish.mem_listed none n).1 h
  rintro ⟨_, _, hbelow⟩
  obtain ⟨p, hp, _⟩ := Relation.TransGen.head'_iff.1 hbelow
  rw [parentIn?, show b.finish.spans[n]? = some s from hs, Option.bind_some, hparent] at hp
  cases hp

theorem Encloses.innermost?_eq_none (h : b.Encloses) (hb : b.Nested row') :
    b.finish.innermost? row = none ↔ ∀ n, b.finish.Holds row n → b.BelowOpen n := by
  rw [Forest.innermost?, Option.map_eq_none_iff, Forest.containing?_eq_none]
  constructor
  · intro hroots n hn
    by_contra hopen
    obtain ⟨r, hr, hholds⟩ := h.exists_root hb hn hopen
    exact hroots r hr hholds
  · intro hall r hr hholds
    exact hb.not_belowOpen_root hr (hall r hholds)

theorem Encloses.of_innermost?_eq_some (h : b.Encloses) (hb : b.Nested row')
    (hn : b.finish.innermost? row = some n) :
    b.finish.IsInnermost row n ∧ ¬ b.BelowOpen n := by
  obtain ⟨r, hr, rfl⟩ := Option.map_eq_some_iff.1 hn
  obtain ⟨hmem, hholds⟩ := Forest.holds_of_containing? hr
  obtain ⟨hfound, hopen, hchildren⟩ :=
    hb.innermostBelow_spec hholds (hb.not_belowOpen_root hmem) (Nat.le_add_right _ _)
  exact ⟨h.isInnermost_of_children hb hfound hchildren, hopen⟩

theorem Encloses.innermost?_eq_some (h : b.Encloses) (hb : b.Nested row') :
    b.finish.innermost? row = some n ↔ b.finish.IsInnermost row n ∧ ¬ b.BelowOpen n := by
  refine ⟨h.of_innermost?_eq_some hb, fun ⟨hn, hopen⟩ => ?_⟩
  cases hfound : b.finish.innermost? row with
  | none => exact absurd ((h.innermost?_eq_none hb).1 hfound n hn.1) hopen
  | some r =>
    obtain ⟨hr, _⟩ := h.of_innermost?_eq_some hb hfound
    rcases hb.wellNested_finish.below_or_below hn.1 hr.1 with rfl | hbelow | hbelow
    · rfl
    · exact absurd hbelow (hr.2 n hn.1)
    · exact absurd hbelow (hn.2 r hr.1)

theorem Encloses.findsInnermost_iff (h : b.Encloses) (hb : b.Nested row') :
    b.finish.FindsInnermost row ↔ ∀ n, b.finish.Holds row n → ¬ b.BelowOpen n := by
  constructor
  · -- The innermost span below one that lies below an open one is not found.
    rintro hfinds n hn ⟨m, hm, hbelow⟩
    obtain ⟨i, hi, hin⟩ := hb.wellNested_finish.exists_isInnermost hn
    refine (h.of_innermost?_eq_some hb ((hfinds.some_iff i).2 hi)).2 ⟨m, hm, ?_⟩
    exact hin.elim (fun heq => heq ▸ hbelow) fun hin => hin.trans hbelow
  · intro hall
    refine ⟨fun n => ?_, ?_⟩
    · rw [h.innermost?_eq_some hb]
      exact ⟨And.left, fun hn => ⟨hn, hall n hn.1⟩⟩
    · rw [h.innermost?_eq_none hb]
      exact forall_congr' fun n => ⟨fun hn hholds => hall n hholds (hn hholds),
        fun hn hholds => absurd hholds hn⟩

/-- What the search finds in the forest of actions whose rows do not descend. -/
theorem findsClosed_ofActions (actions : List Action)
    (h : actions.Pairwise fun a b => a.row ≤ b.row) (row : Nat) :
    (ofActions actions).FindsClosed row := by
  obtain ⟨row', hnested⟩ := exists_nested_ofActions h
  have hencloses := encloses_ofActions h
  exact
    { some_iff := fun _ => hencloses.innermost?_eq_some hnested
      none_iff := hencloses.innermost?_eq_none hnested
      finds_iff := hencloses.findsInnermost_iff hnested }

/-- Two loops, one inside the other and both closed, before a span that stays open. -/
def closedActions : List Action :=
  [.enter ["loop"] 0, .enter ["body"] 1, .close ["body"] 3, .close ["loop"] 4, .enter ["rest"] 5]

theorem findsClosed_closedActions : (closedActions.Pairwise fun a b => a.row ≤ b.row) ∧
    (ofActions closedActions).FindsClosed 2 :=
  ⟨by decide, findsClosed_ofActions closedActions (by decide) 2⟩

/-- A span that is closed, inside one that stays open. -/
def openActions : List Action := [.enter ["rest"] 0, .enter ["body"] 1, .close ["body"] 3]

/-- The search does not find the closed span that holds the row. -/
theorem not_findsInnermost_openActions : (openActions.Pairwise fun a b => a.row ≤ b.row) ∧
    (ofActions openActions).finish.Holds 2 1 ∧
    (ofActions openActions).finish.innermost? 2 = none ∧
    ¬ (ofActions openActions).finish.FindsInnermost 2 := by
  have hholds : (ofActions openActions).finish.Holds 2 1 :=
    Forest.contains_iff_holds.1 (by decide +kernel)
  have hnone : (ofActions openActions).finish.innermost? 2 = none := by decide +kernel
  exact ⟨by decide, hholds, hnone, fun hfinds => hfinds.none_iff.1 hnone 1 hholds⟩

end Builder

end TraceExplorer.Span
