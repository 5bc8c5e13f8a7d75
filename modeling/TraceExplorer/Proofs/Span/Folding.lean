import TraceExplorer.Span.Folding
import TraceExplorer.Proofs.Dict
import TraceExplorer.Proofs.Span.Within
import Mathlib.Algebra.BigOperators.Group.Finset.Basic
import Mathlib.Order.Interval.Finset.Nat

/-
  Spans folded and unfolded. After any calls a span is folded just if it can be and the last call
  about it folded it (`isFolded_ofCalls`). What a folded span hides, each folded span around it
  hides as well (`covers_finish`); so all that is hidden, the outermost folded spans hide
  (`isHidden_iff_isOutermost`), and what becomes of a span below a folded one shows nowhere
  (`visible_eq_of_below`). What two outermost folded spans hide is apart (`IsOutermost.disjoint`),
  and none of them hides the first row of another (`IsOutermost.not_hides_start`), so the rows that
  are shown can be counted (`length_visible`).
-/

namespace TraceExplorer.Span

namespace Forest

/-- Span `n` is there and not broken. -/
def Foldable (f : Forest) (n : Nat) : Prop := ∃ s, f.span? n = some s ∧ s.isBroken = false

/-- Span `n`, if folded, hides the row: one of its rows, but not the first. -/
def Hides (f : Forest) (n row : Nat) : Prop :=
  ∃ s u, f.span? n = some s ∧ s.last = some u ∧ s.start < row ∧ row ≤ u

/-- The rows that span `n` hides. -/
def rowsBehind (f : Forest) (n : Nat) : Finset Nat :=
  (f.span? n).elim ∅ fun s => s.last.elim ∅ (Finset.Ioc s.start)

/-- How far the last row of span `n` is from its first. -/
def extent (f : Forest) (n : Nat) : Nat :=
  (f.span? n).elim 0 fun s => s.last.elim 0 (· - s.start)

/-- What a span hides, the foldable spans around it hide as well. -/
def Covers (f : Forest) : Prop :=
  ∀ n m row, Below f.spans n m → f.Foldable m → f.Hides n row → f.Hides m row

variable {f : Forest} {n m row : Nat}

theorem hides_iff : (f.span? n).any (·.hides row) = true ↔ f.Hides n row := by
  rw [Option.any_eq_true]
  unfold Hides hides hidden?
  constructor
  · rintro ⟨s, hs, hhides⟩
    cases hu : s.last with
    | none => simp [hu] at hhides
    | some u =>
      rw [hu] at hhides
      by_cases hlt : s.start < u
      · simp only [if_pos hlt, Bool.and_eq_true, decide_eq_true_eq] at hhides
        exact ⟨s, u, hs, hu, hhides⟩
      · simp [if_neg hlt] at hhides
  · rintro ⟨s, u, hs, hu, hstart, hlast⟩
    refine ⟨s, hs, ?_⟩
    rw [hu]
    simp only [if_pos (Nat.lt_of_lt_of_le hstart hlast), Bool.and_eq_true, decide_eq_true_eq]
    exact ⟨hstart, hlast⟩

theorem mem_rowsBehind : row ∈ f.rowsBehind n ↔ f.Hides n row := by
  unfold rowsBehind Hides
  cases f.span? n with
  | none => simp
  | some s => cases hu : s.last <;> simp [hu]

theorem card_rowsBehind (f : Forest) (n : Nat) : (f.rowsBehind n).card = f.extent n := by
  unfold rowsBehind extent
  cases f.span? n with
  | none => rfl
  | some s =>
    rw [Option.elim_some, Option.elim_some]
    cases s.last with
    | none => rfl
    | some u => exact Nat.card_Ioc _ _

theorem foldable_of_hides (h : f.Hides n row) : f.Foldable n := by
  obtain ⟨s, u, hs, hu, hstart, hlast⟩ := h
  refine ⟨s, hs, ?_⟩
  unfold isBroken
  rw [hu, decide_eq_false_iff_not]
  omega

theorem WellNested.start_le_start (h : f.WellNested) {s t : Span} (hnm : n < m)
    (hs : f.span? n = some s) (ht : f.span? m = some t) : s.start ≤ t.start := by
  obtain ⟨hn, rfl⟩ := List.getElem?_eq_some_iff.1 hs
  obtain ⟨hm, rfl⟩ := List.getElem?_eq_some_iff.1 ht
  exact List.pairwise_iff_getElem.1 (List.pairwise_map.1 h.ascends) n m hn hm hnm

end Forest

theorem Builder.Encloses.covers_finish {b : Builder} {row : Nat} (h : b.Encloses)
    (hb : b.Nested row) : b.finish.Covers := by
  rintro n m r hbelow ⟨s, hs, hbroken⟩ ⟨t, v, ht, hv, hstart, hlast⟩
  obtain ⟨u, hu, _⟩ := exists_last_of_not_broken hbroken
  obtain ⟨s', hs', hwithin⟩ := h.within_finish hb hbelow (hb.not_mem_stack_of_last hs hu) ht
  obtain ⟨u', hu', hle⟩ := hwithin.last_le v hv
  exact ⟨s', u', hs', hu', Nat.lt_of_le_of_lt hwithin.start_le hstart, Nat.le_trans hlast hle⟩

namespace Folding

/-! ## Calls -/

/-- A call about a span. -/
inductive Call where
  | fold (n : Nat)
  | unfold (n : Nat)
deriving DecidableEq

def Call.span : Call → Nat
  | .fold n | .unfold n => n

def call (f : Forest) (x : Folding) : Call → Folding
  | .fold n => (x.fold f n).1
  | .unfold n => (x.unfold n).1

/-- What the calls leave folded. -/
def ofCalls (f : Forest) (calls : List Call) : Folding := calls.foldl (call f) Dict.empty

/-- The last call about span `n`. -/
def lastCall? (calls : List Call) (n : Nat) : Option Call :=
  (calls.filter fun c => c.span = n).getLast?

variable {f : Forest} {x y : Folding} {n m row : Nat}

theorem isFolded_fold : (x.fold f n).1.isFolded m = true ↔
    x.isFolded m = true ∨ (m = n ∧ f.Foldable n) := by
  unfold fold Forest.Foldable
  cases hs : f.span? n with
  | none => simp
  | some s =>
    cases hbroken : s.isBroken with
    | true => simp [hbroken]
    | false =>
      simp only [isFolded, Dict.contains, Dict.get?_insert, hbroken, Bool.false_eq_true, if_false]
      by_cases hmn : m = n <;> simp [hmn, hbroken]

theorem isFolded_unfold : (x.unfold n).1.isFolded m = true ↔ x.isFolded m = true ∧ m ≠ n := by
  unfold unfold isFolded Dict.contains
  rw [Dict.get?_erase]
  by_cases hmn : m = n <;> simp [hmn]

/-- A call leaves the other spans as they are. -/
theorem isFolded_call_of_ne {c : Call} (h : m ≠ c.span) :
    (call f x c).isFolded m = x.isFolded m := by
  rw [Bool.eq_iff_iff]
  cases c with
  | fold n => exact isFolded_fold.trans ⟨fun hm => hm.elim id fun hm => absurd hm.1 h, .inl⟩
  | unfold n => exact isFolded_unfold.trans ⟨And.left, fun hm => ⟨hm, h⟩⟩

theorem lastCall?_concat (calls : List Call) (c : Call) (n : Nat) :
    lastCall? (calls ++ [c]) n = if c.span = n then some c else lastCall? calls n := by
  unfold lastCall?
  rw [List.filter_append]
  by_cases hc : c.span = n <;> simp [hc]

theorem isFolded_ofCalls {calls : List Call} : (ofCalls f calls).isFolded n = true ↔
    f.Foldable n ∧ lastCall? calls n = some (.fold n) := by
  induction calls using List.reverseRecOn with
  | nil => simp [ofCalls, isFolded, Dict.contains, Dict.get?, Dict.empty, Dict.find, lastCall?]
  | append_singleton calls c ih =>
    rw [ofCalls, List.foldl_concat, ← ofCalls, lastCall?_concat]
    by_cases hc : c.span = n
    · rw [if_pos hc, Option.some.injEq]
      cases c with
      | fold m =>
        obtain rfl : m = n := hc
        rw [call, isFolded_fold, ih]
        simp only [true_and, and_true]
        exact ⟨fun h => h.elim And.left id, .inr⟩
      | unfold m =>
        obtain rfl : m = n := hc
        rw [call, isFolded_unfold]
        simp
    · rw [if_neg hc, isFolded_call_of_ne (Ne.symm hc), ih]

/-- Only the last call about each span counts. -/
theorem ofCalls_eq {calls calls' : List Call}
    (h : ∀ n, lastCall? calls n = lastCall? calls' n) : ofCalls f calls = ofCalls f calls' := by
  have hfolded : ∀ n, (ofCalls f calls).isFolded n = (ofCalls f calls').isFolded n := fun n => by
    rw [Bool.eq_iff_iff, isFolded_ofCalls, isFolded_ofCalls, h]
  refine Dict.ext_get? fun n => ?_
  have hsome := hfolded n
  unfold isFolded Dict.contains at hsome
  cases hn : (ofCalls f calls).get? n <;> cases hn' : (ofCalls f calls').get? n <;>
    simp_all

/-! ## Outermost folded spans -/

/-- Span `n` is folded, and no span around it is. -/
def IsOutermost (x : Folding) (f : Forest) (n : Nat) : Prop :=
  x.isFolded n = true ∧ ∀ m, Below f.spans n m → x.isFolded m = false

theorem isHidden_iff : x.isHidden f row = true ↔
    ∃ n, x.isFolded n = true ∧ f.Hides n row := by
  unfold isHidden
  rw [List.any_eq_true]
  refine exists_congr fun n => ?_
  rw [Dict.mem_keys, Forest.hides_iff]
  rfl

theorem exists_isOutermost (h : f.WellNested) {n : Nat} (hn : x.isFolded n = true) :
    ∃ m, x.IsOutermost f m ∧ (m = n ∨ Below f.spans n m) := by
  by_cases habove : ∃ m, Below f.spans n m ∧ x.isFolded m = true
  · obtain ⟨m, hnm, hm⟩ := habove
    have := h.lt_of_below hnm
    obtain ⟨k, hk, hmk⟩ := exists_isOutermost h hm
    exact ⟨k, hk, .inr (hmk.elim (fun heq => heq ▸ hnm) hnm.trans)⟩
  · refine ⟨n, ⟨hn, fun m hnm => ?_⟩, .inl rfl⟩
    exact Bool.eq_false_iff.2 fun hm => habove ⟨m, hnm, hm⟩
termination_by n

/-- What a folded span hides comes before each later outermost one. -/
theorem IsOutermost.lt_start_of_hides (hn : x.IsOutermost f n) (h : f.WellNested)
    (hm : x.isFolded m = true) (hmn : m < n) {t : Span} (ht : f.span? n = some t)
    (htbroken : t.isBroken = false) (hrow : f.Hides m row) : row < t.start := by
  obtain ⟨s', hs', hsbroken⟩ := Forest.foldable_of_hides hrow
  obtain ⟨s, u, hs, hu, _, hlast⟩ := hrow
  obtain rfl := Option.some.inj (hs.symm.trans hs')
  obtain ⟨u', _, hu', _, ⟨hbelow, _⟩ | hbehind⟩ :=
    h.below_or_behind m n s t hmn hs ht hsbroken htbroken
  · rw [hn.2 m hbelow] at hm
    cases hm
  · obtain rfl := Option.some.inj (hu.symm.trans hu')
    omega

/-- The rows that two outermost folded spans hide are apart. -/
theorem IsOutermost.disjoint (hn : x.IsOutermost f n) (h : f.WellNested)
    (hm : x.IsOutermost f m) (hnm : n ≠ m) : Disjoint (f.rowsBehind n) (f.rowsBehind m) := by
  have hlater : ∀ {i j}, i < j → x.IsOutermost f i → x.IsOutermost f j →
      ∀ row, f.Hides i row → ¬ f.Hides j row := by
    intro i j hij hi hj row hrow hrow'
    obtain ⟨t, ht, htbroken⟩ := Forest.foldable_of_hides hrow'
    have := hj.lt_start_of_hides h hi.1 hij ht htbroken hrow
    obtain ⟨t', _, ht', _, _, _⟩ := hrow'
    obtain rfl := Option.some.inj (ht.symm.trans ht')
    omega
  refine Finset.disjoint_left.2 fun row hrow hrow' => ?_
  rw [Forest.mem_rowsBehind] at hrow hrow'
  rcases Nat.lt_or_gt_of_ne hnm with hlt | hlt
  · exact hlater hlt hn hm row hrow hrow'
  · exact hlater hlt hm hn row hrow' hrow

/-- The first row of an outermost folded span is not hidden. -/
theorem IsOutermost.not_hides_start (hn : x.IsOutermost f n) (h : f.WellNested) {t : Span}
    (ht : f.span? n = some t) (htbroken : t.isBroken = false) (hm : x.isFolded m = true) :
    ¬ f.Hides m t.start := by
  intro hrow
  rcases Nat.lt_trichotomy m n with hlt | rfl | hlt
  · exact Nat.lt_irrefl _ (hn.lt_start_of_hides h hm hlt ht htbroken hrow)
  · obtain ⟨s, _, hs, _, hstart, _⟩ := hrow
    obtain rfl := Option.some.inj (hs.symm.trans ht)
    exact Nat.lt_irrefl _ hstart
  · -- A later span starts no earlier.
    obtain ⟨s, _, hs, _, hstart, _⟩ := hrow
    exact Nat.not_le_of_lt hstart (h.start_le_start hlt ht hs)

/-! ## What is shown -/

section

variable (hx : ∀ n, x.isFolded n = true → f.Foldable n)
include hx

theorem isHidden_iff_isOutermost (h : f.WellNested) (hcovers : f.Covers) :
    x.isHidden f row = true ↔ ∃ n, x.IsOutermost f n ∧ f.Hides n row := by
  rw [isHidden_iff]
  constructor
  · rintro ⟨n, hn, hrow⟩
    obtain ⟨m, hm, hnm⟩ := exists_isOutermost h hn
    refine ⟨m, hm, ?_⟩
    exact hnm.elim (fun heq => heq ▸ hrow) fun hbelow => hcovers n m row hbelow (hx m hm.1) hrow
  · rintro ⟨n, hn, hrow⟩
    exact ⟨n, hn.1, hrow⟩

/-- Whether a span below a folded one is folded shows nowhere. -/
theorem visible_eq_of_below (h : f.WellNested) (hcovers : f.Covers) (hm : x.isFolded m = true)
    (hnm : Below f.spans n m) (hsame : ∀ k, k ≠ n → y.isFolded k = x.isFolded k) (length : Nat) :
    y.visible f length = x.visible f length := by
  have hne : m ≠ n := Nat.ne_of_lt (h.lt_of_below hnm)
  have hidden : ∀ row, y.isHidden f row = true ↔ x.isHidden f row = true := by
    intro row
    rw [isHidden_iff, isHidden_iff]
    constructor
    · rintro ⟨k, hk, hrow⟩
      by_cases hkn : k = n
      · subst hkn
        exact ⟨m, hm, hcovers k m row hnm (hx m hm) hrow⟩
      · exact ⟨k, hsame k hkn ▸ hk, hrow⟩
    · rintro ⟨k, hk, hrow⟩
      by_cases hkn : k = n
      · subst hkn
        exact ⟨m, (hsame m hne).trans hm, hcovers k m row hnm (hx m hm) hrow⟩
      · exact ⟨k, (hsame k hkn).trans hk, hrow⟩
  unfold visible
  refine List.filter_congr fun row _ => ?_
  rw [Bool.eq_iff_iff.2 (hidden row)]

/-- The first row of an outermost folded span is shown. -/
theorem IsOutermost.start_mem_visible (hn : x.IsOutermost f n) (h : f.WellNested) {length : Nat}
    (hlength : ∀ s ∈ f.spans, ∀ u, s.last = some u → u < length) :
    ∃ s, f.span? n = some s ∧ s.start ∈ x.visible f length := by
  obtain ⟨s, hs, hbroken⟩ := hx n hn.1
  obtain ⟨u, hu, hle⟩ := exists_last_of_not_broken hbroken
  have hlt := hlength s (List.mem_of_getElem? hs) u hu
  refine ⟨s, hs, List.mem_filter.2 ⟨List.mem_range.2 (Nat.lt_of_le_of_lt hle hlt), ?_⟩⟩
  rw [Bool.not_eq_true', ← Bool.not_eq_true, isHidden_iff]
  rintro ⟨m, hm, hrow⟩
  exact hn.not_hides_start h hs hbroken hm hrow

/-- The rows that are shown, and those that the outermost folded spans hide, are all rows. -/
theorem length_visible (h : f.WellNested) (hcovers : f.Covers) {length : Nat}
    (hlength : ∀ s ∈ f.spans, ∀ u, s.last = some u → u < length) :
    ∃ tops : Finset Nat, (∀ n, n ∈ tops ↔ x.IsOutermost f n) ∧
      (x.visible f length).length + ∑ n ∈ tops, f.extent n = length := by
  classical
  let tops := x.keys.toFinset.filter (x.IsOutermost f)
  have htops : ∀ n, n ∈ tops ↔ x.IsOutermost f n := fun n => by
    rw [Finset.mem_filter, List.mem_toFinset, Dict.mem_keys]
    exact ⟨And.right, fun hn => ⟨hn.1, hn⟩⟩
  have hidden : ((List.range length).filter (x.isHidden f)).toFinset =
      tops.biUnion f.rowsBehind := by
    ext row
    rw [List.mem_toFinset, List.mem_filter, List.mem_range, Finset.mem_biUnion,
      isHidden_iff_isOutermost hx h hcovers]
    simp only [htops, Forest.mem_rowsBehind]
    constructor
    · exact And.right
    · rintro ⟨n, hn, s, u, hs, hu, hstart, hlast⟩
      have := hlength s (List.mem_of_getElem? hs) u hu
      exact ⟨by omega, n, hn, s, u, hs, hu, hstart, hlast⟩
  have hcard : ((List.range length).filter (x.isHidden f)).length = ∑ n ∈ tops, f.extent n := by
    rw [← List.toFinset_card_of_nodup (List.nodup_range.filter _), hidden, Finset.card_biUnion]
    · exact Finset.sum_congr rfl fun n _ => f.card_rowsBehind n
    · intro n hn m hm hnm
      exact ((htops n).1 hn).disjoint h ((htops m).1 hm) hnm
  refine ⟨tops, htops, ?_⟩
  have hlen := List.length_eq_length_filter_add (l := List.range length) (x.isHidden f)
  rw [List.length_range] at hlen
  rw [← hcard, visible, Nat.add_comm]
  exact hlen.symm

end

/-- What calls leave folded in a forest, and which of `length` rows they leave shown. -/
structure Folds (f : Forest) (length : Nat) (calls : List Call) : Prop where
  isFolded_iff : ∀ n, (ofCalls f calls).isFolded n = true ↔
    f.Foldable n ∧ lastCall? calls n = some (.fold n)
  /-- The order of calls about different spans does not matter. -/
  order : ∀ calls', (∀ n, lastCall? calls' n = lastCall? calls n) →
    (ofCalls f calls').visible f length = (ofCalls f calls).visible f length
  /-- To unfold a span leaves those inside as they are. -/
  unfold_around : ∀ n m, Below f.spans m n →
    (call f (ofCalls f calls) (.unfold n)).isFolded m = (ofCalls f calls).isFolded m
  start_mem : ∀ n, (ofCalls f calls).IsOutermost f n →
    ∃ s, f.span? n = some s ∧ s.start ∈ (ofCalls f calls).visible f length
  /-- A call about a span below a folded one does not change what is shown. -/
  call_below : ∀ c m, (ofCalls f calls).isFolded m = true → Below f.spans c.span m →
    (call f (ofCalls f calls) c).visible f length = (ofCalls f calls).visible f length
  length_visible : ∃ tops : Finset Nat, (∀ n, n ∈ tops ↔ (ofCalls f calls).IsOutermost f n) ∧
    ((ofCalls f calls).visible f length).length + ∑ n ∈ tops, f.extent n = length

/-- Calls about the spans of actions whose rows do not descend. -/
theorem folds_ofCalls (actions : List Builder.Action)
    (h : actions.Pairwise fun a b => a.row ≤ b.row) (length : Nat)
    (hlength : ∀ s ∈ (Builder.ofActions actions).finish.spans, ∀ u, s.last = some u → u < length)
    (calls : List Call) : Folds (Builder.ofActions actions).finish length calls := by
  obtain ⟨row, hb⟩ := Builder.exists_nested_ofActions h
  have hnested := hb.wellNested_finish
  have hcovers := (Builder.encloses_ofActions h).covers_finish hb
  have hx : ∀ n, (ofCalls (Builder.ofActions actions).finish calls).isFolded n = true →
      (Builder.ofActions actions).finish.Foldable n := fun n hn => (isFolded_ofCalls.1 hn).1
  exact
    { isFolded_iff := fun _ => isFolded_ofCalls
      order := fun calls' hcalls => by rw [ofCalls_eq hcalls]
      unfold_around := fun n m hmn => isFolded_call_of_ne (Nat.ne_of_gt (hnested.lt_of_below hmn))
      start_mem := fun n hn => hn.start_mem_visible hx hnested hlength
      call_below := fun c m hm hcm => visible_eq_of_below hx hnested hcovers hm hcm
        (fun k hk => isFolded_call_of_ne hk) length
      length_visible := length_visible hx hnested hcovers hlength }

/-- A loop around a broken span and two spans that end together, one inside the other, and a span
    that stays open behind it. -/
def nestedActions : List Builder.Action :=
  [.enter ["loop"] 0, .enter ["init"] 1, .close ["init"] 1, .enter ["body"] 1, .enter ["step"] 2,
    .close ["step", "body"] 4, .close ["loop"] 6, .enter ["rest"] 6]

/-- The broken span, the open one and one that is not there are refused, and the loop unfolded. -/
def nestedCalls : List Call :=
  [.fold 3, .fold 0, .fold 1, .fold 2, .fold 4, .unfold 0, .fold 3, .fold 9]

theorem folds_nestedCalls : (nestedActions.Pairwise fun a b => a.row ≤ b.row) ∧
    (∀ s ∈ (Builder.ofActions nestedActions).finish.spans, ∀ u, s.last = some u → u < 8) ∧
    Folds (Builder.ofActions nestedActions).finish 8 nestedCalls := by
  have hlast : ∀ s ∈ (Builder.ofActions nestedActions).finish.spans, s.last.all (· < 8) := by
    decide +kernel
  have hlength : ∀ s ∈ (Builder.ofActions nestedActions).finish.spans, ∀ u, s.last = some u →
      u < 8 := fun s hs u hu => of_decide_eq_true (Option.all_eq_true _ _ |>.1 (hlast s hs) u hu)
  exact ⟨by decide, hlength, folds_ofCalls nestedActions (by decide) 8 hlength nestedCalls⟩

end Folding

end TraceExplorer.Span
