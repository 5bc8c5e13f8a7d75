import TraceExplorer.Proofs.Text.Runs
import Mathlib.Data.List.Basic

/-
  White space around a text. `Trims` says what is left without it, and trimming finds just that
  (`trim_eq_iff`); so more white space around the text changes nothing (`trim_surrounded`).
-/

namespace TraceExplorer.Text

open CharClass (isBlank)

variable {s t before after : List Char}

/-- `t` is what is left of `s` without the blanks at its ends. -/
structure Trims (s t : List Char) : Prop where
  around : ∃ before after, s = before ++ (t ++ after) ∧
    (∀ c ∈ before, isBlank c = true) ∧ ∀ c ∈ after, isBlank c = true
  first : ∀ c ∈ t.head?, isBlank c = false
  last : ∀ c ∈ t.getLast?, isBlank c = false

theorem head?_dropWhile {p : Char → Bool} : ∀ c ∈ (s.dropWhile p).head?, p c = false := by
  intro c hc
  have h := List.head?_dropWhile_not p s
  rw [Option.mem_def.1 hc] at h
  exact h

theorem trims_trim (s : List Char) : Trims s (trim s) := by
  have hfront : s.takeWhile isBlank ++ trimStart s = s := List.takeWhile_append_dropWhile
  have hback : trim s ++ ((trimStart s).reverse.takeWhile isBlank).reverse = trimStart s := by
    rw [trim, trimEnd, dropEndWhile, ← List.reverse_append, List.takeWhile_append_dropWhile,
      List.reverse_reverse]
  have hlast : ∀ c ∈ (trim s).getLast?, isBlank c = false := by
    rw [trim, trimEnd, dropEndWhile, List.getLast?_reverse]
    exact head?_dropWhile
  refine ⟨⟨_, _, by rw [hback, hfront], ?_, ?_⟩, ?_, hlast⟩
  · exact List.all_eq_true.1 List.all_takeWhile
  · intro c hc
    exact List.all_eq_true.1 List.all_takeWhile c (List.mem_reverse.1 hc)
  · intro c hc
    refine head?_dropWhile (s := s) c ?_
    obtain ⟨rest, hrest⟩ := List.head?_eq_some_iff.1 hc
    rw [show s.dropWhile isBlank = trimStart s from rfl, ← hback, hrest]
    rfl

theorem Trims.trim_eq (h : Trims s t) : trim s = t := by
  obtain ⟨before, after, rfl, hbefore, hafter⟩ := h.around
  cases t with
  | nil =>
    have hblank : ∀ c ∈ before ++ after, isBlank c = true := fun c hc =>
      (List.mem_append.1 hc).elim (hbefore c) (hafter c)
    have hstart : trimStart (before ++ after ++ []) = [] :=
      dropWhile_run hblank fun _ h => nomatch h
    rw [List.append_nil] at hstart
    rw [trim, List.nil_append, hstart]
    rfl
  | cons c t =>
    have hstart : trimStart (before ++ (c :: t ++ after)) = c :: t ++ after :=
      dropWhile_run hbefore h.first
    rw [trim, hstart]
    exact dropEndWhile_run hafter h.last

theorem trim_eq_iff : trim s = t ↔ Trims s t :=
  ⟨fun h => h ▸ trims_trim s, Trims.trim_eq⟩

theorem Trims.surround (h : Trims s t) (hbefore : ∀ c ∈ before, isBlank c = true)
    (hafter : ∀ c ∈ after, isBlank c = true) : Trims (before ++ s ++ after) t := by
  obtain ⟨front, back, rfl, hfront, hback⟩ := h.around
  refine ⟨⟨before ++ front, back ++ after, by simp, ?_, ?_⟩, h.first, h.last⟩
  · exact fun c hc => (List.mem_append.1 hc).elim (hbefore c) (hfront c)
  · exact fun c hc => (List.mem_append.1 hc).elim (hback c) (hafter c)

theorem trim_eq (hfirst : ∀ c ∈ s.head?, isBlank c = false)
    (hlast : ∀ c ∈ s.getLast?, isBlank c = false) : trim s = s := by
  have hnone : ∀ c ∈ ([] : List Char), isBlank c = true := fun _ hc => nomatch hc
  have hself : s = [] ++ (s ++ []) := by rw [List.append_nil, List.nil_append]
  exact trim_eq_iff.2 ⟨⟨[], [], hself, hnone, hnone⟩, hfirst, hlast⟩

theorem trim_surrounded (hbefore : ∀ c ∈ before, isBlank c = true)
    (hafter : ∀ c ∈ after, isBlank c = true) : trim (before ++ s ++ after) = trim s :=
  ((trims_trim s).surround hbefore hafter).trim_eq

/-! ## Blanks that are no longer at the end -/

/-- Whether the last character is a blank. -/
def endsBlank (s : List Char) : Bool := s.getLast?.any isBlank

theorem endsBlank_eq_false_iff :
    endsBlank s = false ↔ ∀ c ∈ s.getLast?, isBlank c = false := by
  unfold endsBlank
  cases s.getLast? with
  | none => simp
  | some c => simp

theorem Trims.exists_after (h : Trims s t) (hne : t ≠ []) : ∃ before after,
    s = before ++ (t ++ after) ∧ (∀ c ∈ before, isBlank c = true) ∧
      (∀ c ∈ after, isBlank c = true) ∧ (after = [] ↔ endsBlank s = false) := by
  obtain ⟨before, after, rfl, hbefore, hafter⟩ := h.around
  refine ⟨before, after, rfl, hbefore, hafter, ?_⟩
  rw [endsBlank_eq_false_iff]
  constructor
  · rintro rfl
    rw [List.append_nil, List.getLast?_append_of_ne_nil _ hne]
    exact h.last
  · intro hend
    obtain rfl | ⟨front, c, rfl⟩ := List.eq_nil_or_concat after
    · rfl
    · have hlast : (before ++ (t ++ front.concat c)).getLast? = some c := by
        rw [List.concat_eq_append, ← List.append_assoc, ← List.append_assoc, List.getLast?_concat]
      have hc := hend c hlast
      rw [hafter c (by simp)] at hc
      cases hc

/-- With more text at the end, the blanks that were there are left where they are. -/
theorem Trims.append {more : List Char} (h : Trims (before ++ (t ++ after)) t) (hne : t ≠ [])
    (hbefore : ∀ c ∈ before, isBlank c = true) (hmore : more ≠ [])
    (hlast : endsBlank more = false) :
    Trims (before ++ (t ++ after) ++ more) (t ++ (after ++ more)) where
  around := ⟨before, [], by simp, hbefore, fun _ hc => nomatch hc⟩
  first := by
    rw [List.head?_append_of_ne_nil t hne]
    exact h.first
  last := by
    rw [← List.append_assoc, List.getLast?_append_of_ne_nil _ hmore]
    exact endsBlank_eq_false_iff.1 hlast

end TraceExplorer.Text
