import TraceExplorer.Proofs.Text.Utf8
import TraceExplorer.Span.Label
import Mathlib.Data.List.Infix

/-
  Labels by their components. A label names another one just if its components end in those of the
  other (`names_iff_suffix`), so naming orders the labels as suffixes do. By bytes the same is
  found, and the one byte that is looked at is always there (`Offsets.names?_eq`).
-/

namespace TraceExplorer.Span

variable {close label : String}

/-! ## Naming and components -/

theorem names_iff : names close label = true ↔
    close = label ∨ '.' :: label.toList <:+ close.toList := by
  rw [names, Bool.or_eq_true, beq_iff_eq, List.isSuffixOf_iff_suffix]

theorem intercalate_components (label : String) :
    ['.'].intercalate (components label) = label.toList :=
  List.intercalate_splitOn '.'

theorem components_injective : Function.Injective components := by
  intro a b h
  rw [← String.toList_inj, ← intercalate_components a, h, intercalate_components]

/-- There is a dot between the components in front and the others. -/
theorem intercalate_append {front rest : List (List Char)} (hfront : front ≠ [])
    (hrest : rest ≠ []) : ['.'].intercalate (front ++ rest) =
      ['.'].intercalate front ++ '.' :: ['.'].intercalate rest := by
  induction front with
  | nil => exact absurd rfl hfront
  | cons c front ih =>
    by_cases hnil : front = []
    · rw [hnil, List.singleton_append, List.intercalate_cons_of_ne_nil hrest,
        List.intercalate_singleton, List.append_assoc, List.singleton_append]
    · have hmore : front ++ rest ≠ [] := List.append_ne_nil_of_left_ne_nil hnil rest
      rw [List.cons_append, List.intercalate_cons_of_ne_nil hmore, ih hnil,
        List.intercalate_cons_of_ne_nil hnil, List.append_assoc, List.append_assoc,
        List.append_assoc]

/-- A label names another one just if its components end in those of the other. -/
theorem names_iff_suffix :
    names close label = true ↔ components label <:+ components close := by
  rw [names_iff]
  constructor
  · rintro (rfl | ⟨before, h⟩)
    · exact List.suffix_refl _
    · refine ⟨before.splitOn '.', ?_⟩
      rw [components, components, ← h, List.splitOn_append_cons_self]
  · rintro ⟨front, h⟩
    by_cases hfront : front = []
    · rw [hfront, List.nil_append] at h
      exact .inl (components_injective h.symm)
    · refine .inr ⟨['.'].intercalate front, ?_⟩
      have hlabel : components label ≠ [] := List.splitOn_ne_nil '.' _
      rw [← intercalate_components label, ← intercalate_append hfront hlabel, h,
        intercalate_components]

example : components "" = [[]] ∧ components ".a..b" = [[], ['a'], [], ['b']] := by decide

/-! ## By bytes -/

namespace Offsets

open Text.Utf8

variable {b front tail : List UInt8} {x y : UInt8}

theorem byteBefore?_append (front tail : List UInt8) (x : UInt8) :
    byteBefore? (front ++ x :: tail) tail.length = some x := by
  have hlength : (front ++ x :: tail).length = front.length + 1 + tail.length := by
    rw [List.length_append, List.length_cons]
    omega
  have hoffset : front.length + 1 + tail.length - tail.length - 1 = front.length := by omega
  rw [byteBefore?, hlength, if_pos (by omega), hoffset, List.getElem?_append_right (Nat.le_refl _),
    Nat.sub_self, List.getElem?_cons_zero]

theorem exists_byte_before (h : tail <:+ b) (hne : b ≠ tail) :
    ∃ front x, b = front ++ x :: tail := by
  obtain ⟨more, rfl⟩ := h
  obtain rfl | ⟨front, x, rfl⟩ := List.eq_nil_or_concat more
  · exact absurd rfl hne
  · exact ⟨front, x, by rw [List.concat_eq_append, List.append_assoc, List.singleton_append]⟩

theorem cons_suffix_append_iff : y :: tail <:+ front ++ x :: tail ↔ x = y := by
  constructor
  · intro h
    have hsame := List.suffix_of_suffix_length_le h (List.suffix_append front (x :: tail))
      (Nat.le_refl _)
    exact (List.cons.inj (hsame.eq_of_length rfl)).1.symm
  · rintro rfl
    exact List.suffix_append _ _

/-- The byte that is looked at is always there. -/
theorem endsDotted?_eq (b tail : List UInt8) :
    endsDotted? b tail = some (decide (b = tail ∨ '.'.toUInt8 :: tail <:+ b)) := by
  unfold endsDotted?
  by_cases heq : b = tail
  · rw [if_pos heq, decide_eq_true (.inl heq)]
  rw [if_neg heq]
  simp only [heq, false_or]
  by_cases hsuffix : tail <:+ b
  · obtain ⟨front, x, rfl⟩ := exists_byte_before hsuffix heq
    have hlt : tail.length < (front ++ x :: tail).length := by simp; omega
    rw [if_pos ⟨hlt, List.isSuffixOf_iff_suffix.2 hsuffix⟩, byteBefore?_append, Option.map_some,
      beq_eq_decide]
    exact congrArg some (decide_eq_decide.2 cons_suffix_append_iff.symm)
  · have hends : ¬('.'.toUInt8 :: tail <:+ b) := fun h =>
      hsuffix ((List.suffix_cons _ tail).trans h)
    rw [if_neg fun h => hsuffix (List.isSuffixOf_iff_suffix.1 h.2), decide_eq_false hends]

theorem bytes_dot_cons (s : List Char) : bytes ('.' :: s) = '.'.toUInt8 :: bytes s := rfl

/-- By bytes a label names another one just if it does. -/
theorem names?_eq (close label : String) : names? close label = some (names close label) := by
  have h : names close label = true ↔ bytes close.toList = bytes label.toList ∨
      '.'.toUInt8 :: bytes label.toList <:+ bytes close.toList := by
    rw [names_iff, ← bytes_dot_cons, bytes_suffix_iff, bytes_injective.eq_iff, String.toList_inj]
  rw [names?, endsDotted?_eq, Option.some.injEq, Bool.eq_iff_iff, decide_eq_true_iff, h]

end Offsets

/-! ## The order of labels -/

/-- Naming is what components tell, an order of the labels, and found by their bytes. -/
theorem names_order :
    (∀ close label, names close label = true ↔ components label <:+ components close) ∧
    IsPartialOrder String (fun close label => names close label = true) ∧
    ∀ close label, Offsets.names? close label = some (names close label) := by
  refine ⟨fun close label => names_iff_suffix, ?_, Offsets.names?_eq⟩
  simp only [names_iff_suffix]
  exact
    { refl := fun label => List.suffix_refl _
      trans := fun _ _ _ h h' => h'.trans h
      antisymm := fun _ _ h h' => components_injective (antisymm h' h) }

end TraceExplorer.Span
