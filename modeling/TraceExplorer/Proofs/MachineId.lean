import TraceExplorer.Fault
import TraceExplorer.Proofs.Text.Runs
import Mathlib.Logic.Function.Defs

/-
  The canonical text of an identifier is read back, whatever text stands behind it
  (`shape?_chars`). So the identifier of a canonical text is found (`find?_chars`), a canonical
  text decodes (`decode_text`), and no two identifiers have one text (`text_injective`).
  The order of identifiers is that of their machines from the root on (`compare_eq_lt_iff`).
-/

namespace TraceExplorer

namespace Number

theorem digits?_toDigits (n : Nat) : digits? (Nat.toDigits 10 n) = some n := by
  have hne : (Nat.toDigits 10 n).isEmpty = false := List.isEmpty_eq_false_iff.2 Nat.toDigits_ne_nil
  have hall : (Nat.toDigits 10 n).all Char.isDigit = true :=
    List.all_eq_true.2 fun _ hc => Nat.isDigit_of_mem_toDigits (by omega) (by omega) hc
  unfold digits?
  rw [hne, hall, if_neg Bool.false_ne_true, if_pos rfl,
    Nat.ofDigitChars_toDigits (by omega) (by omega)]

theorem wordDigits?_toDigits (n : UInt64) : wordDigits? (Nat.toDigits 10 n.toNat) = some n := by
  have hlt : n.toNat < UInt64.size := n.toNat_lt_size
  unfold wordDigits?
  rw [digits?_toDigits, Option.bind_some, word64?, if_pos hlt, UInt64.ofNat_toNat]

end Number

namespace CharClass

theorem isDecimalDigit_of_isDigit {c : Char} (h : c.isDigit = true) : isDecimalDigit c = true := by
  have hc : 0x30 ≤ c.toNat ∧ c.toNat ≤ 0x39 := by
    simpa [Char.isDigit, UInt32.le_iff_toNat_le] using h
  unfold isDecimalDigit decimalDigitRanges
  rw [inRanges, if_neg (Nat.not_lt.2 hc.1), if_pos hc.2]

end CharClass

namespace MachineId

open CharClass (isDecimalDigit)

/-- A run of digits ends at the first character that is none. -/
theorem digitRun?_append {ds s : List Char} {c : Char} (hne : ds ≠ [])
    (hds : ∀ d ∈ ds, isDecimalDigit d = true) (hc : isDecimalDigit c = false) :
    digitRun? (ds ++ c :: s) = some (ds, c :: s) := by
  have hend : ∀ d ∈ (c :: s).head?, isDecimalDigit d = false := fun d hd => by
    rwa [← Option.some.inj hd]
  have hfull : ds.isEmpty = false := by simpa using hne
  unfold digitRun?
  simp only [Text.takeWhile_run hds hend, Text.dropWhile_run hds hend, hfull,
    Bool.false_eq_true, if_false]

theorem digitRun?_toDigits (n : Nat) {c : Char} (s : List Char) (hc : isDecimalDigit c = false) :
    digitRun? (Nat.toDigits 10 n ++ c :: s) = some (Nat.toDigits 10 n, c :: s) := by
  refine digitRun?_append Nat.toDigits_ne_nil (fun d hd => ?_) hc
  exact CharClass.isDecimalDigit_of_isDigit (Nat.isDigit_of_mem_toDigits (by omega) (by omega) hd)

theorem shape?_chars (id : MachineId) (rest : List Char) :
    shape? (id.chars ++ rest) = some ⟨Nat.toDigits 10 id.root.toNat,
      Nat.toDigits 10 id.parent.toNat, Nat.toDigits 10 id.mach.toNat, rest⟩ := by
  have hopen : isDecimalDigit '(' = false := by decide
  have hcolon : isDecimalDigit ':' = false := by decide
  have hclose : isDecimalDigit ')' = false := by decide
  unfold chars shape?
  simp only [List.append_assoc, List.cons_append, List.nil_append]
  simp only [digitRun?_toDigits _ _ hopen, digitRun?_toDigits _ _ hcolon,
    digitRun?_toDigits _ _ hclose]

theorem id?_digits (id : MachineId) (rest : List Char) :
    Shape.id? ⟨Nat.toDigits 10 id.root.toNat, Nat.toDigits 10 id.parent.toNat,
      Nat.toDigits 10 id.mach.toNat, rest⟩ = some id := by
  unfold Shape.id?
  simp only [Number.wordDigits?_toDigits]

theorem read?_chars (id : MachineId) : read? id.chars = some id := by
  have h := shape?_chars id []
  rw [List.append_nil] at h
  unfold read?
  simp only [h, List.isEmpty_nil, if_true]
  exact id?_digits id []

/-- The identifier of a canonical text is found in it. -/
theorem find?_chars (id : MachineId) : find? id.chars = some id := by
  have h := shape?_chars id []
  rw [List.append_nil] at h
  have hfirst : firstShape? id.chars = shape? id.chars := by
    cases hc : id.chars with
    | nil =>
      rw [hc] at h
      cases h
    | cons c s =>
      rw [hc] at h
      rw [firstShape?, h]
  unfold find?
  rw [hfirst, h, Option.bind_some]
  exact id?_digits id []

@[simp] theorem toList_text (id : MachineId) : id.text.toList = id.chars := String.toList_ofList

theorem decode_eq_ok_iff {s : String} {id : MachineId} :
    decode s = .ok id ↔ read? s.toList = some id := by
  unfold decode
  cases read? s.toList with
  | none => simp
  | some other => rw [Except.ok.injEq, Option.some.injEq]

theorem decode_text (id : MachineId) : decode id.text = .ok id := by
  rw [decode_eq_ok_iff, toList_text, read?_chars]

theorem text_injective : Function.Injective text := by
  intro a b h
  have hread : some a = some b := by
    rw [← read?_chars a, ← read?_chars b, ← toList_text, ← toList_text, h]
  exact Option.some.inj hread

/-! ## The form of an identifier -/

theorem eq_append_of_digitRun? {s ds rest : List Char} (h : digitRun? s = some (ds, rest)) :
    s = ds ++ rest := by
  unfold digitRun? at h
  simp only at h
  split at h
  · cases h
  · obtain ⟨rfl, rfl⟩ := Prod.mk.inj (Option.some.inj h)
    exact (List.takeWhile_append_dropWhile).symm

theorem eq_of_shape? {s : List Char} {x : Shape} (h : shape? s = some x) :
    s = x.root ++ '(' :: (x.parent ++ ':' :: (x.mach ++ ')' :: x.rest)) := by
  unfold shape? at h
  split at h
  · rename_i hroot
    split at h
    · rename_i hparent
      split at h
      · rename_i hmach
        obtain rfl := Option.some.inj h
        rw [eq_append_of_digitRun? hroot, eq_append_of_digitRun? hparent,
          eq_append_of_digitRun? hmach]
      · cases h
    · cases h
  · cases h

/-- An identifier ends in a bracket. -/
theorem exists_concat_of_read? {s : List Char} {id : MachineId} (h : read? s = some id) :
    ∃ t, s = t ++ [')'] := by
  unfold read? at h
  split at h
  · rename_i x hshape
    split at h
    · rename_i hrest
      rw [eq_of_shape? hshape, List.isEmpty_iff.1 hrest]
      exact ⟨x.root ++ '(' :: (x.parent ++ ':' :: x.mach), by simp⟩
    · cases h
  · cases h

/-! ## The order of identifiers -/

/-- `a` stands before `b` by root, then parent, then machine. -/
def Before (a b : MachineId) : Prop :=
  a.root < b.root ∨ a.root = b.root ∧
    (a.parent < b.parent ∨ a.parent = b.parent ∧ a.mach < b.mach)

theorem compare_eq_then (a b : MachineId) : compare a b =
    (compare a.root b.root).then ((compare a.parent b.parent).then (compare a.mach b.mach)) := rfl

theorem compare_eq_lt_iff {a b : MachineId} : compare a b = .lt ↔ a.Before b := by
  rw [compare_eq_then, Ordering.then_eq_lt, Ordering.then_eq_lt, Std.compare_eq_lt,
    Std.compare_eq_lt, Std.compare_eq_lt, Std.compare_eq_iff_eq, Std.compare_eq_iff_eq]
  exact Iff.rfl

theorem mach_eq_of_compare_eq {a b : MachineId} (h : compare a b = .eq) : a.mach = b.mach := by
  rw [compare_eq_then, Ordering.then_eq_eq, Ordering.then_eq_eq] at h
  exact Std.compare_eq_iff_eq.1 h.2.2

instance : Std.TransOrd MachineId :=
  inferInstanceAs (Std.TransCmp
    (compareLex (compareOn root) (compareLex (compareOn parent) (compareOn mach))))

end MachineId

end TraceExplorer
