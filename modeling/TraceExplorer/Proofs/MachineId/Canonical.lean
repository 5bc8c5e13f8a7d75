import TraceExplorer.Json.Decode
import TraceExplorer.Proofs.MachineId
import TraceExplorer.Proofs.Number.Decimal

/-
  The texts of an identifier. `Written` is their grammar, three words in decimal with brackets and
  a colon, and reading takes just these texts (`read?_eq_some_iff`). An identifier has many of
  them, which differ in the zeros in front of their numbers, and its canonical text is what is
  left of each without these zeros (`trimZeros_written`).
-/

namespace TraceExplorer.MachineId

open CharClass (isDecimalDigit)
open Number (Writes LeadingZero trimZeros)

variable {s t : String} {cs rest root parent mach : List Char} {id : MachineId}

/-! ## The grammar -/

/-- The text is three words in decimal, the second and the third in brackets with a colon between
them, and nothing else. -/
def Written (cs : List Char) (id : MachineId) : Prop :=
  ∃ root parent mach, cs = root ++ '(' :: (parent ++ ':' :: (mach ++ [')'])) ∧
    Writes root id.root ∧ Writes parent id.parent ∧ Writes mach id.mach

theorem digitRun?_writes {ds : List Char} {n : UInt64} {c : Char} (h : Writes ds n)
    (hc : isDecimalDigit c = false) : digitRun? (ds ++ c :: rest) = some (ds, c :: rest) :=
  digitRun?_append h.ne_nil
    (fun d hd => CharClass.isDecimalDigit_of_isDigit (h.digits d hd)) hc

theorem shape?_written (hroot : Writes root id.root) (hparent : Writes parent id.parent)
    (hmach : Writes mach id.mach) :
    shape? (root ++ '(' :: (parent ++ ':' :: (mach ++ ')' :: rest))) =
      some ⟨root, parent, mach, rest⟩ := by
  have hopen : isDecimalDigit '(' = false := by decide
  have hcolon : isDecimalDigit ':' = false := by decide
  have hclose : isDecimalDigit ')' = false := by decide
  unfold shape?
  simp only [digitRun?_writes hroot hopen, digitRun?_writes hparent hcolon,
    digitRun?_writes hmach hclose]

theorem Shape.id?_eq_some_iff {x : Shape} : x.id? = some id ↔
    Writes x.root id.root ∧ Writes x.parent id.parent ∧ Writes x.mach id.mach := by
  rw [← Number.wordDigits?_eq_some_iff, ← Number.wordDigits?_eq_some_iff,
    ← Number.wordDigits?_eq_some_iff]
  unfold id?
  cases Number.wordDigits? x.root with
  | none => simp
  | some root =>
    cases Number.wordDigits? x.parent with
    | none => simp
    | some parent =>
      cases Number.wordDigits? x.mach with
      | none => simp
      | some mach =>
        cases id
        simp

/-- Reading takes the texts of the grammar, and no others. -/
theorem read?_eq_some_iff : read? cs = some id ↔ Written cs id := by
  constructor
  · intro h
    unfold read? at h
    split at h
    · rename_i x hshape
      split at h
      · rename_i hrest
        have hcs := eq_of_shape? hshape
        rw [List.isEmpty_iff.1 hrest] at hcs
        exact ⟨x.root, x.parent, x.mach, hcs, Shape.id?_eq_some_iff.1 h⟩
      · cases h
    · cases h
  · rintro ⟨root, parent, mach, rfl, hroot, hparent, hmach⟩
    have hid : Shape.id? ⟨root, parent, mach, []⟩ = some id :=
      Shape.id?_eq_some_iff.2 ⟨hroot, hparent, hmach⟩
    unfold read?
    simp only [shape?_written hroot hparent hmach, List.isEmpty_nil, if_true, hid]

theorem decode_eq_ok_iff_written : decode s = .ok id ↔ Written s.toList id := by
  rw [decode_eq_ok_iff, read?_eq_some_iff]

theorem decode_eq_error_iff {fault : Fault} : decode s = .error fault ↔
    fault = .malformedId s ∧ ∀ id, ¬ Written s.toList id := by
  have hnone : read? s.toList = none ↔ ∀ id, ¬ Written s.toList id := by
    rw [Option.eq_none_iff_forall_ne_some]
    simp only [ne_eq, read?_eq_some_iff]
  rw [← hnone]
  unfold decode
  cases read? s.toList with
  | none => simp [eq_comm]
  | some other => simp

/-! ## Zeros in front -/

theorem trimZeros_writes {ds : List Char} {n : UInt64} (h : Writes ds n)
    (hrest : rest.head?.any Char.isDigit = false) :
    trimZeros false (ds ++ rest) = Nat.toDigits 10 n.toNat ++ trimZeros true rest := by
  rw [Number.trimZeros_digits h.ne_nil h.digits hrest, h.value]

theorem trimZeros_sign {c : Char} (hc : c.isDigit = false) (hzero : c ≠ '0') :
    trimZeros true (c :: cs) = c :: trimZeros false cs := by
  rw [trimZeros, if_neg fun h => hzero h.2.1, hc]

/-- Without the zeros in front of its numbers a text of an identifier is the canonical one. -/
theorem trimZeros_written (h : Written cs id) : trimZeros false cs = id.chars := by
  obtain ⟨root, parent, mach, rfl, hroot, hparent, hmach⟩ := h
  calc
    trimZeros false (root ++ '(' :: (parent ++ ':' :: (mach ++ [')'])))
      = Nat.toDigits 10 id.root.toNat ++
          '(' :: trimZeros false (parent ++ ':' :: (mach ++ [')'])) := by
        rw [trimZeros_writes hroot rfl, trimZeros_sign rfl (by decide)]
    _ = Nat.toDigits 10 id.root.toNat ++ '(' :: (Nat.toDigits 10 id.parent.toNat ++
          ':' :: trimZeros false (mach ++ [')'])) := by
        rw [trimZeros_writes hparent rfl, trimZeros_sign rfl (by decide)]
    _ = id.chars := by
        rw [trimZeros_writes hmach rfl, trimZeros_sign rfl (by decide)]
        simp [trimZeros, chars]

/-- The text without the zeros in front of its numbers. -/
def withoutZeros (s : String) : String := String.ofList (trimZeros false s.toList)

theorem text_eq_withoutZeros (h : decode s = .ok id) : id.text = withoutZeros s := by
  unfold text withoutZeros
  rw [trimZeros_written (decode_eq_ok_iff_written.1 h)]

example : withoutZeros "007(0:010)" = "7(0:10)" := by decide

theorem withoutZeros_eq_self_iff : withoutZeros s = s ↔ ¬ LeadingZero false s.toList := by
  rw [← Number.trimZeros_eq_self_iff]
  unfold withoutZeros
  rw [← String.toList_inj, String.toList_ofList]

/-! ## Texts and identifiers -/

/-- What a text is read as. -/
structure Reads (s : String) : Prop where
  ok_iff : ∀ id, decode s = .ok id ↔ Written s.toList id
  error_iff : ∀ fault, decode s = .error fault ↔
    fault = .malformedId s ∧ ∀ id, ¬ Written s.toList id
  text : ∀ id, decode s = .ok id → id.text = withoutZeros s
  text_iff : ∀ id, decode s = .ok id → (id.text = s ↔ ¬ LeadingZero false s.toList)
  same_iff : ∀ t a b, decode s = .ok a → decode t = .ok b →
    (a = b ↔ withoutZeros s = withoutZeros t)
  parse : parse s = decode s
  json : Json.asMachineId (.str s) = (decode s).mapError Json.DecodeFault.badId

/-- How an identifier is written and read again. -/
structure ReadsBack (id : MachineId) : Prop where
  text : decode id.text = .ok id
  parse : parse id.text = .ok id
  toJson : id.toJson = .str id.text
  json : Json.asMachineId id.toJson = .ok id
  json_iff : ∀ v, Json.asMachineId v = .ok id ↔ ∃ s, v = .str s ∧ decode s = .ok id

theorem asMachineId_str (s : String) :
    Json.asMachineId (.str s) = (decode s).mapError Json.DecodeFault.badId := by
  show Except.bind (.ok s) _ = _
  cases hs : decode s with
  | ok | error =>
    simp only [Except.bind, hs]
    rfl

theorem asMachineId_eq_ok_iff {v : Json} :
    Json.asMachineId v = .ok id ↔ ∃ s, v = .str s ∧ decode s = .ok id := by
  constructor
  · intro h
    cases v with
    | str s =>
      rw [asMachineId_str] at h
      refine ⟨s, rfl, ?_⟩
      cases hs : decode s with
      | ok other =>
        rw [hs] at h
        obtain rfl := Except.ok.inj h
        rfl
      | error fault =>
        rw [hs] at h
        cases h
    | null | bool | int | real | arr | obj => cases h
  · rintro ⟨s, rfl, hs⟩
    rw [asMachineId_str, hs]
    rfl

/-- Texts are read as the identifiers that they write, and identifiers are read back. -/
theorem reads_readsBack (s : String) (id : MachineId) : Reads s ∧ ReadsBack id := by
  constructor
  · exact
      { ok_iff := fun _ => decode_eq_ok_iff_written
        error_iff := fun _ => decode_eq_error_iff
        text := fun _ => text_eq_withoutZeros
        text_iff := fun id hid => by rw [text_eq_withoutZeros hid, withoutZeros_eq_self_iff]
        same_iff := fun t a b ha hb => by
          rw [← text_eq_withoutZeros ha, ← text_eq_withoutZeros hb, text_injective.eq_iff]
        parse := rfl
        json := asMachineId_str s }
  · exact
      { text := decode_text id
        parse := decode_text id
        toJson := rfl
        json := asMachineId_eq_ok_iff.2 ⟨id.text, rfl, decode_text id⟩
        json_iff := fun _ => asMachineId_eq_ok_iff }

end TraceExplorer.MachineId
