import TraceExplorer.Proofs.Address
import TraceExplorer.Proofs.MachineId.Canonical

/-
  What a text is as an address. `Parses` has one constructor for each answer, and reading gives
  that answer and no other (`parse_eq_iff`). What is read is what stands between the blanks
  around a text, behind one sign in front (`HasBody`).
-/

namespace TraceExplorer.Address

open Text (Trims)
open CharClass (isBlank)

variable {s t : String} {cs body : List Char} {a b : Address} {mid : MachineId}
  {r : Except Fault (Option Address)}

/-! ## The body of a text -/

/-- What is left of a text without the blanks around it and one sign in front, if it has one. -/
def HasBody (cs body : List Char) : Prop :=
  Trims cs ('#' :: body) ∨ Trims cs body ∧ body.head? ≠ some '#'

theorem hasBody_iff : HasBody cs body ↔ dropHash (Text.trim cs) = body := by
  unfold HasBody
  rw [← Text.trim_eq_iff, ← Text.trim_eq_iff]
  unfold dropHash
  split
  · rename_i rest htrim
    rw [htrim]
    constructor
    · rintro (h | ⟨rfl, h⟩)
      · exact (List.cons.inj h).2
      · exact absurd rfl h
    · rintro rfl
      exact .inl rfl
  · rename_i hsign
    constructor
    · rintro (h | ⟨h, _⟩)
      · exact absurd h (hsign body)
      · exact h
    · rintro rfl
      refine .inr ⟨rfl, fun h => ?_⟩
      obtain ⟨rest, hrest⟩ := List.head?_eq_some_iff.1 h
      exact hsign rest hrest

theorem hasBody_nil_iff : HasBody cs [] ↔ Trims cs [] ∨ Trims cs ['#'] := by
  unfold HasBody
  simp [or_comm]

theorem exists_hasBody (cs : List Char) : ∃ body, HasBody cs body := ⟨_, hasBody_iff.2 rfl⟩

/-! ## The mark at the end -/

/-- A raw mark is taken off if there is one. -/
theorem splitRaw_eq_iff {id : List Char} {raw : Bool} : splitRaw body = (id, raw) ↔
    raw = true ∧ body = id ++ rawMark ∨ raw = false ∧ body = id ∧ ¬ rawMark <:+ body := by
  by_cases hmark : rawMark <:+ body
  · obtain ⟨front, rfl⟩ := hmark
    rw [splitRaw_rawMark, Prod.mk.injEq, List.append_cancel_right_eq]
    simp [and_comm, eq_comm]
  · have hsplit : splitRaw body = (body, false) :=
      if_neg fun h => hmark (List.isSuffixOf_iff_suffix.1 h)
    have hother : body ≠ id ++ rawMark := fun h => hmark ⟨id, h.symm⟩
    rw [hsplit, Prod.mk.injEq]
    simp [hmark, hother, and_comm, eq_comm]

/-! ## The answers -/

/-- What a text is read as: nothing, an address, or a malformed identifier, which is what stands
before the raw mark if there is one. -/
inductive Parses (s : String) : Except Fault (Option Address) → Prop where
  | nothing (h : Trims s.toList [] ∨ Trims s.toList ['#']) : Parses s (.ok none)
  | address {a : Address} {mid : MachineId} (hbody : HasBody s.toList a.body)
      (hid : MachineId.decode a.id = .ok mid) : Parses s (.ok (some a))
  | malformed {body : List Char} {id : String} (hbody : HasBody s.toList body) (hne : body ≠ [])
      (hnone : ∀ (a : Address) mid, MachineId.decode a.id = .ok mid → body ≠ a.body)
      (hid : body = id.toList ++ rawMark ∨ body = id.toList ∧ ¬ rawMark <:+ body) :
      Parses s (.error (.malformedId id))

theorem parse_of_hasBody (h : HasBody s.toList body) (hne : body ≠ []) {id : String} {raw : Bool}
    (hsplit : splitRaw body = (id.toList, raw)) :
    parse s = (MachineId.decode id).map fun _ => some ⟨id, raw⟩ := by
  unfold parse
  simp only [hasBody_iff.1 h, hsplit, String.ofList_toList]
  rw [if_neg (by simpa using hne)]

theorem parse_of_hasBody_nil (h : HasBody s.toList []) : parse s = .ok none := by
  unfold parse
  rw [hasBody_iff.1 h]
  rfl

theorem parses_parse (s : String) : Parses s (parse s) := by
  obtain ⟨body, hbody⟩ := exists_hasBody s.toList
  by_cases hne : body = []
  · subst hne
    rw [parse_of_hasBody_nil hbody]
    exact .nothing (hasBody_nil_iff.1 hbody)
  · obtain ⟨⟨cs, raw⟩, hsplit⟩ : ∃ split, splitRaw body = split := ⟨_, rfl⟩
    obtain ⟨id, rfl⟩ : ∃ id : String, cs = id.toList := ⟨_, String.toList_ofList.symm⟩
    rw [parse_of_hasBody hbody hne hsplit]
    cases hid : MachineId.decode id with
    | ok mid =>
      have hform : body = (Address.mk id raw).body := by
        obtain ⟨rfl, h⟩ | ⟨rfl, h, _⟩ := splitRaw_eq_iff.1 hsplit
        · exact h
        · exact h.trans (List.append_nil _).symm
      exact .address (hform ▸ hbody) hid
    | error fault =>
      obtain ⟨rfl, _⟩ := MachineId.decode_eq_error_iff.1 hid
      refine .malformed hbody hne (fun a mid hmid => ?_) ?_
      · rintro rfl
        rw [splitRaw_body hmid, Prod.mk.injEq, String.toList_inj] at hsplit
        obtain ⟨rfl, rfl⟩ := hsplit
        cases hmid.symm.trans hid
      · obtain ⟨_, h⟩ | ⟨_, h⟩ := splitRaw_eq_iff.1 hsplit
        · exact .inl h
        · exact .inr h

theorem Parses.parse_eq (h : Parses s r) : parse s = r := by
  cases h with
  | nothing h => exact parse_of_hasBody_nil (hasBody_nil_iff.2 h)
  | @address a mid hbody hid =>
    rw [parse_of_hasBody hbody (body_ne_nil hid) (splitRaw_body hid), hid]
    rfl
  | @malformed body id hbody hne hnone hform =>
    have herror : MachineId.decode id = .error (.malformedId id) := by
      cases hid : MachineId.decode id with
      | error fault => rw [(MachineId.decode_eq_error_iff.1 hid).1]
      | ok mid =>
        obtain h | ⟨h, _⟩ := hform
        · exact absurd h (hnone ⟨id, true⟩ mid hid)
        · exact absurd (h.trans (List.append_nil _).symm) (hnone ⟨id, false⟩ mid hid)
    obtain h | ⟨h, hmark⟩ := hform
    · rw [parse_of_hasBody hbody hne (splitRaw_eq_iff.2 (.inl ⟨rfl, h⟩)), herror]
      rfl
    · rw [parse_of_hasBody hbody hne (splitRaw_eq_iff.2 (.inr ⟨rfl, h, hmark⟩)), herror]
      rfl

/-- A text is read as what it is, and as nothing else. -/
theorem parse_eq_iff : parse s = r ↔ Parses s r := ⟨fun h => h ▸ parses_parse s, Parses.parse_eq⟩

/-! ## Texts and addresses -/

theorem parse_eq_ok_some_iff : parse s = .ok (some a) ↔
    HasBody s.toList a.body ∧ ∃ mid, MachineId.decode a.id = .ok mid := by
  rw [parse_eq_iff]
  constructor
  · rintro ⟨⟩
    case address hbody hid => exact ⟨hbody, _, hid⟩
  · rintro ⟨hbody, mid, hid⟩
    exact .address hbody hid

/-- How a text is read as an address, and what the text of an address is read as. -/
structure Reads (s : String) : Prop where
  eq_iff : ∀ r, parse s = r ↔ Parses s r
  surrounded : ∀ before after : String, (∀ c ∈ before.toList, isBlank c = true) →
    (∀ c ∈ after.toList, isBlank c = true) → parse (before ++ s ++ after) = parse s
  readsBack : ∀ a, parse s = .ok (some a) → parse a.text = .ok (some a)
  text_iff : ∀ t a b, parse s = .ok (some a) → parse t = .ok (some b) →
    (a.text = b.text ↔ a.id = b.id ∧ a.raw = b.raw)

theorem parse_surrounded {before after : String} (hbefore : ∀ c ∈ before.toList, isBlank c = true)
    (hafter : ∀ c ∈ after.toList, isBlank c = true) : parse (before ++ s ++ after) = parse s := by
  unfold parse
  rw [String.toList_append, String.toList_append, Text.trim_surrounded hbefore hafter]

theorem parse_text_of_parse (h : parse s = .ok (some a)) : parse a.text = .ok (some a) := by
  obtain ⟨_, mid, hmid⟩ := parse_eq_ok_some_iff.1 h
  exact parse_text hmid

theorem text_eq_iff (ha : parse s = .ok (some a)) (hb : parse t = .ok (some b)) :
    a.text = b.text ↔ a.id = b.id ∧ a.raw = b.raw := by
  constructor
  · intro h
    have hread := parse_text_of_parse ha
    rw [h, parse_text_of_parse hb] at hread
    obtain rfl : b = a := Option.some.inj (Except.ok.inj hread)
    exact ⟨rfl, rfl⟩
  · rintro ⟨hid, hraw⟩
    rw [text, text, hid, hraw]

theorem reads_parse (s : String) : Reads s where
  eq_iff _ := parse_eq_iff
  surrounded _ _ := parse_surrounded
  readsBack _ := parse_text_of_parse
  text_iff _ _ _ := text_eq_iff

end TraceExplorer.Address
