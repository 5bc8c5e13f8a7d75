import TraceExplorer.Trace.Line

/-
  What the lines of a trace are. `Line.Reads` says it of the text of a line, one constructor for
  each kind: a line that names a machine is a record or a note, and any other is stray. A line
  reads as what `Line.ofString` makes of it and as nothing else (`ofString_eq_iff`).
-/

namespace TraceExplorer.Trace.Line

/-- The text without the spaces and line ends behind it. -/
def trimmed (line : String) : List Char :=
  Text.dropEndWhile (fun c => c == ' ' || c == '\r' || c == '\n') line.toList

/-- The line carries the identifier, with `body` behind it. -/
def Carries (line : String) (id : MachineId) (body : List Char) : Prop :=
  ∃ h, header? (trimmed line) = some h ∧ h.id.id? = some id ∧ h.body = body

inductive Reads (line : String) : Line → Prop where
  | stray (h : ∀ id body, ¬ Carries line id body) :
      Reads line (.stray (String.ofList (trimmed line)))
  | note {id : MachineId} {body : List Char} (h : Carries line id body)
      (hnone : record? body = none) : Reads line (.note id (String.ofList (takeMark body).2))
  | record {id : MachineId} {body : List Char} {r : Record} (h : Carries line id body)
      (hrecord : record? body = some r) : Reads line (.record id r)

theorem Carries.ofString_eq {line : String} {id : MachineId} {body : List Char}
    (h : Carries line id body) :
    ofString line =
      (record? body).elim (.note id (String.ofList (takeMark body).2)) (.record id) := by
  obtain ⟨header, hheader, hid, rfl⟩ := h
  unfold trimmed at hheader
  unfold ofString
  simp only [hheader, hid]
  cases record? header.body with
  | none | some => rfl

theorem ofString_eq_stray {line : String} (h : ∀ id body, ¬ Carries line id body) :
    ofString line = .stray (String.ofList (trimmed line)) := by
  cases hheader : header? (trimmed line) with
  | none =>
    unfold trimmed at hheader
    unfold ofString
    simp only [hheader]
    rfl
  | some header =>
    cases hid : header.id.id? with
    | none =>
      unfold trimmed at hheader
      unfold ofString
      simp only [hheader, hid]
      rfl
    | some id => exact absurd ⟨header, hheader, hid, rfl⟩ (h id header.body)

theorem reads_ofString (line : String) : Reads line (ofString line) := by
  by_cases h : ∃ id body, Carries line id body
  · obtain ⟨id, body, h⟩ := h
    rw [h.ofString_eq]
    cases hr : record? body with
    | none => exact .note h hr
    | some r => exact .record h hr
  · have h : ∀ id body, ¬ Carries line id body := fun id body hc => h ⟨id, body, hc⟩
    rw [ofString_eq_stray h]
    exact .stray h

theorem ofString_eq_iff {line : String} {l : Line} : ofString line = l ↔ Reads line l := by
  constructor
  · intro h
    exact h ▸ reads_ofString line
  · intro h
    cases h with
    | stray h => exact ofString_eq_stray h
    | note h hnone => rw [h.ofString_eq, hnone, Option.elim_none]
    | record h hrecord => rw [h.ofString_eq, hrecord, Option.elim_some]

end TraceExplorer.Trace.Line
