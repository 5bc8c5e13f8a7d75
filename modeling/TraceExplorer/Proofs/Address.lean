import TraceExplorer.Address
import TraceExplorer.Proofs.MachineId
import TraceExplorer.Proofs.Text.Trim

/-
  The text of an address is read back (`parse_text`): an identifier ends in a bracket, so a raw
  mark is there just if the address has one, and there are no blanks at either end.
-/

namespace TraceExplorer.Address

theorem splitRaw_rawMark (s : List Char) : splitRaw (s ++ rawMark) = (s, true) := by
  have hmark : rawMark.isSuffixOf (s ++ rawMark) = true :=
    List.isSuffixOf_iff_suffix.2 (List.suffix_append s rawMark)
  unfold splitRaw
  rw [if_pos hmark, List.length_append, Nat.add_sub_cancel, List.take_left]

theorem getLast?_of_rawMark_suffix {s : List Char} (h : rawMark <:+ s) : s.getLast? = some 'w' := by
  obtain ⟨front, rfl⟩ := h
  rw [List.getLast?_append_of_ne_nil front (by decide)]
  rfl

theorem splitRaw_concat {s : List Char} {c : Char} (hc : c ≠ 'w') :
    splitRaw (s ++ [c]) = (s ++ [c], false) := by
  unfold splitRaw
  refine if_neg fun hmark => ?_
  have hlast := getLast?_of_rawMark_suffix (List.isSuffixOf_iff_suffix.1 hmark)
  rw [List.getLast?_concat] at hlast
  exact hc (Option.some.inj hlast)

/-- The characters of an address without the sign in front. -/
def body (a : Address) : List Char := a.id.toList ++ if a.raw then rawMark else []

theorem toList_text (a : Address) : a.text.toList = '#' :: a.body := by
  unfold text body
  rw [String.toList_append, String.toList_append]
  cases a.raw <;> simp

theorem body_ne_nil {a : Address} {mid : MachineId} (h : MachineId.decode a.id = .ok mid) :
    a.body ≠ [] := by
  obtain ⟨s, hs⟩ := MachineId.exists_concat_of_read? (MachineId.decode_eq_ok_iff.1 h)
  simp [body, hs]

theorem splitRaw_body {a : Address} {mid : MachineId} (h : MachineId.decode a.id = .ok mid) :
    splitRaw a.body = (a.id.toList, a.raw) := by
  unfold body
  cases a.raw with
  | true => exact splitRaw_rawMark _
  | false =>
    obtain ⟨s, hs⟩ := MachineId.exists_concat_of_read? (MachineId.decode_eq_ok_iff.1 h)
    rw [if_neg Bool.false_ne_true, List.append_nil, hs]
    exact splitRaw_concat (by decide)

theorem trim_text {a : Address} {mid : MachineId} (h : MachineId.decode a.id = .ok mid) :
    Text.trim a.text.toList = a.text.toList := by
  obtain ⟨s, hs⟩ := MachineId.exists_concat_of_read? (MachineId.decode_eq_ok_iff.1 h)
  rw [toList_text]
  refine Text.trim_eq (fun c hc => ?_) (fun c hc => ?_)
  · obtain rfl := Option.some.inj hc
    decide
  · have hlast : ('#' :: a.body).getLast? = some (if a.raw then 'w' else ')') := by
      rw [body, hs]
      cases a.raw with
      | true =>
        rw [if_pos rfl, if_pos rfl, ← List.cons_append, List.getLast?_append]
        rfl
      | false =>
        rw [if_neg Bool.false_ne_true, if_neg Bool.false_ne_true, List.append_nil,
          ← List.cons_append]
        exact List.getLast?_concat
    rw [hlast] at hc
    obtain rfl := Option.some.inj hc
    cases a.raw <;> decide

/-- The text of an address is read as the address. -/
theorem parse_text {a : Address} {mid : MachineId} (h : MachineId.decode a.id = .ok mid) :
    parse a.text = .ok (some a) := by
  have hbody : a.body.isEmpty = false := by simpa using body_ne_nil h
  unfold parse
  rw [trim_text h, toList_text]
  simp only [dropHash, hbody, splitRaw_body h, String.ofList_toList, h]
  rfl

end TraceExplorer.Address
