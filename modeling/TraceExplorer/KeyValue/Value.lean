import TraceExplorer.Json.Basic
import TraceExplorer.KeyValue.Elements
import TraceExplorer.Number.Real

/-
  What the text of a value means: a list in brackets, an integer, a truth value, a number, or
  else itself as a string.
-/

namespace TraceExplorer.KeyValue

/-- The spellings of a truth value. -/
def truth? (s : List Char) : Option Bool :=
  let w := String.ofList s
  if w ∈ ["t", "T", "true", "TRUE", "True"] then some true
  else if w ∈ ["f", "F", "false", "FALSE", "False"] then some false
  else none

/-- The meaning of a text that is no list. -/
def scalar (s : List Char) : Json :=
  match Number.integer? s with
  | some n => .int n
  | none =>
    match truth? s with
    | some b => .bool b
    | none =>
      match Number.real? s with
      | some x => .real x
      | none => .str (String.ofList s)

/-- The text between brackets at both ends. -/
def body? : List Char → Option (List Char)
  | '[' :: s => if s.getLast? == some ']' then some s.dropLast else none
  | _ => none

theorem length_lt_of_body {s b : List Char} (h : body? s = some b) : b.length < s.length := by
  unfold body? at h
  split at h
  · split at h
    · obtain rfl := Option.some.inj h
      rw [List.length_dropLast, List.length_cons]
      omega
    · simp at h
  · simp at h

/-- The meaning of a text; `none` where a list in it has no reading. -/
def value? (s : List Char) : Option Json :=
  match _ : body? s with
  | none => some (scalar s)
  | some b =>
    match _ : elements? b with
    | none => none
    | some es => (es.attach.mapM fun e => value? e.1).map .arr
termination_by s.length
decreasing_by
  have := length_lt_of_body ‹body? s = some b›
  have := length_le_of_mem_elements ‹elements? b = some es› e.2
  omega

end TraceExplorer.KeyValue
