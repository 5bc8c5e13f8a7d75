import TraceExplorer.Text.Utf8

/-
  Labels of spans: dotted names. A close names a span by its label, alone or behind more
  components. `Offsets` finds that out by the bytes of the two labels, where it looks at one byte
  by its offset.
-/

namespace TraceExplorer.Span

/-- The label `close` names a span labelled `label`: `a.b.c` names `c` and `b.c`, not `bc`. -/
def names (close label : String) : Bool :=
  close == label || ('.' :: label.toList).isSuffixOf close.toList

/-- What stands between the dots of a label. The empty label has one component, the empty one. -/
def components (label : String) : List (List Char) := label.toList.splitOn '.'

namespace Offsets

open Text.Utf8 (bytes)

/-- The byte in front of the last `n`, which fails if there are no more than these. -/
def byteBefore? (b : List UInt8) (n : Nat) : Option UInt8 :=
  if n < b.length then b[b.length - n - 1]? else none

/-- One text ends in another one with a dot in front of it, or they are the same. -/
def endsDotted? (b tail : List UInt8) : Option Bool :=
  if b = tail then some true
  else if tail.length < b.length ∧ tail.isSuffixOf b then
    (byteBefore? b tail.length).map (· == '.'.toUInt8)
  else some false

def names? (close label : String) : Option Bool :=
  endsDotted? (bytes close.toList) (bytes label.toList)

end Offsets

end TraceExplorer.Span
