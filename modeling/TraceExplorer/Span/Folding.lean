import TraceExplorer.Span.Forest

/-
  Spans folded away. Folding a span hides its rows but the first; a span inside keeps its own
  state.
-/

namespace TraceExplorer.Span

/-- The numbers of the folded spans. -/
abbrev Folding := Dict Nat Unit

namespace Folding

/-- Folds a span that is there and not broken. -/
def fold (x : Folding) (f : Forest) (n : Nat) : Folding × Bool :=
  match f.span? n with
  | some s => if s.isBroken then (x, false) else (x.insert n (), true)
  | none => (x, false)

def unfold (x : Folding) (n : Nat) : Folding × Bool := (x.erase n, x.contains n)

def isFolded (x : Folding) (n : Nat) : Bool := x.contains n

def isHidden (x : Folding) (f : Forest) (row : Nat) : Bool :=
  x.keys.any fun n => (f.span? n).any (·.hides row)

/-- The rows of a log of `length` rows that are shown. -/
def visible (x : Folding) (f : Forest) (length : Nat) : List Nat :=
  (List.range length).filter fun row => !x.isHidden f row

def toJson (x : Folding) : Json := .obj [("collapsed", .arr (x.keys.map .nat))]

end Folding

end TraceExplorer.Span
