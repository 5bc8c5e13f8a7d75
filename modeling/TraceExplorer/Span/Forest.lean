import TraceExplorer.Json.Basic

/-
  Spans of rows, nested into one another. A span that was never closed, or whose close left it
  no row of its own, is broken: it holds no row and cannot be folded away.
-/

namespace TraceExplorer

/-- A span; parent and children are given by their numbers. -/
structure Span where
  label : String
  /-- The row of the operation that opened it. -/
  start : Nat
  /-- The last row inside, once it is closed behind a row. -/
  last : Option Nat
  parent : Option Nat
  children : List Nat
deriving Repr, DecidableEq, Inhabited

namespace Span

def isBroken (s : Span) : Bool :=
  match s.last with
  | some last => last < s.start
  | none => true

def contains (s : Span) (row : Nat) : Bool :=
  match s.last with
  | some last => s.start ≤ row && row ≤ last
  | none => false

/-- The first and last row that folding hides: all but the one that opened the span. -/
def hidden? (s : Span) : Option (Nat × Nat) :=
  match s.last with
  | some last => if s.start < last then some (s.start + 1, last) else none
  | none => none

def hides (s : Span) (row : Nat) : Bool :=
  match s.hidden? with
  | some (first, last) => first ≤ row && row ≤ last
  | none => false

def toJson (s : Span) : Json :=
  .obj [("label", .str s.label), ("start", .nat s.start), ("end", .optional .nat s.last),
    ("parent", .optional .nat s.parent), ("children", .arr (s.children.map .nat))]

/-- All spans of a log, in the order of opening, and those without a parent. -/
structure Forest where
  spans : List Span
  roots : List Nat
deriving Repr, DecidableEq, Inhabited

namespace Forest

def empty : Forest := ⟨[], []⟩

def span? (f : Forest) (n : Nat) : Option Span := f.spans[n]?

/-- The broken spans with their numbers. -/
def broken (f : Forest) : List (Nat × Span) :=
  (f.spans.zipIdx.filter (·.1.isBroken)).map fun e => (e.2, e.1)

/-- The first of the given spans that contains the row. -/
def containing? (f : Forest) (row : Nat) (ns : List Nat) : Option Nat :=
  ns.find? fun n => (f.span? n).any (·.contains row)

/-- Descends through `height` levels of spans that contain the row, `found` being the last. -/
def innermostBelow (f : Forest) (row : Nat) : Nat → Nat → Nat
  | 0, found => found
  | height + 1, found =>
    match f.containing? row ((f.span? found).elim [] (·.children)) with
    | some n => innermostBelow f row height n
    | none => found

/-- The last span met on the way from the roots down through spans that contain the row. -/
def innermost? (f : Forest) (row : Nat) : Option Nat :=
  (f.containing? row f.roots).map (f.innermostBelow row f.spans.length)

def toJson (f : Forest) : Json :=
  .obj [("frames", .arr (f.spans.map Span.toJson)), ("roots", .arr (f.roots.map .nat))]

end Forest

end Span

end TraceExplorer
