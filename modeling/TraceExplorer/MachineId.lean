import TraceExplorer.CharClass.Basic
import TraceExplorer.Number.Unsigned

/-
  Identifiers of machines, written `root(parent:mach)`.
  `Shape` is the written form at the front of a text, its digits of any script; `read?` accepts
  a whole text in which they are ASCII digits of words.
-/

namespace TraceExplorer

open CharClass (isDecimalDigit)

/-- The machine `mach`, copied from the machine `parent`, in the run of the machine `root`. -/
structure MachineId where
  root : UInt64
  parent : UInt64
  mach : UInt64
deriving Repr, DecidableEq, Inhabited

namespace MachineId

/-- Identifiers are ordered by root, then parent, then machine. -/
instance : Ord MachineId where
  compare a b :=
    (compare a.root b.root).then ((compare a.parent b.parent).then (compare a.mach b.mach))

def chars (id : MachineId) : List Char :=
  Nat.toDigits 10 id.root.toNat ++ '(' :: Nat.toDigits 10 id.parent.toNat
    ++ ':' :: Nat.toDigits 10 id.mach.toNat ++ [')']

/-- The canonical text of an identifier. -/
def text (id : MachineId) : String := String.ofList id.chars

/-- An identifier at the front of a text: its three runs of digits, and the rest of the text. -/
structure Shape where
  root : List Char
  parent : List Char
  mach : List Char
  rest : List Char

/-- One or more digits at the front of a text, all of them, and the rest. -/
def digitRun? (s : List Char) : Option (List Char × List Char) :=
  let ds := s.takeWhile isDecimalDigit
  if ds.isEmpty then none else some (ds, s.dropWhile isDecimalDigit)

def shape? (s : List Char) : Option Shape :=
  match digitRun? s with
  | some (root, '(' :: s) =>
    match digitRun? s with
    | some (parent, ':' :: s) =>
      match digitRun? s with
      | some (mach, ')' :: rest) => some ⟨root, parent, mach, rest⟩
      | _ => none
    | _ => none
  | _ => none

/-- The identifier of a shape whose digits are words. -/
def Shape.id? (x : Shape) : Option MachineId :=
  match Number.wordDigits? x.root, Number.wordDigits? x.parent, Number.wordDigits? x.mach with
  | some root, some parent, some mach => some ⟨root, parent, mach⟩
  | _, _, _ => none

/-- The identifier that a text is. -/
def read? (s : List Char) : Option MachineId :=
  match shape? s with
  | some x => if x.rest.isEmpty then x.id? else none
  | none => none

/-- The first shape in a text, wherever it starts. -/
def firstShape? : List Char → Option Shape
  | [] => none
  | c :: s =>
    match shape? (c :: s) with
    | some x => some x
    | none => firstShape? s

/-- The identifier of the first shape in a text. -/
def find? (s : List Char) : Option MachineId := (firstShape? s).bind Shape.id?

end MachineId

end TraceExplorer
