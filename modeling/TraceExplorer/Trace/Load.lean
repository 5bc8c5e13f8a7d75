import TraceExplorer.Json.Reader
import TraceExplorer.Trace.Draft
import TraceExplorer.Trace.Halt

/-
  Traces read from bytes: a JSON array of sessions, or lines of text.
-/

namespace TraceExplorer.Trace

/-- A record that is left out, and why. -/
structure Rejected where
  id : String
  reason : String
deriving Repr, DecidableEq

def Rejected.toJson (r : Rejected) : Json := .obj [("id", .str r.id), ("reason", .str r.reason)]

end Trace

/-- The sessions of a trace, and the elements that are none. -/
structure Trace where
  sessions : List Session
  rejected : List Trace.Rejected

namespace Trace

inductive LoadFault where
  | noSessionArray
  | unreadableLine (n : Nat)
  | splitCharacter
deriving Repr, DecidableEq

def LoadFault.message : LoadFault → String
  | .noSessionArray => "Failed to parse session array"
  | .unreadableLine n => "Failed to read trace line " ++ Number.natural n
  | .splitCharacter => "Failed to split a list value"

/-- How an element of the array is named: by its `id`, else by its place. -/
def elementName (n : Nat) (element : Json) : String :=
  match element.field? "id" with
  | some (.str id) => id
  | some v => v.compact
  | none => "[" ++ Number.natural n ++ "]"

/-- Takes in one element of the array. -/
def addElement (t : Trace) (n : Nat) (element : Json) : Trace :=
  match Session.decode element with
  | .ok s => { t with sessions := t.sessions ++ [s.fillValues] }
  | .error e => { t with rejected := t.rejected ++ [⟨elementName n element, e.message⟩] }

/-- An element that is no session is reported, and the others are kept. -/
def ofElements (elements : List Json) : Trace :=
  elements.zipIdx.foldl (fun t e => t.addElement e.2 e.1) ⟨[], []⟩

def ofJson (bytes : List UInt8) : Except LoadFault Trace :=
  match (String.fromUTF8? ⟨bytes.toArray⟩).bind Json.read? with
  | some (.arr elements) => .ok (ofElements elements)
  | _ => .error .noSessionArray

/-- The bytes before each line end, and those after the last one if there are any. -/
def splitLines : List UInt8 → List (List UInt8)
  | [] => []
  | b :: s =>
    if b == 10 then [] :: splitLines s
    else
      match splitLines s with
      | [] => [[b]]
      | l :: ls => (b :: l) :: ls

/-- Takes in lines given as bytes, the first of them the `n`-th of the trace. -/
def readLines (n : Nat) (d : Draft) : List (List UInt8) → Except LoadFault Draft
  | [] => .ok d
  | l :: ls =>
    match String.fromUTF8? ⟨l.toArray⟩ with
    | none => .error (.unreadableLine n)
    | some line =>
      match d.step (Line.ofString line) with
      | none => .error .splitCharacter
      | some d => readLines (n + 1) d ls

def ofText (bytes : List UInt8) : Except LoadFault Trace :=
  (readLines 1 .empty (splitLines bytes)).map fun d => ⟨d.finish, []⟩

/-- The blanks that may stand before a JSON array. -/
def isBlankByte (b : UInt8) : Bool := b == 32 || b == 9 || b == 10 || b == 12 || b == 13

/-- A trace whose first byte that is no blank is a bracket is JSON. -/
def ofBytes (bytes : List UInt8) : Except LoadFault Trace :=
  if (bytes.dropWhile isBlankByte).head? == some 91 then ofJson bytes else ofText bytes

/-- A trace without the sessions that halted with an ignored code. -/
def load (ignored : List UInt64) (bytes : List UInt8) : Except LoadFault Trace :=
  (ofBytes bytes).map fun t => { t with sessions := dropHalted ignored t.sessions }

end Trace

end TraceExplorer
