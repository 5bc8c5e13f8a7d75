import TraceExplorer.Json.Printer

/-
  What an explorer announces, and the mailboxes of those who listen. A mailbox keeps only the
  latest announcements; the older ones are counted as lost.
-/

namespace TraceExplorer

inductive Signal where
  | loaded (sessions roots : Nat)
  | rootSelected (id : String) (mach : UInt64)
  | nodeSelected (id : String) (raw : Bool)
  /-- An address could not be followed; the view falls back to `address`. -/
  | cleared (address reason : String)
deriving Repr, DecidableEq

namespace Signal

def name : Signal → String
  | .loaded .. => "loaded"
  | .rootSelected .. => "root_selected"
  | .nodeSelected .. => "node_selected"
  | .cleared .. => "cleared"

def fields : Signal → List (String × Json)
  | .loaded sessions roots => [("sessions", .nat sessions), ("roots", .nat roots)]
  | .rootSelected id mach => [("root_id", .str id), ("mach", .word mach)]
  | .nodeSelected id raw => [("id", .str id), ("raw", .bool raw)]
  | .cleared address reason => [("address", .str address), ("reason", .str reason)]

def toJson (s : Signal) : Json := .obj (("event", .str s.name) :: s.fields)

end Signal

/-- Signals that were not collected yet, the latest last. -/
structure Mailbox where
  waiting : List Signal
  /-- How many older signals were lost. -/
  lost : Nat

namespace Mailbox

def empty : Mailbox := ⟨[], 0⟩

/-- How many signals a mailbox keeps. -/
def capacity : Nat := 256

def deliver (m : Mailbox) (signals : List Signal) : Mailbox :=
  let all := m.waiting ++ signals
  ⟨all.drop (all.length - capacity), m.lost + (all.length - capacity)⟩

end Mailbox

end TraceExplorer
