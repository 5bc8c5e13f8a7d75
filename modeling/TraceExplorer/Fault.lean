import TraceExplorer.MachineId
import TraceExplorer.Text.Basic

/-
  What can be wrong with an identifier or with the place it names, and the message of each.
-/

namespace TraceExplorer

/-- Why the way from a root to a session cannot be walked. -/
inductive Break where
  | cycleAt (id : String)
  | emptyChain
  | otherRoot (first root : UInt64)
  | noChild (mach : UInt64) (under : String)
  | notInRun
deriving Repr, DecidableEq

def Break.message : Break → String
  | .cycleAt id => "parent cycle at " ++ id
  | .emptyChain => "empty ancestor chain"
  | .otherRoot first root =>
    "chain starts at " ++ Number.decimal first ++ " not at root " ++ Number.decimal root
  | .noChild mach under => "no child " ++ Number.decimal mach ++ " under " ++ under
  | .notInRun => "not in the active run"

inductive Fault where
  | malformedId (text : String)
  | notFound (id : String)
  | brokenPath (id : String) (reason : Break)
  | duplicateMach (mach : UInt64) (id existing : String)
  | noActiveRun
deriving Repr, DecidableEq

def Fault.message : Fault → String
  | .malformedId text => "Malformed identifier: " ++ Text.quoted text
  | .notFound id => "Node not found: " ++ id
  | .brokenPath id reason => "Path to " ++ id ++ " broken: " ++ reason.message
  | .duplicateMach mach id existing =>
    "Duplicate machine id " ++ Number.decimal mach ++ " (" ++ id ++ " already indexed as "
      ++ existing ++ ")"
  | .noActiveRun => "No run is selected"

/-- The identifier that a text is, or the fault that it is none. -/
def MachineId.decode (s : String) : Except Fault MachineId :=
  match MachineId.read? s.toList with
  | some id => .ok id
  | none => .error (.malformedId s)

/-- Reads an identifier: nothing may stand around it. -/
def MachineId.parse (s : String) : Except Fault MachineId := decode s

end TraceExplorer
