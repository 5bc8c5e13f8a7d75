import TraceExplorer.Address
import TraceExplorer.Explorer.Signal
import TraceExplorer.Log.Normalized
import TraceExplorer.Log.Raw
import TraceExplorer.Run.Path

/-
  An explorer: the sessions of a trace, and the run that is looked at. Every action answers
  with the explorer after it, and with what it announces.
-/

namespace TraceExplorer

structure Explorer where
  index : Index
  active : Option Run

/-- A session without a parent, as a list of runs shows it. -/
structure RootSummary where
  id : String
  mach : UInt64
  sessions : Nat
  active : Bool
deriving Repr, DecidableEq

namespace RootSummary

def toJson (r : RootSummary) : Json :=
  .obj [("id", .str r.id), ("mach", .word r.mach), ("sessions", .nat r.sessions),
    ("active", .bool r.active)]

end RootSummary

/-- The log of a session, in one of its two views. -/
inductive NodeLog where
  | raw (log : RawLog)
  | normalized (log : NormalizedLog)

namespace NodeLog

def toJson : NodeLog → Json
  | .raw log => .obj [("view", .str "raw"), ("rows", log.toJson)]
  | .normalized log => .obj [("view", .str "normalized"), ("rows", log.toJson)]

end NodeLog

/-- Where following an address led. -/
inductive Navigation where
  | log (address : String) (path : List PathStep) (log : NodeLog)
  /-- Nowhere; the view falls back to `address`, which is empty if there is no run. -/
  | cleared (address reason : String)

namespace Navigation

def address : Navigation → String
  | .log address .. => address
  | .cleared address _ => address

def toJson : Navigation → Json
  | .log address path shown =>
    .obj [("kind", .str "log"), ("address", .str address),
      ("path", .arr (path.map PathStep.toJson)), ("log", shown.toJson)]
  | .cleared address reason =>
    .obj [("kind", .str "cleared"), ("address", .str address), ("reason", .str reason)]

end Navigation

namespace Explorer

/-- An explorer of a trace, with no run selected. -/
def load (t : Trace) : Explorer × List Signal :=
  let index := Index.ofTrace t
  (⟨index, none⟩, [.loaded index.size index.roots.length])

def activeMach (x : Explorer) : Option UInt64 := x.active.map (·.rootMach)

def roots (x : Explorer) : List RootSummary :=
  x.index.roots.map fun r => ⟨r.id, r.mach, x.index.runSize r.mach, x.activeMach == some r.mach⟩

/-- Selects the run of `mach`; nothing changes if it has none. -/
def selectRoot (x : Explorer) (mach : UInt64) : Explorer × List Signal × Bool :=
  match Run.select? x.index mach with
  | some run => ({ x with active := some run }, [.rootSelected run.root.id mach], true)
  | none => (x, [], false)

/-- Selects the run of the first root. -/
def selectFirst (x : Explorer) : Explorer × List Signal × Bool :=
  match x.index.roots.head? with
  | some root => x.selectRoot root.mach
  | none => (x, [], false)

/-- Selects the preferred run, or that of the first root. -/
def selectDefault (x : Explorer) : Option UInt64 → Explorer × List Signal × Bool
  | none => x.selectFirst
  | some mach =>
    match x.selectRoot mach with
    | (x, signals, true) => (x, signals, true)
    | (x, _, false) => x.selectFirst

def run (x : Explorer) : Except Fault Run :=
  match x.active with
  | some run => .ok run
  | none => .error .noActiveRun

def path (x : Explorer) (id : String) : Except Fault Lookup :=
  x.run.bind fun run => run.path x.index id

def waypoints (x : Explorer) : Option Waypoints := x.active.map (·.waypoints)

def rawLog (x : Explorer) (id : String) : Except Fault RawLog :=
  RawLog.assemble x.index x.waypoints id

def normalizedLog (x : Explorer) (id : String) : Except Fault NormalizedLog :=
  NormalizedLog.assemble x.index x.waypoints id

/-- The log of a session, raw or not. -/
def log (x : Explorer) (id : String) (raw : Bool) : Except Fault NodeLog :=
  if raw then (x.rawLog id).map .raw else (x.normalizedLog id).map .normalized

def buckets (x : Explorer) : Buckets := (x.active.map (·.buckets)).getD .empty

def nodes (x : Explorer) : List Node := (x.active.map (·.nodes)).getD []

/-- The address of the root of the active run. -/
def rootAddress (x : Explorer) : String :=
  x.active.elim "" fun run => (Address.node run.root.id).text

/-- Falls back to the root of the active run. -/
def clear (x : Explorer) (reason : String) : List Signal × Navigation :=
  ([.cleared x.rootAddress reason], .cleared x.rootAddress reason)

/-- What an address shows in the active run. -/
def view (x : Explorer) (a : Address) : Except Fault Navigation :=
  (x.path a.id).bind fun
    | .empty => .error (.brokenPath a.id .notInRun)
    | .path steps => (x.log a.id a.raw).map (.log a.text steps)

/-- Visits an address in the active run, or falls back. -/
def visit (x : Explorer) (a : Address) : List Signal × Navigation :=
  match x.view a with
  | .ok navigation => ([.nodeSelected a.id a.raw], navigation)
  | .error fault => x.clear fault.message

/-- Selects the run of an identifier unless it is active; the reason if there is none. -/
def enter (x : Explorer) (id : String) : Explorer × List Signal × Option String :=
  match MachineId.read? id.toList with
  | none => (x, [], none)
  | some mid =>
    if x.activeMach = some mid.root then (x, [], none)
    else
      match x.selectRoot mid.root with
      | (x, signals, true) => (x, signals, none)
      | (x, signals, false) => (x, signals, some ("unknown run " ++ Number.decimal mid.root))

/-- Follows an address, into another run if it leads there. -/
def navigate (x : Explorer) (address : String) : Explorer × List Signal × Navigation :=
  match Address.parse address with
  | .ok none => (x, x.clear "empty address")
  | .error fault => (x, x.clear fault.message)
  | .ok (some a) =>
    match x.enter a.id with
    | (x, signals, some reason) =>
      let (more, navigation) := x.clear reason
      (x, signals ++ more, navigation)
    | (x, signals, none) =>
      let (more, navigation) := x.visit a
      (x, signals ++ more, navigation)

end Explorer

end TraceExplorer
