import TraceExplorer.Run.Basic

/-
  Paths in a run, from its root down to a session: the chain of the session, looked up level by
  level in the tree.
-/

namespace TraceExplorer

structure PathStep where
  id : String
  mach : UInt64
  depth : Nat
  /-- The number of the node in the run. -/
  node : Nat
  mark : Option Mark

namespace PathStep

def toJson (s : PathStep) : Json :=
  .obj [("id", .str s.id), ("mach", .word s.mach), ("depth", .nat s.depth),
    ("node", .nat s.node), ("mark", .optional Mark.toJson s.mark)]

end PathStep

/-- The answer to a look-up of a session in a run. -/
inductive Lookup where
  | path (steps : List PathStep)
  /-- The session belongs to another run. -/
  | empty

namespace Lookup

def steps : Lookup → List PathStep
  | .path steps => steps
  | .empty => []

def toJson : Lookup → Json
  | .path steps => .obj [("lookup", .str "path"), ("nodes", .arr (steps.map PathStep.toJson))]
  | .empty => .obj [("lookup", .str "empty")]

end Lookup

namespace Run

/-- The numbers of the nodes below node `n` that are the given machines, one under another. -/
def descend (r : Run) (id : String) (n : Nat) : List UInt64 → Except Fault (List Nat)
  | [] => .ok []
  | mach :: machs =>
    match r.findChild? n mach with
    | some child => (descend r id child machs).map (child :: ·)
    | none =>
      let under := ((r.node? n).map (·.id)).getD "?"
      .error (.brokenPath id (.noChild mach under))

def step? (r : Run) (n : Nat) : Option PathStep :=
  (r.node? n).map fun node => ⟨node.id, node.mach, node.depth, n, node.mark⟩

/-- The path along a chain of machines. -/
def pathAlong (r : Run) (id : String) : List UInt64 → Except Fault Lookup
  | [] => .error (.brokenPath id .emptyChain)
  | first :: machs =>
    if first = r.rootMach then
      (r.descend id 0 machs).map fun ns => .path ((0 :: ns).filterMap r.step?)
    else .error (.brokenPath id (.otherRoot first r.rootMach))

def path (r : Run) (x : Index) (id : String) : Except Fault Lookup :=
  match MachineId.decode id with
  | .error fault => .error fault
  | .ok mid =>
    if mid.root = r.rootMach then
      match x.chain id with
      | .error fault => .error fault
      | .ok chain => r.pathAlong id (chain.map Entry.mach)
    else .ok .empty

end Run

end TraceExplorer
