import TraceExplorer.Run.Outcome
import TraceExplorer.Run.Tree

/-
  Runs: the sessions that name one root, as a tree under that root, with their outcomes and the
  ways to their goals.
-/

namespace TraceExplorer

structure Run where
  root : Entry
  /-- The sessions that name the root, and the root itself, in load order. -/
  members : List Entry
  /-- The members that the root leads to, in pre-order; the first is the root. -/
  nodes : List Node
  buckets : Buckets
  waypoints : Waypoints

namespace Index

/-- The sessions of the run of the machine `mach`. -/
def members (x : Index) (mach : UInt64) : List Entry :=
  x.entries.filter fun e => e.mid.root == mach || e.mach == mach

/-- The children of a session within the run of the machine `mach`, by ascending machine. -/
def memberKids (x : Index) (mach : UInt64) (e : Entry) : List Entry :=
  ((x.kids e.id).filter fun k => k.mid.root == mach || k.mach == mach).mergeSort
    fun a b => a.mach ≤ b.mach

/-- The tree of the run under `root`, which is no deeper than the run has members. -/
def tree (x : Index) (root : Entry) : Tree :=
  Tree.grow (x.memberKids root.mach) (x.members root.mach).length root

end Index

namespace Run

def ofRoot (x : Index) (root : Entry) : Run :=
  let members := x.members root.mach
  let buckets := Buckets.ofSessions (members.map Entry.session)
  let waypoints := Waypoints.ofGoals x buckets.goals
  let nodes := (x.tree root).nodes waypoints.mark? 0 none 0
  { root, members, nodes, buckets, waypoints }

/-- The run of the machine `mach`, which has to be a session without a parent. -/
def select? (x : Index) (mach : UInt64) : Option Run := (x.root? mach).map (ofRoot x)

def rootMach (r : Run) : UInt64 := r.root.mach

/-- How many members the root does not lead to. -/
def orphans (r : Run) : Nat := r.members.length - r.nodes.length

def node? (r : Run) (n : Nat) : Option Node := r.nodes[n]?

/-- The child of node `n` that is the machine `mach`. -/
def findChild? (r : Run) (n : Nat) (mach : UInt64) : Option Nat :=
  (r.node? n).bind fun node =>
    node.children.find? fun child => (r.node? child).any (·.mach == mach)

end Run

end TraceExplorer
