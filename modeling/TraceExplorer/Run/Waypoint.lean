import TraceExplorer.Index.Ancestry

/-
  Waypoints: the sessions on the way to a goal, and how far along each of them that way goes.
  Every goal marks the sessions of its climb; where climbs of several goals meet, the last goal
  has the mark.
-/

namespace TraceExplorer

inductive Mark where
  | goal
  | goalPath
deriving Repr, DecidableEq

namespace Mark

def name : Mark → String
  | .goal => "goal"
  | .goalPath => "goalPath"

def toJson (m : Mark) : Json := .str m.name

end Mark

structure Waypoint where
  nodeId : String
  nodeMach : UInt64
  /-- The count up to which the records of the session lead to the goal. -/
  threshold : UInt64
  goalId : String
  goalMach : UInt64
deriving Repr, DecidableEq

namespace Waypoint

def mark (w : Waypoint) : Mark := if w.goalMach = w.nodeMach then .goal else .goalPath

def onPath (w : Waypoint) (count : UInt64) : Bool := count ≤ w.threshold

def toJson (w : Waypoint) : Json :=
  .obj [("node_id", .str w.nodeId), ("node_mach", .word w.nodeMach),
    ("threshold", .word w.threshold), ("result_id", .str w.goalId),
    ("result_mach", .word w.goalMach)]

/-- The waypoint of a goal at itself. -/
def atGoal (goal : Entry) : Waypoint :=
  ⟨goal.id, goal.mach, goal.session.finalCount, goal.id, goal.mach⟩

/-- The waypoint at `node` on the way to `goal`, which goes on from there to `next`. -/
def above (goal next node : Entry) : Waypoint where
  nodeId := node.id
  nodeMach := node.mach
  threshold := (node.session.lastCopyCountTo? next.id).getD node.session.finalCount
  goalId := goal.id
  goalMach := goal.mach

/-- The waypoints of a goal, upwards. -/
def ofGoal (x : Index) (goal : Entry) : List Waypoint :=
  let way := (x.ascent goal).1
  atGoal goal :: (way.zip way.tail).map fun e => above goal e.1 e.2

end Waypoint

/-- The waypoints of a run by machine. -/
abbrev Waypoints := Dict UInt64 Waypoint

namespace Waypoints

/-- Takes in the waypoints of one goal. -/
def add (x : Index) (ws : Waypoints) (id : String) : Waypoints :=
  match x.get? id with
  | some goal => ws.insertAll ((Waypoint.ofGoal x goal).map fun w => (w.nodeMach, w))
  | none => ws

def ofGoals (x : Index) (ids : List String) : Waypoints := ids.foldl (add x) .empty

def mark? (ws : Waypoints) (mach : UInt64) : Option Mark := (ws.get? mach).map (·.mark)

/-- The record `count` of the machine leads to a goal. -/
def onPath (ws : Waypoints) (mach count : UInt64) : Bool :=
  (ws.get? mach).any (·.onPath count)

def toJson (ws : Waypoints) : Json := .arr (ws.values.map Waypoint.toJson)

end Waypoints

end TraceExplorer
