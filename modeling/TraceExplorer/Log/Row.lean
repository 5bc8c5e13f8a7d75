import TraceExplorer.Run.Waypoint

/-
  Rows of a log, and the segments that the sessions of a chain contribute to it.
-/

namespace TraceExplorer

/-- A record in a log, with the session that it comes from. -/
structure Row where
  depth : Nat
  nodeId : String
  mach : UInt64
  event : Event
  onGoalPath : Bool

namespace Row

/-- The record of a session at its depth, judged by the waypoints of a run if there is one. -/
def ofEvent (waypoints : Option Waypoints) (depth : Nat) (e : Entry) (event : Event) : Row where
  depth
  nodeId := e.id
  mach := e.mach
  event
  onGoalPath := waypoints.any fun ws => ws.onPath e.mach event.count

/-- The fields of a row, those in `middle` standing before the record. -/
def fields (r : Row) (middle : List (String × Json)) : List (String × Json) :=
  [("depth", .nat r.depth), ("node_id", .str r.nodeId), ("mach", .word r.mach)] ++ middle
    ++ r.event.fields ++ [("on_goal_path", .bool r.onGoalPath)]

def toJson (r : Row) : Json := .obj (r.fields [])

end Row

/-- The rows that one session of a chain contributes. -/
structure Segment where
  nodeId : String
  mach : UInt64
  depth : Nat
  /-- The number of its first row. -/
  start : Nat
  length : Nat
  /-- Records were left out because the next session starts before them. -/
  truncated : Bool
deriving Repr, DecidableEq

namespace Segment

def toJson (s : Segment) : Json :=
  .obj [("node_id", .str s.nodeId), ("mach", .word s.mach), ("depth", .nat s.depth),
    ("start", .nat s.start), ("len", .nat s.length), ("truncated", .bool s.truncated)]

/-- The rows of the segment among all rows. -/
def rows (s : Segment) (all : List α) : List α := (all.drop s.start).take s.length

end Segment

end TraceExplorer
