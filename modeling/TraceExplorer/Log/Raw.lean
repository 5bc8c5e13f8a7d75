import TraceExplorer.Log.Row

/-
  The raw log of a session: the records of its chain, every session above cut at the first copy
  that made the next one, so that no record shows twice.
-/

namespace TraceExplorer

structure RawLog where
  rows : List Row
  segments : List Segment

namespace RawLog

/-- How many records of a session come before the next one, with the copy that makes it. -/
def cutLength (e : Entry) (next : Option Entry) : Nat :=
  match next.bind fun n => e.session.firstCopyTo? n.id with
  | some i => i + 1
  | none => e.session.records.length

/-- Adds the segment of a session. -/
def addSegment (waypoints : Option Waypoints) (log : RawLog) (depth : Nat) (e : Entry)
    (next : Option Entry) : RawLog :=
  let length := cutLength e next
  let records := e.session.records
  { rows := log.rows ++ (records.take length).map (Row.ofEvent waypoints depth e)
    segments := log.segments ++
      [⟨e.id, e.mach, depth, log.rows.length, length, length < records.length⟩] }

/-- Adds the segments of consecutive sessions, the first of them at `depth`. -/
def addChain (waypoints : Option Waypoints) (log : RawLog) (depth : Nat) :
    List Entry → RawLog
  | [] => log
  | e :: rest =>
    addChain waypoints (log.addSegment waypoints depth e rest.head?) (depth + 1) rest

def ofChain (waypoints : Option Waypoints) (chain : List Entry) : RawLog :=
  addChain waypoints ⟨[], []⟩ 0 chain

def assemble (x : Index) (waypoints : Option Waypoints) (id : String) : Except Fault RawLog :=
  (x.chain id).map (ofChain waypoints)

/-- The rows of the segment at `depth`. -/
def segmentRows (log : RawLog) (depth : Nat) : List Row :=
  (log.segments[depth]?).elim [] fun s => s.rows log.rows

def toJson (log : RawLog) : Json :=
  .obj [("rows", .arr (log.rows.map Row.toJson)),
    ("segments", .arr (log.segments.map Segment.toJson))]

end RawLog

end TraceExplorer
