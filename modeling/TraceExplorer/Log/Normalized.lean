import TraceExplorer.Log.Row
import TraceExplorer.Span.Builder

/-
  The normalized log of a session: what came before, during and after an operation folded into
  one row, with the spans that the operations open and close. Every session above is cut after
  the operation during which the next one was made.
-/

namespace TraceExplorer

/-- A row of a normalized log, and how many spans are open around it. -/
structure OpRow extends Row where
  indent : Nat

namespace OpRow

def toJson (r : OpRow) : Json := .obj (r.toRow.fields [("indent", .nat r.indent)])

end OpRow

structure NormalizedLog where
  rows : List OpRow
  spans : Span.Forest
  segments : List Segment
  /-- How many operations were begun and not finished. -/
  dropped : Nat

namespace NormalizedLog

def toJson (log : NormalizedLog) : Json :=
  .obj [("rows", .arr (log.rows.map OpRow.toJson)), ("spans", log.spans.toJson),
    ("segments", .arr (log.segments.map Segment.toJson)),
    ("dropped_pre_ops", .nat log.dropped)]

/-- One operation from its end, the data of a copy during it, and its beginning, whose labels
and markers count first. -/
def merge (post : Event) (pre : Option Event) (copy : Option Extra) : Event :=
  let extra := copy.elim post.extra post.extra.overlay
  match pre with
  | none => { post with extra }
  | some pre =>
    let labels := if pre.extra.labels.isEmpty then extra.labels else pre.extra.labels
    let spanOpen := pre.extra.spanOpen <|> extra.spanOpen
    let spanClose := pre.extra.spanClose <|> extra.spanClose
    { post with extra := { extra with labels, spanOpen, spanClose } }

/-- A log under construction. -/
structure Draft where
  rows : List OpRow
  spans : Span.Builder
  dropped : Nat
  /-- The operation begun last in the session at hand, unless finished. -/
  pre : Option Event
  /-- The data of the last copy since an operation finished. -/
  copy : Option Extra

namespace Draft

def empty : Draft := ⟨[], .empty, 0, none, none⟩

def push (d : Draft) (row : Row) (indent : Nat) : Draft :=
  { d with rows := d.rows ++ [{ row with indent }] }

/-- Closes the spans that the markers name, for the row that comes next. -/
def closeSpans (d : Draft) (extra : Extra) : Draft :=
  match extra.spanClose with
  | some m => { d with spans := (d.spans.close (m.resolve extra.labels) d.rows.length).1 }
  | none => d

/-- Opens the span that the markers name, at the row that comes next. -/
def openSpan (d : Draft) (extra : Extra) : Draft :=
  match extra.spanOpen with
  | some m => { d with spans := (d.spans.enter (m.resolve extra.labels) d.rows.length).1 }
  | none => d

/-- Gives up the operation that was begun. -/
def dropPre (d : Draft) : Draft :=
  if d.pre.isSome then { d with pre := none, dropped := d.dropped + 1 } else d

/-- Adds an operation, after closing spans and before opening one. -/
def addOp (d : Draft) (row : Event → Row) (op : Event) : Draft :=
  let d := d.closeSpans op.extra
  (d.openSpan op.extra).push (row op) d.spans.depth

/-- Adds the end of a machine: it closes every span, also one about to be opened. -/
def addEnd (d : Draft) (row : Event → Row) (stop : Event) : Draft :=
  let d := (d.pre.elim d fun pre => d.openSpan pre.extra).dropPre
  { d with spans := d.spans.closeAll d.rows.length }.push (row stop) 0

/-- Takes in a record of the session at `depth`; `row` makes rows of its events. -/
def step (depth : Nat) (row : Event → Row) (d : Draft) (e : Event) : Draft :=
  match e.kind with
  | .start => if depth = 0 then d.push (row e) d.spans.depth else d
  | .preOp => { d.dropPre with pre := some e }
  | .copy => { d with copy := some e.extra }
  | .postOp => { d with pre := none, copy := none }.addOp row (merge e d.pre d.copy)
  | .stop | .other =>
    if e.action = "End" then d.addEnd row e else d.push (row e) d.spans.depth

end Draft

/-- A list cut behind its first element with `p`, if it has one. -/
def cutAfter? (p : α → Bool) : List α → Option (List α × List α)
  | [] => none
  | a :: l => if p a then some ([a], l) else (cutAfter? p l).map fun (l, r) => (a :: l, r)

/-- The records cut behind the operation during which `next` was made; not cut if there is no
such copy, or if its operation did not finish. -/
def cutBefore (next : Option Entry) (records : List Event) : List Event × List Event :=
  let cut := do
    let child ← next
    let (before, after) ← cutAfter? (fun (e : Event) => e.copiesTo child.id) records
    let (during, rest) ← cutAfter? (fun (e : Event) => e.kind = EventKind.postOp) after
    some (before ++ during, rest)
  cut.getD (records, [])

/-- Adds the rows of a session, and its segment. -/
def addSegment (waypoints : Option Waypoints) (d : Draft) (depth : Nat) (e : Entry)
    (next : Option Entry) : Draft × Segment :=
  let (records, rest) := cutBefore next e.session.records
  let start := d.rows.length
  let d := records.foldl (Draft.step depth (Row.ofEvent waypoints depth e)) d
  let d := { d.dropPre with copy := none }
  (d, ⟨e.id, e.mach, depth, start, d.rows.length - start, !rest.isEmpty⟩)

/-- Adds the rows of consecutive sessions, the first of them at `depth`. -/
def addChain (waypoints : Option Waypoints) (d : Draft) (depth : Nat) :
    List Entry → Draft × List Segment
  | [] => (d, [])
  | e :: rest =>
    let (d, segment) := addSegment waypoints d depth e rest.head?
    let (d, segments) := addChain waypoints d (depth + 1) rest
    (d, segment :: segments)

def ofChain (waypoints : Option Waypoints) (chain : List Entry) : NormalizedLog :=
  let (d, segments) := addChain waypoints .empty 0 chain
  { rows := d.rows, spans := d.spans.finish, segments, dropped := d.dropped }

def assemble (x : Index) (waypoints : Option Waypoints) (id : String) :
    Except Fault NormalizedLog :=
  (x.chain id).map (ofChain waypoints)

end NormalizedLog

end TraceExplorer
