import TraceExplorer.Explorer.Basic
import TraceExplorer.Report.Style
import TraceExplorer.Text.Basic

/-
  Lines of text that show sessions, runs and logs to a reader.
-/

namespace TraceExplorer.Report

open Text (alignLeft alignRight repeated)

/-- An identifier with the machines of the whole chain: `root(m0:m1:…)`. -/
def fullId (x : Index) (id : String) : Except Fault String :=
  (x.chain id).map fun chain =>
    let root := (chain.getLast?.map (·.mid.root)).getD 0
    let machs := chain.map fun e => Number.decimal e.mach
    Number.decimal root ++ "(" ++ ":".intercalate machs ++ ")"

/-- An event of the session `id` on one line. -/
def eventLine (id : String) (e : Event) : String :=
  let line := alignRight 10 id ++ " #" ++ alignRight 4 (Number.decimal e.count) ++ " @"
    ++ Number.hexadecimal 6 e.ip ++ " " ++ alignLeft 30 e.action ++ " " ++ e.extra.text
  String.ofList (Text.trimEnd line.toList)

/-- The notes of an event, behind `indent` and four spaces. -/
def noteLines (indent : String) (e : Event) : List String :=
  e.notes.map fun note => indent ++ "    " ++ note

def markText (colored : Bool) : Option Mark → String
  | some .goal => paint colored .brightGreen " [goal]"
  | some .goalPath => paint colored .green " [goal path]"
  | none => ""

/-- The full identifier of a session, and how it ended. -/
def summaryLine (x : Index) (id : String) : Except Fault String :=
  match x.get? id with
  | none => .error (.notFound id)
  | some e =>
    (fullId x id).map fun full =>
      full ++ "\t" ++ (if e.session.error = "" then "values=" ++ e.session.values
        else "err=" ++ e.session.error)

/-- The summary of a session, its raw log, what it reported at its end, and an empty line. -/
def sessionLines (x : Index) (id : String) : Except Fault (List String) :=
  (summaryLine x id).bind fun summary =>
    (RawLog.assemble x none id).map fun log =>
      let events := log.rows.flatMap fun r =>
        ("\t" ++ eventLine r.nodeId r.event) :: noteLines "\t" r.event
      let reported := ((x.get? id).elim [] (·.session.extra.entries)).map fun e =>
        "\t" ++ e.1 ++ "=" ++ e.2
      summary :: events ++ reported ++ [""]

/-- All sessions, by identifier. -/
def dumpOrder (x : Index) : List Entry :=
  x.entries.mergeSort fun a b => (compare a.mid b.mid).isLE

def rootLines (colored : Bool) (roots : List RootSummary) : List String :=
  roots.map fun r =>
    (if r.active then paint colored .brightCyan "*" else " ") ++ " " ++ alignLeft 16 r.id ++ " "
      ++ Number.natural r.sessions ++ " sessions"

/-- The name of a bucket, coloured by what it tells of its sessions. -/
def bucketTitle (colored : Bool) (name : String) : String :=
  let style : Style :=
    if name = "values" then .brightGreen
    else if name.startsWith "err=" then .brightRed else .brightYellow
  paint colored style name

def bucketLines (colored : Bool) (b : Buckets) : List String :=
  b.entries.flatMap fun e =>
    (bucketTitle colored e.1 ++ " (" ++ Number.natural e.2.length ++ ")")
      :: e.2.map fun id => "  " ++ id

def waypointLines (colored : Bool) (ws : Waypoints) : List String :=
  ws.values.map fun w =>
    alignLeft 16 w.nodeId ++ " <= #" ++ alignLeft 6 (Number.decimal w.threshold) ++ " -> "
      ++ w.goalId ++ markText colored (some w.mark)

/-- A tree by its nodes in pre-order, indented by depth. -/
def nodeLines (colored : Bool) (nodes : List Node) : List String :=
  nodes.map fun n =>
    repeated n.depth "  " ++ n.id ++ " "
      ++ paint colored .dimmed ("(" ++ Number.natural n.weight ++ ")") ++ markText colored n.mark

/-- A row behind its indentation, green if it leads to a goal. -/
def rowLine (colored : Bool) (indent : String) (r : Row) : String :=
  let line := indent ++ eventLine r.nodeId r.event
  if r.onGoalPath then paint colored .green line else line

def segmentTitle (s : Segment) : String :=
  "--- " ++ s.nodeId ++ (if s.truncated then " (cut at spawn)" else "")

def rawLines (colored : Bool) (log : RawLog) : List String :=
  log.segments.flatMap fun s =>
    paint colored .dimmed (segmentTitle s)
      :: (s.rows log.rows).flatMap fun r =>
        rowLine colored (repeated r.depth "  ") r :: noteLines "" r.event

def brokenSpanText (n : Nat) (s : Span) : String :=
  "unterminated span #" ++ Number.natural n ++ " " ++ Text.quoted s.label ++ " from row "
    ++ Number.natural s.start

def normalizedLines (colored : Bool) (log : NormalizedLog) : List String :=
  let rows := log.rows.map fun r => rowLine colored (repeated r.indent "| ") r.toRow
  let broken := log.spans.broken.map fun e => paint colored .yellow (brokenSpanText e.1 e.2)
  let dropped :=
    if log.dropped = 0 then []
    else [paint colored .dimmed (Number.natural log.dropped ++ " unmatched preOp dropped")]
  rows ++ broken ++ dropped

def logLines (colored : Bool) : NodeLog → List String
  | .raw log => rawLines colored log
  | .normalized log => normalizedLines colored log

def stepLines (steps : List PathStep) : List String :=
  steps.map fun s => repeated s.depth "  " ++ s.id

end TraceExplorer.Report
