import TraceExplorer.KeyValue.Pairs
import TraceExplorer.KeyValue.Value
import TraceExplorer.Session.Basic
import TraceExplorer.Trace.Line

/-
  Sessions put together from the lines of a trace, in the order in which they appear.
  `Draft.step` takes in one line; a record that copies a machine goes to the copying session
  and, as a link back, to the session made.
-/

namespace TraceExplorer.Trace

/-- The sessions so far, each with its identifier, and the one that stray lines belong to. -/
structure Draft where
  sessions : List (MachineId × Session)
  current : Option MachineId

/-- Changes the session of `id`, which is new if it is not there. -/
def change (id : MachineId) (f : Session → Session) :
    List (MachineId × Session) → List (MachineId × Session)
  | [] => [(id, f (Session.ofId id.text))]
  | e :: l => if e.1 = id then (e.1, f e.2) :: l else e :: change id f l

namespace Draft

def empty : Draft := ⟨[], none⟩

def change (d : Draft) (id : MachineId) (f : Session → Session) : Draft :=
  { d with sessions := Trace.change id f d.sessions }

end Draft

/-- The meaning of one pair of a tail; the child of a copy is written canonically. -/
def tailValue? (key value : String) : Option Json :=
  match if key = "child" then MachineId.find? value.toList else none with
  | some id => some (.str id.text)
  | none => KeyValue.value? value.toList

/-- The data that a tail gives; `none` where a list in it has no reading. -/
def tailExtra? (tail : String) : Option Extra :=
  ((KeyValue.pairs tail).mapM fun e => (tailValue? e.1 e.2).map fun v => (e.1, v)).map
    fun l => Extra.ofDict (Dict.ofList l)

namespace Record

/-- What the mark and the action of a record make of it. -/
def kind (r : Record) : EventKind :=
  match r.mark with
  | some .pre => .preOp
  | some .post => .postOp
  | some .copy => .copy
  | some .frame =>
    if r.action = "Begin" then .start else if r.action = "End" then .stop else .other
  | none => .other

def event? (r : Record) : Option Event :=
  (tailExtra? r.tail).map fun extra =>
    { kind := r.kind, count := r.count, ip := r.ip, action := r.action, extra, notes := [] }

/-- The end of a session: its error, and what else it reports, as written. -/
def report (r : Record) (s : Session) : Session :=
  (KeyValue.pairs r.tail).foldl (fun s e =>
    if e.1 = "err" then { s with error := KeyValue.unquote e.2 }
    else { s with extra := s.extra.insert e.1 e.2 }) s

end Record

/-- The link back in the session that `copy` made. -/
def backLink (parent : MachineId) (copy : Event) (s : Session) : Session :=
  let extra := { copy.extra with child := none, parent := some parent.text }
  { s with
    parentId := some parent.text
    records := s.records ++ [{ copy with kind := .copy, extra, notes := [] }] }

/-- The note goes to the last record, or to a new one that has nothing else. -/
def addNote (text : String) (s : Session) : Session :=
  match s.records.getLast? with
  | some e =>
    { s with records := s.records.dropLast ++ [{ e with notes := e.notes ++ [text] }] }
  | none => { s with records := [{ Event.ofKind .other with notes := [text] }] }

namespace Draft

/-- The session that a copy made, if the event names it. -/
def child? (e : Event) : Option MachineId :=
  if e.kind = .copy then e.extra.child.bind fun s => MachineId.find? s.toList else none

/-- Takes in an event of `id`. -/
def addEvent (d : Draft) (id : MachineId) (r : Record) (e : Event) : Draft :=
  let d := if e.kind = .stop then d.change id r.report else d
  let d :=
    match child? e with
    | some child => d.change child (backLink id e)
    | none => d
  let d := d.change id fun s => { s with records := s.records ++ [e] }
  { d with current := if r.action = "Handle" then none else some id }

/-- Takes in a line; `none` where a list in it has no reading. -/
def step (d : Draft) : Line → Option Draft
  | .stray text =>
    match d.current with
    | some id => some (d.change id fun s => { s with unknown := s.unknown ++ [text] })
    | none => some d
  | .note id text => some { d.change id (addNote text) with current := some id }
  | .record id r => r.event?.map (d.addEvent id r)

/-- The sessions, complete. -/
def finish (d : Draft) : List Session := d.sessions.map fun e => e.2.fillValues

end Draft

/-- The sessions of a trace given by its lines. -/
def ofLines? (lines : List String) : Option (List Session) :=
  (lines.foldlM (fun (d : Draft) line => d.step (Line.ofString line)) Draft.empty).map Draft.finish

end TraceExplorer.Trace
