import TraceExplorer.Session.Extra

/-
  The events of a session, and the JSON that stands for them.
-/

namespace TraceExplorer

inductive EventKind where
  | start
  | preOp
  | postOp
  | copy
  | stop
  | other
deriving Repr, DecidableEq, Inhabited

namespace EventKind

def name : EventKind → String
  | .start => "begin"
  | .preOp => "preOp"
  | .postOp => "postOp"
  | .copy => "copy"
  | .stop => "end"
  | .other => "other"

/-- The kind of a name; a name of no kind means `other`. -/
def ofName (s : String) : EventKind :=
  if s = "begin" then .start
  else if s = "preOp" then .preOp
  else if s = "postOp" then .postOp
  else if s = "copy" then .copy
  else if s = "end" then .stop
  else .other

/-- A kind is its name, or an object with its name as the only key and `null` under it. -/
def decode : Json.Decoder EventKind
  | .str s => .ok (ofName s)
  | .obj fields =>
    match (Dict.ofList fields).entries with
    | [(s, v)] => (Json.asUnit v).map fun _ => ofName s
    | _ => .error .notOneKey
  | v => .error (.wrongType v .stringOrMap)

end EventKind

structure Event where
  kind : EventKind
  /-- How far the machine had counted. -/
  count : UInt64
  /-- Where in its program the machine stood. -/
  ip : UInt64
  action : String
  extra : Extra
  notes : List String
deriving Inhabited

namespace Event

/-- An event of a kind with nothing else known of it. -/
def ofKind (kind : EventKind) : Event := ⟨kind, 0, 0, "", .empty, []⟩

/-- The event is a copy that made the session `child`. -/
def copiesTo (e : Event) (child : String) : Bool :=
  e.kind = .copy && e.extra.child == some child

/-- The fields of an event, notes only if there are any. -/
def fields (e : Event) : List (String × Json) :=
  [("kind", .str e.kind.name), ("count", .word e.count), ("ip", .word e.ip),
    ("action", .str e.action), ("extra", e.extra.toJson)]
  ++ (if e.notes.isEmpty then [] else [("notes", .strings e.notes)])

def toJson (e : Event) : Json := .obj e.fields

/-- Takes in a field; the kind is kept apart until all fields are seen. -/
def setField (x : Option EventKind × Event) (key : String) (v : Json) :
    Except Json.DecodeFault (Option EventKind × Event) :=
  if key = "kind" then (EventKind.decode v).map fun kind => (some kind, x.2)
  else if key = "count" then (Json.asWord v).map fun count => (x.1, { x.2 with count })
  else if key = "ip" then (Json.asWord v).map fun ip => (x.1, { x.2 with ip })
  else if key = "action" then
    (Json.orDefault Json.asString v).map fun action => (x.1, { x.2 with action })
  else if key = "extra" then (Extra.decode v).map fun extra => (x.1, { x.2 with extra })
  else if key = "notes" then
    (Json.orDefault (Json.asList Json.asString) v).map fun notes => (x.1, { x.2 with notes })
  else .ok x

def complete (x : Option EventKind × Event) : Except Json.DecodeFault Event :=
  match x.1 with
  | some kind => .ok { x.2 with kind }
  | none => .error (.missing "kind")

def decode : Json.Decoder Event :=
  Json.asRecord "Event" ["kind", "count", "ip", "action", "extra", "notes"]
    (none, ofKind .other) setField complete

end Event

end TraceExplorer
