import TraceExplorer.Session.Event

/-
  Sessions: what one machine did, from its making to its end, and the JSON that stands for it.
-/

namespace TraceExplorer

structure Session where
  id : String
  parentId : Option String
  error : String
  values : String
  records : List Event
  /-- What the session reported at its end. -/
  extra : Dict String String
  /-- Lines that belong to the session and could not be read. -/
  unknown : List String
deriving Inhabited

namespace Session

/-- A session of which nothing is known but its identifier. -/
def ofId (id : String) : Session := ⟨id, none, "", "", [], .empty, []⟩

/-- A goal is a session that ended without an error and with values. -/
def isGoal (s : Session) : Bool := s.error == "" && s.values != ""

/-- The count of the last record, zero without records. -/
def finalCount (s : Session) : UInt64 :=
  match s.records.getLast? with
  | some e => e.count
  | none => 0

/-- How many operations the session finished. -/
def postOpCount (s : Session) : Nat := s.records.countP fun e => e.kind = .postOp

/-- Where the first copy stands that made `child`. -/
def firstCopyTo? (s : Session) (child : String) : Option Nat :=
  s.records.findIdx? (·.copiesTo child)

/-- The count of the last copy that made `child`. -/
def lastCopyCountTo? (s : Session) (child : String) : Option UInt64 :=
  (s.records.reverse.find? (·.copiesTo child)).map (·.count)

/-- What the session reported at its end, as values, if it has none. -/
def fillValues (s : Session) : Session :=
  if s.values == "" && !s.extra.isEmpty then
    { s with values := " ".intercalate (s.extra.entries.map fun e => e.1 ++ "=" ++ e.2) }
  else s

def toJson (s : Session) : Json :=
  .obj <|
    [("id", .str s.id), ("parent_id", .optional .str s.parentId), ("error", .str s.error),
      ("values", .str s.values), ("records", .arr (s.records.map Event.toJson))]
    ++ (if s.extra.isEmpty then [] else [("extra", .obj (s.extra.map .str).entries)])
    ++ (if s.unknown.isEmpty then [] else [("unknown", .strings s.unknown)])

/-- Takes in a field; the identifier is kept apart until all fields are seen. -/
def setField (x : Option String × Session) (key : String) (v : Json) :
    Except Json.DecodeFault (Option String × Session) :=
  if key = "id" then (Json.asString v).map fun id => (some id, x.2)
  else if key = "parent_id" then
    (Json.orNone Json.asString v).map fun parentId => (x.1, { x.2 with parentId })
  else if key = "error" then
    (Json.orDefault Json.asString v).map fun error => (x.1, { x.2 with error })
  else if key = "values" then
    (Json.orDefault Json.asString v).map fun values => (x.1, { x.2 with values })
  else if key = "records" then
    (Json.orDefault (Json.asList Event.decode) v).map fun records => (x.1, { x.2 with records })
  else if key = "extra" then
    (Json.orDefault Json.asStringMap v).map fun extra => (x.1, { x.2 with extra })
  else if key = "unknown" then
    (Json.orDefault (Json.asList Json.asString) v).map fun unknown => (x.1, { x.2 with unknown })
  else .ok x

def complete (x : Option String × Session) : Except Json.DecodeFault Session :=
  match x.1 with
  | some id => .ok { x.2 with id }
  | none => .error (.missing "id")

def decode : Json.Decoder Session :=
  Json.asRecord "Session" ["id", "parent_id", "error", "values", "records", "extra", "unknown"]
    (none, ofId "") setField complete

end Session

end TraceExplorer
