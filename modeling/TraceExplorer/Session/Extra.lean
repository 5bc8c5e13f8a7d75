import TraceExplorer.Json.Decode

/-
  The free-form data of an event. The keys that the explorer acts on are decoded where they
  have the shape it expects; every other key, and these keys in another shape, stay as they are.
-/

namespace TraceExplorer

/-- The labels that a marker of a span names. -/
inductive SpanMarker where
  /-- The labels of the event's own location. -/
  | here
  | labels (names : List String)
deriving Repr, DecidableEq

namespace SpanMarker

/-- The labels meant, given those of the location. -/
def resolve (m : SpanMarker) (location : List String) : List String :=
  match m with
  | .here => location
  | .labels names => names

def toJson : SpanMarker → Json
  | .here => .bool true
  | .labels names => .strings names

end SpanMarker

/-- One string, or an array of strings. -/
def labelList? : Json → Option (List String)
  | .str s => some [s]
  | .arr items => items.mapM Json.string?
  | _ => none

/-- The marker that a value means, or that it means none; other values have no meaning. -/
def spanMarker? : Json → Option (Option SpanMarker)
  | .bool true => some (some .here)
  | .bool false => some none
  | v => (labelList? v).map fun names => some (.labels names)

/-- The data of an event. -/
structure Extra where
  /-- The session that a copy made. -/
  child : Option String
  /-- The session that made this one. -/
  parent : Option String
  /-- The labels of the location. -/
  labels : List String
  spanOpen : Option SpanMarker
  spanClose : Option SpanMarker
  /-- Everything else. -/
  rest : Dict String Json

namespace Extra

def empty : Extra := ⟨none, none, [], none, none, .empty⟩

instance : Inhabited Extra := ⟨empty⟩

/-- Takes in the value of a key. -/
def add (x : Extra) (key : String) (value : Json) : Extra :=
  let kept := { x with rest := x.rest.insert key value }
  if key = "child" then
    (value.string?.map fun s => { x with child := some s }).getD kept
  else if key = "parent" then
    (value.string?.map fun s => { x with parent := some s }).getD kept
  else if key = "labels" then
    ((labelList? value).map fun names => { x with labels := names }).getD kept
  else if key = "spanOpen" then
    ((spanMarker? value).map fun m => { x with spanOpen := m }).getD kept
  else if key = "spanClose" then
    ((spanMarker? value).map fun m => { x with spanClose := m }).getD kept
  else kept

def ofDict (d : Dict String Json) : Extra := d.entries.foldl (fun x e => x.add e.1 e.2) empty

/-- The entry of a key that may be absent. -/
def entry (key : String) (value : Option Json) (d : Dict String Json) : Dict String Json :=
  match value with
  | some v => d.insert key v
  | none => d

/-- All data by key; a decoded key takes the place of one kept as it was. -/
def toDict (x : Extra) : Dict String Json :=
  let labels := if x.labels.isEmpty then none else some (Json.strings x.labels)
  x.rest
    |> entry "child" (x.child.map .str)
    |> entry "parent" (x.parent.map .str)
    |> entry "labels" labels
    |> entry "spanOpen" (x.spanOpen.map SpanMarker.toJson)
    |> entry "spanClose" (x.spanClose.map SpanMarker.toJson)

def toJson (x : Extra) : Json := .obj x.toDict.entries

/-- `x.overlay y` has what `y` sets, and what `x` sets where `y` sets nothing. -/
def overlay (x y : Extra) : Extra where
  child := y.child <|> x.child
  parent := y.parent <|> x.parent
  labels := if y.labels.isEmpty then x.labels else y.labels
  spanOpen := y.spanOpen <|> x.spanOpen
  spanClose := y.spanClose <|> x.spanClose
  rest := x.rest.insertAll y.rest.entries

def isEmpty (x : Extra) : Bool :=
  x.child.isNone && x.parent.isNone && x.labels.isEmpty && x.spanOpen.isNone
    && x.spanClose.isNone && x.rest.isEmpty

/-- A value behind its key: a string as it is, another value as JSON. -/
def pairText (key : String) (value : Json) : String :=
  key ++ "=" ++ (match value with
    | .str s => s
    | v => v.compact)

/-- All data on one line, by ascending key. -/
def text (x : Extra) : String :=
  " ".intercalate (x.toDict.entries.map fun e => pairText e.1 e.2)

def decode : Json.Decoder Extra := Json.orDefault fun v => (Json.asMap v).map ofDict

end Extra

end TraceExplorer
