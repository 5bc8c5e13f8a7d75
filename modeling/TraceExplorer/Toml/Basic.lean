/-
  TOML values, and tables put together from the keys and headers of a document. A key is given
  once, and a table is opened by one header or by dotted keys, never by both.
-/

namespace TraceExplorer

inductive Toml where
  | str (s : String)
  | int (n : Int)
  | bool (b : Bool)
  /-- A floating-point number, a date or a time; its value is not kept. -/
  | other
  | arr (items : List Toml)
  | table (fields : List (String × Toml))
deriving Inhabited

namespace Toml

/-- What opened a table. -/
inductive Origin where
  | header
  /-- The header of a table inside it. -/
  | innerHeader
  | dottedKey
deriving DecidableEq

/-- A field of a document under construction. -/
inductive Item where
  | value (v : Toml)
  | table (origin : Origin) (fields : List (String × Item))
  /-- Tables under one repeated header; headers go on with the last one. -/
  | tables (earlier : List (List (String × Item))) (last : List (String × Item))

abbrev Fields := List (String × Item)

/-- Changes the field of a key, or adds one. -/
def set (key : String) (item : Item) : Fields → Fields
  | [] => [(key, item)]
  | e :: l => if e.1 = key then (key, item) :: l else e :: set key item l

/-- Adds a value under a dotted key. -/
def put (v : Toml) : List String → Fields → Option Fields
  | [], _ => none
  | [key], fields =>
    if (fields.lookup key).isSome then none else some (set key (.value v) fields)
  | key :: rest, fields =>
    match fields.lookup key with
    | none => (put v rest []).map fun l => set key (.table .dottedKey l) fields
    | some (.table .dottedKey l) =>
      (put v rest l).map fun l => set key (.table .dottedKey l) fields
    | _ => none

/-- Adds the values of a section. -/
def putAll (pairs : List (List String × Toml)) (fields : Fields) : Option Fields :=
  pairs.foldlM (fun fields e => put e.2 e.1 fields) fields

/-- A table of its own from its keys and values. -/
def ofPairs? (pairs : List (List String × Toml)) : Option Fields := putAll pairs []

/-- Changes what a header names. -/
def change (f : Option Item → Option Item) : List String → Fields → Option Fields
  | [], _ => none
  | [key], fields => (f (fields.lookup key)).map fun item => set key item fields
  | key :: rest, fields =>
    match fields.lookup key with
    | none => (change f rest []).map fun l => set key (.table .innerHeader l) fields
    | some (.table origin l) => (change f rest l).map fun l => set key (.table origin l) fields
    | some (.tables earlier l) => (change f rest l).map fun l => set key (.tables earlier l) fields
    | some (.value _) => none

/-- A part of a document: its header, none at the start, and the keys and values under it. -/
structure Section where
  header : List String
  /-- The header stands in double brackets: the table is one of several. -/
  isElement : Bool
  pairs : List (List String × Toml)

/-- The table that a section makes of what its header names. -/
def Section.item (s : Section) : Option Item → Option Item
  | none =>
    (ofPairs? s.pairs).map fun l => if s.isElement then .tables [] l else .table .header l
  | some (.table .innerHeader l) =>
    if s.isElement then none else (putAll s.pairs l).map (.table .header)
  | some (.tables earlier last) =>
    if s.isElement then (ofPairs? s.pairs).map (.tables (earlier ++ [last])) else none
  | _ => none

/-- Takes in a section. -/
def addSection (fields : Fields) (s : Section) : Option Fields :=
  if s.header.isEmpty then putAll s.pairs fields else change s.item s.header fields

mutual

/-- The value of a finished field. -/
def Item.toToml : Item → Toml
  | .value v => v
  | .table _ fields => .table (closeFields fields)
  | .tables earlier last => .arr (closeTables earlier ++ [.table (closeFields last)])

def closeFields : List (String × Item) → List (String × Toml)
  | [] => []
  | (key, item) :: l => (key, item.toToml) :: closeFields l

def closeTables : List (List (String × Item)) → List Toml
  | [] => []
  | fields :: l => .table (closeFields fields) :: closeTables l

end

end Toml

end TraceExplorer
