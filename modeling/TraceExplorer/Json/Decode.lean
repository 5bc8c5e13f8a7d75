import TraceExplorer.Fault
import TraceExplorer.Json.Printer

/-
  Taking JSON values as the things they stand for. A value of the wrong shape is reported by
  what was found and what was expected; `null` stands for a default only where `orDefault` says.
-/

namespace TraceExplorer.Json

/-- What a place calls for. -/
inductive Expected where
  | string
  | word
  | sequence
  | map
  | stringOrMap
  | unit
  | record (name : String)
deriving Repr, DecidableEq

def Expected.text : Expected → String
  | .string => "a string"
  | .word => "u64"
  | .sequence => "a sequence"
  | .map => "a map"
  | .stringOrMap => "string or map"
  | .unit => "unit"
  | .record name => "struct " ++ name

/-- A value as messages name it. -/
def described : Json → String
  | .null => "null"
  | .bool b => "boolean `" ++ (if b then "true" else "false") ++ "`"
  | .int n => "integer `" ++ Number.integer n ++ "`"
  | .real x => "floating point `" ++ x.text ++ "`"
  | .str s => "string " ++ Text.quoted s
  | .arr _ => "sequence"
  | .obj _ => "map"

inductive DecodeFault where
  | wrongType (found : Json) (expected : Expected)
  | negative (n : Int)
  | notOneKey
  | missing (field : String)
  | tooShort (length : Nat) (name : String) (fields : Nat)
  | tooLong (length : Nat)
  | badId (fault : Fault)

def DecodeFault.message : DecodeFault → String
  | .wrongType found expected =>
    "invalid type: " ++ found.described ++ ", expected " ++ expected.text
  | .negative n => "invalid value: integer `" ++ Number.integer n ++ "`, expected u64"
  | .notOneKey => "invalid value: map, expected map with a single key"
  | .missing field => "missing field `" ++ field ++ "`"
  | .tooShort length name fields =>
    "invalid length " ++ Number.natural length ++ ", expected struct " ++ name ++ " with "
      ++ Number.natural fields ++ " elements"
  | .tooLong length =>
    "invalid length " ++ Number.natural length ++ ", expected fewer elements in array"
  | .badId fault => fault.message

abbrev Decoder (α : Type) := Json → Except DecodeFault α

def asString : Decoder String
  | .str s => .ok s
  | v => .error (.wrongType v .string)

def asWord : Decoder UInt64
  | .int n =>
    if 0 ≤ n then
      match Number.word64? n.toNat with
      | some w => .ok w
      | none => .error (.wrongType (.int n) .word)
    else .error (.negative n)
  | v => .error (.wrongType v .word)

def asUnit : Decoder Unit
  | .null => .ok ()
  | v => .error (.wrongType v .unit)

def asList (item : Decoder α) : Decoder (List α)
  | .arr items => items.mapM item
  | v => .error (.wrongType v .sequence)

/-- The fields of an object by ascending key, the last of equal keys. -/
def asMap : Decoder (Dict String Json)
  | .obj fields => .ok (Dict.ofList fields)
  | v => .error (.wrongType v .map)

/-- A string for every key. -/
def asStringMap (v : Json) : Except DecodeFault (Dict String String) :=
  (asMap v).bind fun m =>
    (m.entries.mapM fun e => (asString e.2).map fun s => (e.1, s)).map Dict.ofList

/-- `null` stands for the default. -/
def orDefault [Inhabited α] (decode : Decoder α) : Decoder α
  | .null => .ok default
  | v => decode v

/-- `null` stands for nothing. -/
def orNone (decode : Decoder α) : Decoder (Option α)
  | .null => .ok none
  | v => (decode v).map some

def asMachineId (v : Json) : Except DecodeFault MachineId :=
  (asString v).bind fun s =>
    match MachineId.decode s with
    | .ok id => .ok id
    | .error fault => .error (.badId fault)

/-- A record with named fields, given as an object (fields in the order of their keys, unknown
ones passed over) or as an array (fields in the order of `names`, the last ones left out).
`set` takes in one field; `finish` checks that the needed ones were there. -/
def asRecord (name : String) (names : List String) (start : σ)
    (set : σ → String → Json → Except DecodeFault σ) (finish : σ → Except DecodeFault α) :
    Decoder α
  | .obj fields =>
    ((Dict.ofList fields).entries.foldlM (fun x e => set x e.1 e.2) start).bind finish
  | .arr items =>
    if items.isEmpty then .error (.tooShort 0 name names.length)
    else
      ((names.zip items).foldlM (fun x e => set x e.1 e.2) start).bind fun x =>
        (finish x).bind fun a =>
          if names.length < items.length then .error (.tooLong items.length) else .ok a
  | v => .error (.wrongType v (.record name))

end TraceExplorer.Json

namespace TraceExplorer

/-- An identifier stands in JSON as its text. -/
def MachineId.toJson (id : MachineId) : Json := .str id.text

end TraceExplorer
