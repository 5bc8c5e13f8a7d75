import TraceExplorer.Dict
import TraceExplorer.Number.Binary64

/-
  JSON values. An object keeps its fields in the order given; values read from text have each
  key once, in ascending order (`Json.object`).
-/

namespace TraceExplorer

open Number (Binary64)

/-- A JSON value; numbers are integers of 64 bits, signed or not, or floating-point numbers. -/
inductive Json where
  | null
  | bool (b : Bool)
  | int (n : Int)
  | real (x : Binary64)
  | str (s : String)
  | arr (items : List Json)
  | obj (fields : List (String × Json))
deriving Inhabited

namespace Json

/-- An object whose fields come in any order: of one key the last value stays. -/
def object (fields : List (String × Json)) : Json := .obj (Dict.ofList fields).entries

def word (n : UInt64) : Json := .int n.toNat

def nat (n : Nat) : Json := .int n

def strings (l : List String) : Json := .arr (l.map .str)

def optional (f : α → Json) : Option α → Json
  | none => .null
  | some a => f a

/-- The value of a field of an object. -/
def field? (key : String) : Json → Option Json
  | .obj fields => fields.lookup key
  | _ => none

def string? : Json → Option String
  | .str s => some s
  | _ => none

end Json

end TraceExplorer
