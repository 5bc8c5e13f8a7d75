import TraceExplorer.Number.Unsigned
import TraceExplorer.Text.Utf8

/-
  Targets of requests: a path in segments, and fields after `?`. Both are percent-encoded; in
  the fields a plus sign stands for a space. A scheme and a host may stand before the path.
-/

namespace TraceExplorer.Http

/-- A list in parts, cut at every element equal to `mark`. -/
def splitAt [BEq α] (mark : α) : List α → List (List α)
  | [] => [[]]
  | a :: l =>
    if a == mark then [] :: splitAt mark l
    else
      match splitAt mark l with
      | [] => [[a]]
      | part :: parts => (a :: part) :: parts

/-- Bytes with `%` and two hexadecimal digits standing for one byte. -/
def percentDecoded : List UInt8 → List UInt8
  | 37 :: a :: b :: s =>
    match Number.hexDigits? [Char.ofNat a.toNat, Char.ofNat b.toNat] with
    | some n => UInt8.ofNat n :: percentDecoded s
    | none => 37 :: percentDecoded (a :: b :: s)
  | b :: s => b :: percentDecoded s
  | [] => []

/-- A segment of a path, decoded. -/
def segmentText? (s : String) : Option String :=
  String.fromUTF8? ⟨(percentDecoded s.toUTF8.toList).toArray⟩

/-- A key or a value of a field, decoded. -/
def fieldText (s : List Char) : String :=
  let bytes := (String.ofList s).toUTF8.toList
  Text.Utf8.decode (percentDecoded (bytes.map fun b => if b = 43 then 32 else b))

/-- A field: its key, and its value behind the first `=`. -/
def fieldOf (s : List Char) : String × String :=
  (fieldText (s.takeWhile (· != '=')), fieldText ((s.dropWhile (· != '=')).drop 1))

structure Target where
  /-- The segments behind the slashes, as written. -/
  segments : List String
  fields : List (String × String)

/-- The text behind the first `://`, if there is one. -/
def behindScheme? : List Char → Option (List Char)
  | [] => none
  | ':' :: '/' :: '/' :: s => some s
  | _ :: s => behindScheme? s

/-- A target without the scheme and the host that may stand before its path. -/
def dropHost (s : List Char) : List Char :=
  match s with
  | '/' :: _ => s
  | s => ((behindScheme? s).map fun s => s.dropWhile fun c => c != '/' && c != '?').getD s

/-- A target from its text; what follows `#` does not count. -/
def Target.ofString (s : String) : Target :=
  let cs := dropHost (s.toList.takeWhile (· != '#'))
  let path := cs.takeWhile (· != '?')
  let query := (cs.dropWhile (· != '?')).drop 1
  { segments := ((splitAt '/' path).drop 1).map String.ofList
    fields := ((splitAt '&' query).filter (!·.isEmpty)).map fieldOf }

/-- The value of a field that may be given once; `none` if it is given more often. -/
def Target.field? (t : Target) (key : String) : Option (Option String) :=
  match t.fields.filter (·.1 == key) with
  | [] => some none
  | [e] => some (some e.2)
  | _ => none

end TraceExplorer.Http
