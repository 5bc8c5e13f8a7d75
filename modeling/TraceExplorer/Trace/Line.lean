import TraceExplorer.CharClass.Word
import TraceExplorer.MachineId
import TraceExplorer.Text.Basic

/-
  Lines of a trace. After an optional place in a program (`file.ext:12: `) a line names a
  machine and goes on with a record, `# count action @0xip key=value…`, or with a note. A line
  that names no machine is stray.
-/

namespace TraceExplorer.Trace

open CharClass (isWord isDecimalDigit)

/-- One or more characters of `p` at the front, all of them, taken off. -/
def skip? (p : Char → Bool) : List Char → Option (List Char)
  | [] => none
  | c :: s => if p c then some (s.dropWhile p) else none

def isSpace (c : Char) : Bool := c == ' '

/-- A place `name.name:digits:` and the spaces after it, taken off the front. -/
def skipPlace? (s : List Char) : Option (List Char) :=
  match skip? isWord s with
  | some ('.' :: s) =>
    match skip? isWord s with
    | some (':' :: s) =>
      match skip? isDecimalDigit s with
      | some (':' :: s) => skip? isSpace s
      | _ => none
    | _ => none
  | _ => none

/-- An identifier at the front, and the text after the spaces behind it. -/
structure Header where
  id : MachineId.Shape
  body : List Char

def headerHere? (s : List Char) : Option Header :=
  (MachineId.shape? s).bind fun x =>
    (skip? isSpace x.rest).bind fun body => if body.isEmpty then none else some ⟨x, body⟩

/-- The first header behind a place, wherever the place starts. -/
def placedHeader? : List Char → Option Header
  | [] => none
  | c :: s =>
    match (skipPlace? (c :: s)).bind headerHere? with
    | some h => some h
    | none => placedHeader? s

/-- A header at the very front, else the first one behind a place. -/
def header? (s : List Char) : Option Header :=
  match headerHere? s with
  | some h => some h
  | none => placedHeader? s

/-- What a record or a note starts with, to say what it is about. -/
inductive Mark where
  | pre
  | post
  | copy
  | frame
deriving Repr, DecidableEq

/-- The mark at the front of a text, and the text after it and its blanks. -/
def takeMark : List Char → Option Mark × List Char
  | '>' :: '>' :: '>' :: s => (some .pre, Text.trimStart s)
  | '.' :: '.' :: '.' :: s => (some .post, Text.trimStart s)
  | '+' :: '+' :: '+' :: s => (some .copy, Text.trimStart s)
  | '=' :: '=' :: '=' :: s => (some .frame, Text.trimStart s)
  | s => (none, s)

structure Record where
  count : UInt64
  mark : Option Mark
  action : String
  ip : UInt64
  /-- The `key=value` text at the end. -/
  tail : String
deriving Repr, DecidableEq

/-- An address `@0x…` at the front: its digits, and the text after it. -/
def ipHere? : List Char → Option (List Char × List Char)
  | '@' :: '0' :: 'x' :: s =>
    let ds := s.takeWhile Char.isAlphanum
    if ds.isEmpty then none else some (ds, s.dropWhile Char.isAlphanum)
  | _ => none

/-- A text cut at its last address that follows a space: before the space, the digits, after. -/
def cutAtIp? : List Char → Option (List Char × List Char × List Char)
  | [] => none
  | c :: s =>
    match cutAtIp? s with
    | some (before, ds, after) => some (c :: before, ds, after)
    | none =>
      if isSpace c then (ipHere? s).map fun (ds, after) => ([], ds, after) else none

/-- The word of a text of hexadecimal digits, zero for any other text. -/
def ipOf (ds : List Char) : UInt64 :=
  ((Number.hexDigits? ds).bind Number.word64?).getD 0

/-- The word of a text of decimal digits, zero for any other text. -/
def countOf (ds : List Char) : UInt64 := (Number.wordDigits? ds).getD 0

/-- A record from its parts. -/
def Record.ofParts (count action ip after : List Char) : Record :=
  let (mark, action) := takeMark (Text.trimEnd action)
  { count := countOf count
    mark
    action := String.ofList (Text.trim action)
    ip := ipOf ip
    tail := if after.head?.any isSpace then String.ofList (after.dropWhile isSpace) else "" }

/-- The record behind a `#`. Without an action there must be three spaces before the address. -/
def recordBehind? (s : List Char) : Option Record :=
  (skip? isSpace s).bind fun s =>
    let count := s.takeWhile isDecimalDigit
    (skip? isDecimalDigit s).bind fun s =>
      let body := s.dropWhile isSpace
      if (s.takeWhile isSpace).isEmpty then none
      else
        match cutAtIp? body with
        | some (action, ip, after) => some (Record.ofParts count action ip after)
        | none =>
          if 3 ≤ (s.takeWhile isSpace).length then
            (ipHere? body).map fun (ip, after) => Record.ofParts count [] ip after
          else none

/-- The first record in a text, wherever its `#` stands. -/
def record? : List Char → Option Record
  | [] => none
  | c :: s =>
    match if c == '#' then recordBehind? s else none with
    | some r => some r
    | none => record? s

inductive Line where
  | stray (text : String)
  | note (id : MachineId) (text : String)
  | record (id : MachineId) (r : Record)
deriving Repr, DecidableEq

/-- Reads a line; spaces and line ends behind it do not count. -/
def Line.ofString (line : String) : Line :=
  let s := Text.dropEndWhile (fun c => c == ' ' || c == '\r' || c == '\n') line.toList
  match header? s with
  | none => .stray (String.ofList s)
  | some h =>
    match h.id.id? with
    | none => .stray (String.ofList s)
    | some id =>
      match record? h.body with
      | some r => .record id r
      | none => .note id (String.ofList (takeMark h.body).2)

end TraceExplorer.Trace
