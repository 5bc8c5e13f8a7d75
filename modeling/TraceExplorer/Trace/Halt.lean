import TraceExplorer.CharClass.Basic
import TraceExplorer.Session.Basic

/-
  The halt code that the error of a session reports, `HALT(<code>)`.
-/

namespace TraceExplorer.Trace

open CharClass (isDecimalDigit)

/-- The digits of a halt code at the front. -/
def haltDigits? : List Char → Option (List Char)
  | 'H' :: 'A' :: 'L' :: 'T' :: '(' :: s =>
    let ds := s.takeWhile isDecimalDigit
    match s.dropWhile isDecimalDigit with
    | ')' :: _ => if ds.isEmpty then none else some ds
    | _ => none
  | _ => none

/-- The digits of the first halt code in a text. -/
def firstHalt? : List Char → Option (List Char)
  | [] => none
  | c :: s =>
    match haltDigits? (c :: s) with
    | some ds => some ds
    | none => firstHalt? s

/-- The first halt code in a text, if it is a word. -/
def haltCode? (error : String) : Option UInt64 := (firstHalt? error.toList).bind Number.wordDigits?

/-- The sessions whose halt code is not among the ignored ones. -/
def dropHalted (ignored : List UInt64) (sessions : List Session) : List Session :=
  sessions.filter fun s =>
    match haltCode? s.error with
    | some code => !ignored.contains code
    | none => true

end TraceExplorer.Trace
