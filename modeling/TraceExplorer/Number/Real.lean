import TraceExplorer.Number.Unsigned
import TraceExplorer.Number.Binary64

/-
  Floating-point numbers read from decimal text: an optional sign, digits with at most one
  point among them, and an optional exponent.
-/

namespace TraceExplorer.Number

/-- A sign taken off the front; `true` is minus. -/
def takeSign : List Char → Bool × List Char
  | '-' :: s => (true, s)
  | '+' :: s => (false, s)
  | s => (false, s)

/-- What may follow the digits: nothing, or `e` and an integer. -/
def exponent? : List Char → Option Int
  | [] => some 0
  | c :: s =>
    if c = 'e' ∨ c = 'E' then
      let (negative, ds) := takeSign s
      (digits? ds).map fun n => if negative then -(n : Int) else n
    else none

/-- The number nearest to the decimal that `s` writes, unless it is too large. -/
def real? (s : List Char) : Option Binary64 :=
  let (negative, s) := takeSign s
  let whole := s.takeWhile Char.isDigit
  let rest := s.dropWhile Char.isDigit
  let (fraction, rest) :=
    match rest with
    | '.' :: r => (r.takeWhile Char.isDigit, r.dropWhile Char.isDigit)
    | r => ([], r)
  if whole.isEmpty && fraction.isEmpty then none
  else
    (exponent? rest).bind fun e =>
      Binary64.ofDecimal negative (whole ++ fraction) (e - fraction.length)

end TraceExplorer.Number
