import TraceExplorer.Number.Real
import TraceExplorer.Toml.Basic

/-
  TOML values written without quotes or brackets: booleans, integers of 64 bits,
  floating-point numbers, dates and times.
-/

namespace TraceExplorer.Toml

/-- A character that a scalar is written with. -/
def isScalarChar (c : Char) : Bool :=
  c.isAlphanum || c == '_' || c == '+' || c == '-' || c == '.' || c == ':'

/-- Digits with single underscores between them, these taken out. -/
def digits? (isDigit : Char → Bool) : List Char → Option (List Char)
  | [] => none
  | [d] => if isDigit d then some [d] else none
  | d :: '_' :: s => if isDigit d then (digits? isDigit s).map (d :: ·) else none
  | d :: s => if isDigit d then (digits? isDigit s).map (d :: ·) else none

/-- A number in base `base`. -/
def based? (base : Nat) (isDigit : Char → Bool) (s : List Char) : Option Nat :=
  (digits? isDigit s).bind fun ds =>
    (ds.mapM Number.hexDigit?).map fun ns => ns.foldl (fun n d => base * n + d) 0

/-- A decimal number without needless zeros in front. -/
def decimal? (s : List Char) : Option Nat :=
  match s with
  | '0' :: _ :: _ => none
  | s => based? 10 Char.isDigit s

def isBinaryDigit (c : Char) : Bool := c == '0' || c == '1'

def isOctalDigit (c : Char) : Bool := '0' ≤ c && c ≤ '7'

def isHexDigit (c : Char) : Bool := (Number.hexDigit? c).isSome

/-- A number that fits in 64 bits with its sign. -/
def positive? (n : Option Nat) : Option Int :=
  n.bind fun n => if n < Number.integerLimit then some (n : Int) else none

def integer? (s : List Char) : Option Int :=
  match s with
  | '-' :: s =>
    (decimal? s).bind fun n => if n ≤ Number.integerLimit then some (-(n : Int)) else none
  | '+' :: s => positive? (decimal? s)
  | '0' :: 'x' :: s => positive? (based? 16 isHexDigit s)
  | '0' :: 'o' :: s => positive? (based? 8 isOctalDigit s)
  | '0' :: 'b' :: s => positive? (based? 2 isBinaryDigit s)
  | s => positive? (decimal? s)

def dropSign : List Char → List Char
  | '+' :: s => s
  | '-' :: s => s
  | s => s

def isExponentMark (c : Char) : Bool := c == 'e' || c == 'E'

/-- An exponent behind its mark, or nothing. -/
def isExponent : List Char → Bool
  | [] => true
  | c :: s => isExponentMark c && (digits? Char.isDigit (dropSign s)).isSome

/-- A whole part with a fraction, an exponent or both. -/
def isDecimal (s : List Char) : Bool :=
  let isPart (c : Char) : Bool := c.isDigit || c == '_'
  let whole := s.takeWhile isPart
  let behind :=
    match s.dropWhile isPart with
    | '.' :: r =>
      (digits? Char.isDigit (r.takeWhile isPart)).isSome && isExponent (r.dropWhile isPart)
    | r => !r.isEmpty && isExponent r
  (decimal? whole).isSome && behind

/-- There is a floating-point number near a decimal. -/
def isInRange (s : List Char) : Bool := (Number.real? (s.filter (· != '_'))).isSome

/-- A floating-point number. A negative one may be too large, and is infinite then; a positive
one may not. -/
def isFloat (s : List Char) : Bool :=
  let body := dropSign s
  body == ['i', 'n', 'f'] || body == ['n', 'a', 'n']
    || (isDecimal body && (s.head? == some '-' || isInRange body))

/-- Two digits, as a number. -/
def twoDigits? (a b : Char) : Option Nat := Number.digits? [a, b]

def daysIn (year month : Nat) : Nat :=
  if month = 2 then
    if year % 4 = 0 ∧ (year % 100 ≠ 0 ∨ year % 400 = 0) then 29 else 28
  else if month = 4 ∨ month = 6 ∨ month = 9 ∨ month = 11 then 30 else 31

def isDay (year month day : Option Nat) : Bool :=
  match year, month, day with
  | some y, some m, some d => 1 ≤ m && m ≤ 12 && 1 ≤ d && d ≤ daysIn y m
  | _, _, _ => false

def isLess (limit : Nat) (n : Option Nat) : Bool := n.any fun n => n < limit

/-- How far a local time is from the universal one. -/
def isOffset : List Char → Bool
  | [] => true
  | ['Z'] => true
  | ['z'] => true
  | [sign, a, b, ':', c, d] =>
    (sign == '+' || sign == '-') && isLess 24 (twoDigits? a b) && isLess 60 (twoDigits? c d)
  | _ => false

/-- A time of day, what follows it being checked by `rest`. -/
def isTime (rest : List Char → Bool) : List Char → Bool
  | a :: b :: ':' :: c :: d :: ':' :: e :: f :: s =>
    let inDay :=
      isLess 24 (twoDigits? a b) && isLess 60 (twoDigits? c d) && isLess 61 (twoDigits? e f)
    match s with
    | '.' :: r =>
      inDay && !(r.takeWhile Char.isDigit).isEmpty && rest (r.dropWhile Char.isDigit)
    | s => inDay && rest s
  | _ => false

/-- A date, a time, or both. -/
def isMoment : List Char → Bool
  | a :: b :: c :: d :: '-' :: e :: f :: '-' :: g :: h :: s =>
    isDay (Number.digits? [a, b, c, d]) (twoDigits? e f) (twoDigits? g h) &&
      match s with
      | [] => true
      | t :: s => (t == 'T' || t == 't' || t == ' ') && isTime isOffset s
  | s => isTime List.isEmpty s

def scalar? (s : List Char) : Option Toml :=
  if s = ['t', 'r', 'u', 'e'] then some (.bool true)
  else if s = ['f', 'a', 'l', 's', 'e'] then some (.bool false)
  else
    match integer? s with
    | some n => some (.int n)
    | none => if isFloat s || isMoment s then some .other else none

end TraceExplorer.Toml
