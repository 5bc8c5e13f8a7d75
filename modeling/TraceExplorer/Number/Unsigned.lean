/-
  Whole numbers read from decimal text.
  `digits?` takes ASCII digits only; `word64?` keeps what fits in 64 bits.
-/

namespace TraceExplorer.Number

/-- The value of a text of one or more ASCII digits. -/
def digits? (s : List Char) : Option Nat :=
  if s.isEmpty then none
  else if s.all Char.isDigit then some (Nat.ofDigitChars 10 s 0)
  else none

/-- A number below `2^64` as a word. -/
def word64? (n : Nat) : Option UInt64 :=
  if n < UInt64.size then some (UInt64.ofNat n) else none

/-- A word written with digits only. -/
def wordDigits? (s : List Char) : Option UInt64 := (digits? s).bind word64?

/-- A word written with digits, a plus sign allowed before them. -/
def word? (s : List Char) : Option UInt64 :=
  match s with
  | '+' :: ds => wordDigits? ds
  | ds => wordDigits? ds

/-- Integers of 64 bits are below this number, and not below its negative. -/
def integerLimit : Nat := 0x8000000000000000

/-- An integer of 64 bits with an optional sign. -/
def integer? (s : List Char) : Option Int :=
  match s with
  | '-' :: ds => (digits? ds).bind fun n => if n ≤ integerLimit then some (-(n : Int)) else none
  | '+' :: ds => (digits? ds).bind fun n => if n < integerLimit then some (n : Int) else none
  | ds => (digits? ds).bind fun n => if n < integerLimit then some (n : Int) else none

/-- The value of a hexadecimal digit of either case. -/
def hexDigit? (c : Char) : Option Nat :=
  if '0' ≤ c ∧ c ≤ '9' then some (c.toNat - '0'.toNat)
  else if 'a' ≤ c ∧ c ≤ 'f' then some (c.toNat - 'a'.toNat + 10)
  else if 'A' ≤ c ∧ c ≤ 'F' then some (c.toNat - 'A'.toNat + 10)
  else none

/-- The value of a text of one or more hexadecimal digits. -/
def hexDigits? (s : List Char) : Option Nat :=
  if s.isEmpty then none
  else s.foldlM (fun n c => (hexDigit? c).map (16 * n + ·)) 0

/-- A word in decimal. -/
def decimal (n : UInt64) : String := String.ofList (Nat.toDigits 10 n.toNat)

/-- A number in decimal. -/
def natural (n : Nat) : String := String.ofList (Nat.toDigits 10 n)

/-- An integer in decimal, a minus sign before it if it is negative. -/
def integer (n : Int) : String :=
  String.ofList ((if n < 0 then ['-'] else []) ++ Nat.toDigits 10 n.natAbs)

/-- A word in hexadecimal, with `0x` before it and at least `width` characters in all. -/
def hexadecimal (width : Nat) (n : UInt64) : String :=
  let ds := Nat.toDigits 16 n.toNat
  "0x" ++ String.ofList (List.replicate (width - 2 - ds.length) '0' ++ ds)

end TraceExplorer.Number
