/-
  Finite binary floating-point numbers of 64 bits, as exact numbers.
  A number is `± mantissa · 2^scale` in units of `2^-1074`, the least positive one, so it needs
  no negative exponents. `ofRatio` rounds an exact quotient to the nearest number, ties to the
  even mantissa; everything else is exact arithmetic around it.
-/

namespace TraceExplorer.Number

/-- A finite number; `mantissa < 2^53`, and `2^52 ≤ mantissa` unless `scale = 0`. -/
structure Binary64 where
  negative : Bool
  mantissa : Nat
  scale : Nat
deriving Repr, DecidableEq, Inhabited

/-- The integer nearest to `num / den`, the even one of two. -/
def roundHalfEven (num den : Nat) : Nat :=
  let q := num / den
  let r := num % den
  if 2 * r < den then q
  else if den < 2 * r then q + 1
  else if q % 2 = 0 then q else q + 1

namespace Binary64

def zero (negative : Bool) : Binary64 := ⟨negative, 0, 0⟩

def isZero (x : Binary64) : Bool := x.mantissa == 0

/-- How many units the number is away from zero. -/
def units (x : Binary64) : Nat := x.mantissa * Nat.pow 2 x.scale

/-- The number nearest to `num / den`, unless that is beyond the largest one. -/
def ofRatio (negative : Bool) (num den : Nat) : Option Binary64 :=
  let num := num * Nat.pow 2 1074
  let s := Nat.log2 (num / den) + 1 - 53
  let m := roundHalfEven num (den * Nat.pow 2 s)
  let x : Binary64 :=
    if m = Nat.pow 2 53 then ⟨negative, Nat.pow 2 52, s + 1⟩ else ⟨negative, m, s⟩
  if x.scale ≤ 2045 then some x else none

/-- `significand · 10^exponent`, rounded once. -/
def ofDecimal (negative : Bool) (significand : List Char) (exponent : Int) : Option Binary64 :=
  let ds := significand.dropWhile (· == '0')
  let point := (ds.length : Int) + exponent
  if ds.isEmpty then some (zero negative)
  else if point > 310 then none
  else if point < -330 then some (zero negative)
  else
    let n := Nat.ofDigitChars 10 ds 0
    if 0 ≤ exponent then ofRatio negative (n * Nat.pow 10 exponent.toNat) 1
    else ofRatio negative n (Nat.pow 10 (-exponent).toNat)

/-- The product, rounded. -/
def mul (x y : Binary64) : Option Binary64 :=
  ofRatio (x.negative != y.negative) (x.units * y.units) (Nat.pow 2 2148)

/-- The quotient by a number that is not zero, rounded. -/
def div (x y : Binary64) : Option Binary64 :=
  ofRatio (x.negative != y.negative) x.units y.units

/-- The number nearest to `10^k`. -/
def powerOfTen (k : Nat) : Binary64 := (ofRatio false (Nat.pow 10 k) 1).getD (zero false)

/-- `x / 10^k` with one rounding for every 308 places. -/
def divPowerOfTen (x : Binary64) (k : Nat) : Option Binary64 :=
  if k ≤ 308 then x.div (powerOfTen k)
  else if x.isZero then some x
  else (x.div (powerOfTen 308)).bind fun y => divPowerOfTen y (k - 308)
termination_by k

/-- `n · 10^exponent` with `n` rounded first and the power taken in by a second rounding. -/
def ofScaled (negative : Bool) (n : Nat) (exponent : Int) : Option Binary64 :=
  (ofRatio negative n 1).bind fun x =>
    if exponent < 0 then x.divPowerOfTen (-exponent).toNat
    else if exponent ≤ 308 then x.mul (powerOfTen exponent.toNat)
    else if x.isZero then some x
    else none

end Binary64

end TraceExplorer.Number
