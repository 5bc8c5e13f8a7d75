import TraceExplorer.Number.Binary64

/-
  The text of a floating-point number: the fewest digits that read back as the number, of
  those the nearest to it, set with a point or with an exponent.
-/

namespace TraceExplorer.Number.Binary64

/-- The reals that round to one number: their ends and the number itself in a common unit, and
whether the ends belong. -/
structure Interval where
  low : Nat
  value : Nat
  high : Nat
  closed : Bool

/-- The reals that round to `x`, in units of `2^-1076`; the ends belong to an even mantissa. -/
def interval (x : Binary64) : Interval :=
  let below := if x.mantissa = Nat.pow 2 52 ∧ 0 < x.scale then 1 else 2
  { low := (4 * x.mantissa - below) * Nat.pow 2 x.scale
    value := 4 * x.mantissa * Nat.pow 2 x.scale
    high := (4 * x.mantissa + 2) * Nat.pow 2 x.scale
    closed := x.mantissa % 2 == 0 }

def Interval.contains (i : Interval) (n : Nat) : Bool :=
  if i.closed then i.low ≤ n && n ≤ i.high else i.low < n && n < i.high

/-- All ends multiplied by `k`. -/
def Interval.times (i : Interval) (k : Nat) : Interval :=
  ⟨i.low * k, i.value * k, i.high * k, i.closed⟩

/-- The multiple of `step` in the interval that is nearest to its value, the even one of two. -/
def Interval.nearest? (i : Interval) (step : Nat) : Option Nat :=
  let n := i.value / step
  let below := i.value - n * step
  let above := (n + 1) * step - i.value
  match i.contains (n * step), i.contains ((n + 1) * step) with
  | true, true =>
    if below < above then some n
    else if above < below then some (n + 1)
    else if n % 2 = 0 then some n else some (n + 1)
  | true, false => some n
  | false, true => some (n + 1)
  | false, false => none

/-- The place of the first digit: the number lies in `[10^(p-1), 10^p)`. -/
def Interval.firstPlace (i : Interval) : Int :=
  ((Nat.toDigits 10 (i.value * Nat.pow 10 400 / Nat.pow 2 1076)).length : Int) - 400

/-- The number with `n` digits, if one of them reads back: the digits and the last place. -/
def Interval.withDigits? (i : Interval) (n : Nat) : Option (Nat × Int) :=
  let place := i.firstPlace - n
  let found :=
    if 0 ≤ place then i.nearest? (Nat.pow 2 1076 * Nat.pow 10 place.toNat)
    else (i.times (Nat.pow 10 (-place).toNat)).nearest? (Nat.pow 2 1076)
  found.map fun d => (d, place)

/-- The fewest digits that read back, and the power of ten of the last one. -/
def shortest (x : Binary64) : Nat × Int :=
  ((List.range 18).findSome? fun n => x.interval.withDigits? (n + 1)).getD (0, 0)

/-- A decimal with its point, when the first digit stands at a place from `10^-5` to `10^15`;
else one digit, the others after a point, and a signed exponent. -/
def layOut (ds : List Char) (place : Int) : List Char :=
  let point := (ds.length : Int) + place
  if 0 ≤ place ∧ point ≤ 16 then ds ++ List.replicate place.toNat '0' ++ ['.', '0']
  else if 0 < point ∧ point ≤ 16 then ds.take point.toNat ++ '.' :: ds.drop point.toNat
  else if -5 < point ∧ point ≤ 0 then ['0', '.'] ++ List.replicate (-point).toNat '0' ++ ds
  else
    let e := point - 1
    let exponent := (if 0 ≤ e then ['e', '+'] else ['e', '-']) ++ Nat.toDigits 10 e.natAbs
    match ds with
    | [] => exponent
    | [d] => d :: exponent
    | d :: ds => d :: '.' :: ds ++ exponent

/-- The text of a number. -/
def text (x : Binary64) : String :=
  let body :=
    if x.isZero then ['0', '.', '0']
    else
      let (d, place) := x.shortest
      let ds := Nat.toDigits 10 d
      let kept := (ds.reverse.dropWhile (· == '0')).reverse
      layOut kept (place + (ds.length - kept.length : Nat))
  String.ofList (if x.negative then '-' :: body else body)

end TraceExplorer.Number.Binary64
