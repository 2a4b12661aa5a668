import Metering.Binary64

/-! # Shortest decimal text of a float

A finite float is `m * 2 ^ q` exactly. Its text has the fewest significant digits among the
decimals that round to it, and among those it is the nearest one; it is written out in full,
never with an exponent.
-/
namespace Metering.Text

/-- `value * 10 ^ exponent`. -/
structure Decimal where
  value : Nat
  exponent : Int
deriving DecidableEq, Repr

def ratio (m b : Nat) (e : Int) : Nat × Nat :=
  (m * Nat.pow b e.toNat, Nat.pow b (-e).toNat)

def decimalLength (n : Nat) : Nat :=
  if n = 0 then 0 else (Nat.toDigits 10 n).length

/-- The largest `k` with `10 ^ k ≤ num / den`. -/
def leadingPlace (num den : Nat) : Int :=
  if den ≤ num then (decimalLength (num / den) : Int) - 1
  else - (decimalLength ((den + num - 1) / num - 1) : Int)

/-- The reals that round to `m * 2 ^ q`, in units of `2 ^ (q - 2)`. The gap below a power of two is
half as wide, and the ends belong to the interval when `m` is even. -/
structure RoundingInterval where
  low : Nat
  middle : Nat
  high : Nat
  closed : Bool
  unit : Int

def RoundingInterval.of (m : Nat) (q : Int) (narrowBelow : Bool) : RoundingInterval :=
  ⟨4 * m - (if narrowBelow then 1 else 2), 4 * m, 4 * m + 2, m % 2 == 0, q - 2⟩

def RoundingInterval.contains (i : RoundingInterval) (d : Decimal) : Bool :=
  let (unitNum, unitDen) := ratio 1 2 i.unit
  let (num, den) := ratio d.value 10 d.exponent
  let x := num * unitDen
  let low := i.low * unitNum * den
  let high := i.high * unitNum * den
  if i.closed then low ≤ x && x ≤ high else low < x && x < high

/-- Of the two multiples of `10 ^ k` around the middle those that lie in the interval; the nearer
one wins, and the upper one on a tie. -/
def RoundingInterval.onGrid? (i : RoundingInterval) (k : Int) : Option Decimal :=
  let (num, den) := ratio i.middle 2 i.unit
  let (gridNum, gridDen) := ratio 1 10 k
  let below := num * gridDen / (den * gridNum)
  let rest := num * gridDen % (den * gridNum)
  let lower : Decimal := ⟨below, k⟩
  let upper : Decimal := ⟨below + 1, k⟩
  match i.contains lower, i.contains upper with
  | true, true => if 2 * rest < den * gridNum then some lower else some upper
  | true, false => some lower
  | false, true => some upper
  | false, false => none

/-- The shortest decimal that rounds to `m * 2 ^ q`; seventeen digits always suffice. -/
def shortest (m : Nat) (q : Int) (narrowBelow : Bool) : Decimal :=
  let i := RoundingInterval.of m q narrowBelow
  let (num, den) := ratio i.middle 2 i.unit
  let top := leadingPlace num den
  ((List.range 17).findSome? fun (n : Nat) => i.onGrid? (top - (n : Int))).getD ⟨num / den, 0⟩

def Decimal.trim (d : Decimal) : Decimal :=
  go d.value d.exponent (-d.exponent).toNat
where
  go (value : Nat) (exponent : Int) : Nat → Decimal
    | 0 => ⟨value, exponent⟩
    | places + 1 =>
      if value % 10 = 0 then go (value / 10) (exponent + 1) places else ⟨value, exponent⟩

/-- All digits, with a point only where a fraction follows. -/
def Decimal.text (d : Decimal) : String :=
  let d := d.trim
  let digits := Nat.toDigits 10 d.value
  let places := (-d.exponent).toNat
  if places = 0 then
    String.ofList (digits ++ List.replicate d.exponent.toNat '0')
  else
    let padded := List.replicate (places + 1 - digits.length) '0' ++ digits
    let whole := padded.length - places
    String.ofList (padded.take whole ++ '.' :: padded.drop whole)

/-- A float in full: integers have no point, and the sign of a zero is kept. -/
def number (x : Float) : String :=
  if x.isNaN then "NaN"
  else
    let magnitude :=
      if !Binary64.isFinite x then "inf"
      else if Binary64.mantissa x = 0 then "0"
      else
        let narrow := Binary64.fraction x = 0 && 1 < Binary64.field x
        (shortest (Binary64.mantissa x) (Binary64.exponent x) narrow).text
    if Binary64.negative x then "-" ++ magnitude else magnitude

end Metering.Text
