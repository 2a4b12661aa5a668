/-! # Exact views of a double

A finite double is `± mantissa * 2 ^ exponent`; both parts are read off its bits. Whatever the
library must know exactly about a double (its integer part, its fraction in `[0.5, 1)`, its place
in the total order) goes through these parts and never through a rounded operation.
-/
namespace Metering.Binary64

abbrev infinity : Float := Float.ofBits 0x7ff0000000000000

abbrev largest : Float := Float.ofBits 0x7fefffffffffffff

abbrev nan : Float := Float.ofBits 0x7ff8000000000000

def negative (x : Float) : Bool :=
  0x8000000000000000 ≤ x.toBits.toNat

/-- The eleven exponent bits: 0 for zeros and subnormals, 2047 for infinities and NaN. -/
def field (x : Float) : Nat :=
  x.toBits.toNat / 0x10000000000000 % 2048

/-- The lower 52 bits. -/
def fraction (x : Float) : Nat :=
  x.toBits.toNat % 0x10000000000000

def mantissa (x : Float) : Nat :=
  if field x = 0 then fraction x else fraction x + 0x10000000000000

def exponent (x : Float) : Int :=
  (max (field x) 1 : Nat) - 1075

def isFinite (x : Float) : Bool :=
  field x != 2047

def floor (x : Float) : Int :=
  let m : Int := if negative x then - (mantissa x : Int) else mantissa x
  m * Int.pow 2 (exponent x).toNat / Int.pow 2 (-exponent x).toNat

def ceil (x : Float) : Int :=
  - floor (-x)

/-- Position in the total order: negative values, zeros by sign, positive values, NaN last. -/
def orderKey (x : Float) : Int :=
  let bits := x.toBits.toNat
  if bits < 0x8000000000000000 then bits else - (bits - 0x8000000000000000 : Int) - 1

/-- Repeated squaring from the lowest bit of the exponent, in the order of its roundings. -/
def powerLoop (base acc : Float) (n : Nat) : Float :=
  let acc := if n % 2 = 1 then acc * base else acc
  if n / 2 = 0 then acc else powerLoop (base * base) acc (n / 2)
termination_by n
decreasing_by omega

/-- An integer power; a negative one is the reciprocal of the positive one. -/
def power (base : Float) (n : Int) : Float :=
  let r := powerLoop base 1 n.natAbs
  if n < 0 then 1 / r else r

def splitNormal (x : Float) : Float × Int :=
  (Float.ofBits ((x.toBits &&& 0x800fffffffffffff) ||| 0x3fe0000000000000), (field x : Int) - 1022)

/-- A finite non-zero double as `fraction * 2 ^ exponent` with the magnitude of the fraction in
`[0.5, 1)`. Zeros, infinities and NaN are kept, with exponent 0. -/
def split (x : Float) : Float × Int :=
  if x == 0 || !isFinite x then (x, 0)
  else if field x = 0 then
    let (f, e) := splitNormal (x * power 2 64)
    (f, e - 64)
  else splitNormal x

/-- `f * 2 ^ e` in two steps, so that neither power of two overflows for exponents up to 1025. -/
def scale (f : Float) (e : Int) : Float :=
  let half := e.tdiv 2
  f * power 2 half * power 2 (e - half)

/-- The double nearest to `num / den`, a tie going to the even mantissa; infinity where the quotient
is too large. The mantissa is the rounded quotient by `2 ^ e`, where `e` is the exponent of the
quotient's 53rd bit or, below the normal range, of the least subnormal. -/
def ofRatio (num den : Nat) : Float :=
  if num = 0 || den = 0 then 0
  else
    let guess : Int := (num.log2 : Int) - den.log2 - 52
    let fits (e : Int) : Bool := den * Nat.pow 2 (e + 52).toNat ≤ num * Nat.pow 2 (-(e + 52)).toNat
    let e := max (if fits guess then guess else guess - 1) (-1074)
    let n := num * Nat.pow 2 (-e).toNat
    let d := den * Nat.pow 2 e.toNat
    let half := 2 * (n % d)
    let m := if half < d || (half == d && n / d % 2 == 0) then n / d else n / d + 1
    let bits := (e + 1074).toNat * 0x10000000000000 + m
    if bits < 0x7ff0000000000000 then Float.ofBits bits.toUInt64 else infinity

end Metering.Binary64
