import Metering.Binary64

/-! # JSON values

A value keeps what its text says and leaves judgement to its reader: numbers keep their decimal
digits, objects keep every member in order, and a string whose escapes leave half of a surrogate
pair stands as `none`.
-/
namespace Metering

/-- `± digits * 10 ^ exponent`; `integral` when the text has neither point nor exponent. -/
structure Json.Number where
  negative : Bool
  digits : Nat
  exponent : Int
  integral : Bool
deriving DecidableEq, Repr

inductive Json
  | null
  | bool (value : Bool)
  | number (value : Json.Number)
  | string (text : Option String)
  | array (items : List Json)
  | object (members : List (Option String × Json))

namespace Json
open Binary64

/-- The nearest double, or nothing where that would be infinite. -/
def Number.toFloat? (n : Number) : Option Float :=
  let size : Int := n.digits.log2
  let magnitude : Float :=
    if n.digits = 0 || n.exponent + size < -400 then 0
    else if 310 < n.exponent then infinity
    else ofRatio (n.digits * Nat.pow 10 n.exponent.toNat) (Nat.pow 10 (-n.exponent).toNat)
  if isFinite magnitude then some (if n.negative then -magnitude else magnitude) else none

/-- An integer of 64 bits, signed or not. The text `-0` is no integer. -/
def Number.toInt? (n : Number) : Option Int :=
  if !n.integral then none
  else if n.negative then
    if n.digits = 0 || 0x8000000000000000 < n.digits then none else some (- (n.digits : Int))
  else if n.digits < UInt64.size then some n.digits else none

def membersOf (key : String) (members : List (Option String × Json)) : List Json :=
  members.filterMap fun m => if m.1 = some key then some m.2 else none

end Json
end Metering
