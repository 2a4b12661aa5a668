import Metering.Binary64
import Metering.Error

/-! # Schemas

At schema `s` each bucket bound is `2 ^ (2 ^ (-s))` times the one below it, so a schema one lower
has buckets twice as wide.
-/
namespace Metering.Native
open Binary64

abbrev minSchema : Int := -4
abbrev maxSchema : Int := 8

def checkSchema (schema : Int) : Except Error Int :=
  if minSchema ≤ schema ∧ schema ≤ maxSchema then .ok schema else .error (.invalidSchema schema)

/-- The schema that rounds `-exponent` up, kept within the supported range. -/
def schemaOfExponent (exponent : Float) : Int :=
  if exponent < -7 then maxSchema
  else if 4 ≤ exponent then minSchema
  else if exponent.isNaN then 0
  else - floor exponent

/-- The finest schema whose buckets grow by at most `factor`. -/
def schemaOfFactor (factor : Float) : Except Error Int :=
  if 1 < factor then .ok (schemaOfExponent factor.log2.log2)
  else .error (.invalidBucketFactor factor)

end Metering.Native
