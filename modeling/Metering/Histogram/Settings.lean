import Metering.Description
import Metering.Native.Schema

/-! # Histogram settings

Options as a caller writes them, and the configuration that checked options give: the upper bounds
of the classic buckets and the limits of the native ones. Either part may be missing, not both.
-/
namespace Metering
open Binary64

/-- `2 ^ (-128)`, a bucket bound at every schema. -/
abbrev defaultZeroThreshold : Float := Float.ofBits 0x37f0000000000000

def defaultBounds : List Float :=
  [0.005, 0.01, 0.025, 0.05, 0.1, 0.25, 0.5, 1, 2.5, 5, 10]

structure HistogramOptions where
  common : Options := {}
  /-- Upper bounds of the classic buckets in any order; the default ones where none are given. -/
  buckets : Option (List Float) := none
  classicOnly : Bool := false
  nativeOnly : Bool := false
  schema : Int := 5
  /-- Takes the place of the schema: the largest growth of one bucket over the one below. -/
  factor : Option Float := none
  minZeroThreshold : Float := defaultZeroThreshold
  maxZeroThreshold : Float := defaultZeroThreshold
  /-- The number of native buckets that makes the histogram shrink; zero for no limit. -/
  maxBuckets : Nat := 160
  /-- Nanoseconds after which a histogram may start over; zero for never. -/
  resetAfter : Nat := 0

structure NativeConfig where
  initialSchema : Int
  minZeroThreshold : Float
  maxZeroThreshold : Float
  maxBuckets : Nat
  resetAfter : Nat

structure HistogramConfig where
  bounds : Array Float
  native : Option NativeConfig

namespace HistogramOptions

def dedup : List Float → List Float
  | [] => []
  | [x] => [x]
  | x :: y :: rest => if x == y then dedup (x :: rest) else x :: dedup (y :: rest)

/-- Sorted in the total order, without repetitions, closed by infinity. -/
def complete (bounds : List Float) : List Float :=
  let sorted := dedup (bounds.mergeSort fun a b => orderKey a ≤ orderKey b)
  if sorted.getLast?.any (· == infinity) then sorted else sorted ++ [infinity]

def classicBounds (o : HistogramOptions) : Except Error (List Float) :=
  if o.nativeOnly then .ok []
  else
    let given := o.buckets.getD defaultBounds
    if given.isEmpty && !o.classicOnly then .ok []
    else if given.any Float.isNaN then .error .nanUpperBound
    else .ok (complete given)

def nativeConfig (o : HistogramOptions) : Except Error (Option NativeConfig) := do
  if o.classicOnly then return none
  let initialSchema ←
    match o.factor with
    | some factor => Native.schemaOfFactor factor
    | none => Native.checkSchema o.schema
  if !(0 ≤ o.minZeroThreshold) then throw (.invalidZeroThreshold o.minZeroThreshold)
  if !(o.minZeroThreshold ≤ o.maxZeroThreshold) then
    throw (.invalidZeroThreshold o.maxZeroThreshold)
  return some {
    initialSchema
    minZeroThreshold := o.minZeroThreshold
    maxZeroThreshold := o.maxZeroThreshold
    maxBuckets := o.maxBuckets
    resetAfter := o.resetAfter }

def config (o : HistogramOptions) : Except Error HistogramConfig := do
  if o.classicOnly && o.nativeOnly then throw .conflictingKinds
  let bounds ← o.classicBounds
  let native ← o.nativeConfig
  return { bounds := bounds.toArray, native }

end HistogramOptions
end Metering
