import Metering.Summary

/-! # Exact quantiles

An estimator that keeps every value and answers with the value of the nearest rank.
-/
namespace Metering
open Binary64

structure Ranked where
  values : Array Float := #[]

namespace Ranked

def sorted (r : Ranked) : Array Float :=
  (r.values.toList.mergeSort fun a b => orderKey a ≤ orderKey b).toArray

/-- The position in the sorted values: the rank is the quantile's share of them, rounded up. -/
def position (q : Float) (size : Nat) : Nat :=
  min ((ceil (q * Float.ofNat size)).toNat - 1) (size - 1)

def get (q : Float) (r : Ranked) : Float :=
  r.sorted.getD (position q r.values.size) nan

instance : Estimator Ranked where
  make _ := {}
  insert v r := { values := r.values.push v }
  get q r := (r.get q, r)

end Ranked
end Metering
