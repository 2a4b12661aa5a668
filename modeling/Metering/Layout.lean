import Metering.Binary64
import Metering.Error

/-! # Bucket layouts

Lists of upper bounds that grow by a fixed width or by a fixed factor.
-/
namespace Metering.Layout
open Binary64

def linear (start width : Float) (count : Nat) : Except Error (List Float) :=
  if count < 1 then .error (.invalidLayout .linearCount)
  else .ok ((List.range count).map fun i => start + width * Float.ofNat i)

/-- `start`, `start * factor`, and so on, each the rounded product of the one before. -/
def powers (factor : Float) : Float → Nat → List Float
  | _, 0 => []
  | current, n + 1 => current :: powers factor (current * factor) n

def exponential (start factor : Float) (count : Nat) : Except Error (List Float) :=
  if count < 1 then .error (.invalidLayout .exponentialCount)
  else if start ≤ 0 then .error (.invalidLayout .exponentialStart)
  else if factor ≤ 1 then .error (.invalidLayout .exponentialFactor)
  else .ok (powers factor start count)

/-- `count` bounds in geometric progression from `min` to `max`. -/
def spanning (min max : Float) (count : Nat) : Except Error (List Float) :=
  if count < 2 then .error (.invalidLayout .spanCount)
  else if min ≤ 0 then .error (.invalidLayout .spanMin)
  else if max ≤ min then .error (.invalidLayout .spanMax)
  else
    let growth := Float.pow (max / min) (1 / Float.ofNat (count - 1))
    .ok ((List.range count).map fun (i : Nat) => min * power growth i)

end Metering.Layout
