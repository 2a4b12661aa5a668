import Metering.Native.Buckets

/-! # State of a native histogram

Values within the zero threshold are only counted; every other value is counted in the bucket of
its magnitude, on the side of its sign. Widening the zero bucket and halving the resolution merge
buckets and lose no count.
-/
namespace Metering.Native

structure State where
  schema : Int
  zeroThreshold : Float
  zeroCount : Nat := 0
  positive : Buckets := []
  negative : Buckets := []
  bucketNumber : Nat := 0

namespace State

/-- Counts a value other than NaN; the flag says whether a bucket was created for it. -/
def observe (v : Float) (s : State) : State × Bool :=
  if s.zeroThreshold < v then
    let key := bucketIndex v s.schema
    let created := !s.positive.contains key
    ({ s with
       positive := s.positive.add key 1
       bucketNumber := if created then s.bucketNumber + 1 else s.bucketNumber }, created)
  else if v < -s.zeroThreshold then
    let key := bucketIndex (-v) s.schema
    let created := !s.negative.contains key
    ({ s with
       negative := s.negative.add key 1
       bucketNumber := if created then s.bucketNumber + 1 else s.bucketNumber }, created)
  else ({ s with zeroCount := s.zeroCount + 1 }, false)

def smallestKey? (s : State) : Option Int :=
  match s.positive.smallest?, s.negative.smallest? with
  | some p, some n => some (min p n)
  | some k, none => some k
  | none, some k => some k
  | none, none => none

def foldIntoZero (key : Int) (s : State) : State :=
  let onSides := (if s.positive.contains key then 1 else 0) + (if s.negative.contains key then 1 else 0)
  { s with
    zeroCount := s.zeroCount + s.positive.count key + s.negative.count key
    positive := s.positive.erase key
    negative := s.negative.erase key
    bucketNumber := s.bucketNumber - onSides }

/-- Raises the zero threshold to the bound of the bucket closest to zero and counts what that bucket
held as zero. Refused where there is no bucket or the threshold would pass `limit`. -/
def widen? (limit : Float) (s : State) : Option State :=
  if limit ≤ s.zeroThreshold then none
  else
    match s.smallestKey? with
    | none => none
    | some key =>
      let threshold := upperBound key s.schema
      if limit < threshold then none
      else some { s.foldIntoZero key with zeroThreshold := threshold }

/-- Doubles the width of every bucket; refused at the lowest schema. -/
def halve? (s : State) : Option State :=
  if s.schema ≤ minSchema then none
  else
    let positive := s.positive.halve
    let negative := s.negative.halve
    some { s with
      positive, negative
      schema := s.schema - 1
      bucketNumber := positive.length + negative.length }

end State
end Metering.Native
