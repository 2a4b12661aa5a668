import Metering.Exemplar
import Metering.Native.Buckets

/-! # Snapshots

What a series or a family reports at one moment. A snapshot owns its data.
-/
namespace Metering

inductive Kind
  | counter
  | gauge
  | histogram
  | summary
deriving DecidableEq, Repr

def Kind.word : Kind → String
  | .counter => "counter"
  | .gauge => "gauge"
  | .histogram => "histogram"
  | .summary => "summary"

structure CounterSnapshot where
  value : Float
  exemplar : Option Exemplar
  created : Time
deriving BEq

structure GaugeSnapshot where
  value : Float
  exemplar : Option Exemplar
deriving BEq

/-- `count` counts the observations up to `upperBound`. -/
structure ClassicBucket where
  upperBound : Float
  count : Nat
deriving BEq

def cumulate (total : Nat) : List (Float × Nat) → List ClassicBucket
  | [] => []
  | (bound, n) :: rest => ⟨bound, total + n⟩ :: cumulate (total + n) rest

@[simp] theorem length_cumulate (total : Nat) (xs : List (Float × Nat)) :
    (cumulate total xs).length = xs.length := by
  induction xs generalizing total with
  | nil => rfl
  | cons x rest ih => simp [cumulate, ih]

structure NativeSnapshot where
  schema : Int
  zeroThreshold : Float
  zeroCount : Nat
  positive : Native.Buckets
  negative : Native.Buckets
deriving BEq

namespace NativeSnapshot

def total (s : NativeSnapshot) : Nat :=
  s.zeroCount + s.positive.total + s.negative.total

def bucketNumber (s : NativeSnapshot) : Nat :=
  s.positive.length + s.negative.length

end NativeSnapshot

inductive HistogramKind
  | classic
  | native
  | hybrid
deriving DecidableEq, Repr

structure HistogramSnapshot where
  count : Nat
  sum : Float
  classic : List ClassicBucket
  native : Option NativeSnapshot
  exemplars : List Exemplar
  created : Time
deriving BEq

def HistogramSnapshot.kind (s : HistogramSnapshot) : HistogramKind :=
  if s.classic.isEmpty then .native
  else if s.native.isSome then .hybrid
  else .classic

structure QuantileValue where
  quantile : Float
  value : Float
deriving BEq

structure SummarySnapshot where
  count : Nat
  sum : Float
  quantiles : List QuantileValue
  created : Time
deriving BEq

inductive Snapshot
  | counter (s : CounterSnapshot)
  | gauge (s : GaugeSnapshot)
  | histogram (s : HistogramSnapshot)
  | summary (s : SummarySnapshot)
deriving BEq

def Snapshot.created? : Snapshot → Option Time
  | .counter s => some s.created
  | .gauge _ => none
  | .histogram s => some s.created
  | .summary s => some s.created

structure Point (α : Type) where
  labels : LabelSet
  snapshot : α

structure FamilySnapshot where
  name : String
  help : String
  kind : Kind
  points : List (Point Snapshot)

/-- Observations of all histograms and increments of all counters. -/
structure Totals where
  observations : Nat := 0
  increments : Float := 0
deriving BEq

def Totals.add (t : Totals) : Snapshot → Totals
  | .histogram s => { t with observations := t.observations + s.count }
  | .counter s => { t with increments := t.increments + s.value }
  | _ => t

def totals (families : List FamilySnapshot) : Totals :=
  (families.flatMap FamilySnapshot.points).foldl (fun t p => t.add p.snapshot) {}

end Metering
