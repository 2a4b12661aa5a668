import Metering.Buffer
import Metering.Description
import Metering.Snapshot

/-! # Summaries

Count and sum of a stream of values, and the quantiles that an estimator gives for it. The
estimator is fed with every value and asked once for each configured quantile, in order.
-/
namespace Metering

structure Quantile where
  quantile : Float
  error : Float

/-- Both numbers have to lie between 0 and 1. -/
def Quantile.check (q : Quantile) : Except Error Quantile :=
  if !(0 ≤ q.quantile && q.quantile ≤ 1) then .error (.invalidQuantile q.quantile)
  else if !(0 ≤ q.error && q.error ≤ 1) then .error (.invalidQuantileError q.error)
  else .ok q

class Estimator (ε : Type) where
  make : List Quantile → ε
  insert : Float → ε → ε
  get : Float → ε → Float × ε

structure SummaryOptions where
  common : Options := {}
  quantiles : List Quantile := []

/-- Quantiles are useless without an estimator. -/
def SummaryOptions.checked (o : SummaryOptions) (hasEstimator : Bool) :
    Except Error (List Quantile) := do
  let quantiles ← o.quantiles.mapM Quantile.check
  if !quantiles.isEmpty && !hasEstimator then throw .missingEstimator
  return quantiles

structure Summary (ε : Type) where
  quantiles : List Quantile
  buffer : Buffer := {}
  estimator : Option ε
  sum : Float := 0
  count : Nat := 0
  created : Time

instance {ε : Type} : Buffered (Summary ε) where
  buffer := Summary.buffer
  setBuffer b s := { s with buffer := b }

namespace Summary
variable {ε : Type} [Estimator ε]

/-- A summary without quantiles has no estimator. -/
def new (quantiles : List Quantile) (hasEstimator : Bool) (now : Time) : Summary ε :=
  { quantiles
    estimator := if hasEstimator && !quantiles.isEmpty then some (Estimator.make quantiles) else none
    created := now }

def apply (v : Float) (s : Summary ε) : Summary ε :=
  { s with
    estimator := s.estimator.map (Estimator.insert v)
    sum := s.sum + v
    count := s.count + 1 }

/-- Observes a value. NaN is dropped. -/
def observe (v : Float) (s : Summary ε) : Summary ε :=
  if v.isNaN then s
  else
    let (buffer, kept) := s.buffer.append v
    let s := { s with buffer }
    if kept then s else s.apply v

def await (start : UInt64) (s : Summary ε) : Summary ε :=
  if s.count = start.toNat then s else { s with buffer := s.buffer.stall }

def ask (quantiles : List Quantile) (e : ε) : List QuantileValue × ε :=
  quantiles.foldl
    (fun (values, e) q =>
      let (value, e) := Estimator.get q.quantile e
      (values ++ [⟨q.quantile, value⟩], e))
    ([], e)

/-- What happens while the estimator is asked: values arrive, and the estimator may fail. -/
structure Intrusion where
  arrivals : List Float := []
  fails : Bool := false

inductive Failure
  | estimator
deriving DecidableEq, Repr

def Failure.message : Failure → String
  | .estimator => "estimator failed"

/-- What is reported under a pause. Count and sum are read before the estimator is asked. -/
def report (i : Intrusion) (s : Summary ε) : Summary ε × Except Failure SummarySnapshot :=
  let snapshot (quantiles : List QuantileValue) : SummarySnapshot :=
    { count := s.count, sum := s.sum, quantiles, created := s.created }
  match s.estimator with
  | none => (s, .ok (snapshot []))
  | some e =>
    let s := i.arrivals.foldl (fun s v => s.observe v) s
    if i.fails then (s, .error .estimator)
    else
      let (quantiles, e) := ask s.quantiles e
      ({ s with estimator := some e }, .ok (snapshot quantiles))

def collectAmid (i : Intrusion) (s : Summary ε) : Summary ε × Except Failure SummarySnapshot :=
  exclusively (fun start s => (s.await start).report i) apply s

def collect (s : Summary ε) : Summary ε × Except Failure SummarySnapshot :=
  s.collectAmid {}

end Summary
end Metering
