import Metering.Counter
import Metering.Family
import Metering.Gauge
import Metering.Histogram
import Metering.Ranked

/-! # Accumulators of every kind

A specification says what family is wanted. Once it is checked there is a description and a
blueprint, from which every series of the family is made. Samplers record.
-/
namespace Metering

inductive Accumulator
  | counter (c : Counter)
  | gauge (g : Gauge)
  | histogram (h : Histogram)
  | summary (s : Summary Ranked)

inductive Blueprint
  | counter
  | gauge
  | histogram (config : HistogramConfig)
  | summary (quantiles : List Quantile) (hasEstimator : Bool)

def Blueprint.kind : Blueprint → Kind
  | .counter => .counter
  | .gauge => .gauge
  | .histogram _ => .histogram
  | .summary _ _ => .summary

/-- A new accumulator. Summaries have no use for a sampler. -/
def Blueprint.make (now : Time) (sampler : Option Recorder) : Blueprint → Accumulator
  | .counter => .counter { created := now, sampler }
  | .gauge => .gauge { sampler }
  | .histogram config => .histogram (Histogram.new config now sampler)
  | .summary quantiles hasEstimator => .summary (Summary.new quantiles hasEstimator now)

inductive Specification
  /-- A counter family, whose name does not keep a trailing `_total`. -/
  | counter (o : Options)
  /-- A bare container of counters under the name as given. -/
  | container (o : Options)
  | gauge (o : Options)
  | histogram (o : HistogramOptions)
  | summary (o : SummaryOptions) (hasEstimator : Bool)

def Options.withoutTotal (o : Options) : Options :=
  let suffix := "_total".toList
  let name := o.name.toList
  if suffix.isSuffixOf name then
    { o with name := String.ofList (name.take (name.length - suffix.length)) }
  else o

namespace Specification

def describe (labels : List String) : Specification → Except Error Description
  | .counter o => Description.ofOptions o.withoutTotal labels [] Kind.counter.word
  | .container o => Description.ofOptions o labels [] Kind.counter.word
  | .gauge o => Description.ofOptions o labels [] Kind.gauge.word
  | .histogram o => Description.ofOptions o.common labels [Label.bucket] Kind.histogram.word
  | .summary o _ => Description.ofOptions o.common labels [Label.quantile] Kind.summary.word

def blueprint : Specification → Except Error Blueprint
  | .counter _ => .ok .counter
  | .container _ => .ok .counter
  | .gauge _ => .ok .gauge
  | .histogram o => o.config.map .histogram
  | .summary o hasEstimator => (o.checked hasEstimator).map (.summary · hasEstimator)

end Specification

inductive Call
  | increment
  | decrement
  | add (v : Float) (tag : Option Tag)
  | subtract (v : Float)
  | set (v : Float) (tag : Option Tag)
  | setToTime

namespace Accumulator

def counter? : Accumulator → Option Counter
  | .counter c => some c
  | _ => none

def sampler? : Accumulator → Option Recorder
  | .counter c => c.sampler
  | .gauge g => g.sampler
  | .histogram h => h.sampler
  | .summary _ => none

def value? : Accumulator → Option Float
  | .counter c => some c.get
  | .gauge g => some g.value
  | _ => none

/-- A call on a counter or gauge; nothing where the accumulator has no such call. -/
def call? (now : Time) (c : Call) : Accumulator → Option (Except Error Accumulator)
  | .counter a =>
    match c with
    | .increment => some (.ok (.counter a.increment))
    | .add v tag => some ((a.add v tag).map .counter)
    | _ => none
  | .gauge g =>
    match c with
    | .increment => some (.ok (.gauge (g.add 1 none)))
    | .decrement => some (.ok (.gauge (g.add (-1) none)))
    | .add v tag => some (.ok (.gauge (g.add v tag)))
    | .subtract v => some (.ok (.gauge (g.add (-v) none)))
    | .set v tag => some (.ok (.gauge (g.set v tag)))
    | .setToTime => some (.ok (.gauge (g.setToTime now)))
  | _ => none

def collect (i : Summary.Intrusion) :
    Accumulator → Accumulator × Except Summary.Failure Snapshot
  | .counter c =>
    let (c, snapshot) := c.collect
    (.counter c, .ok (.counter snapshot))
  | .gauge g =>
    let (g, snapshot) := g.collect
    (.gauge g, .ok (.gauge snapshot))
  | .histogram h =>
    let (h, snapshot) := h.collect
    (.histogram h, .ok (.histogram snapshot))
  | .summary s =>
    let (s, snapshot) := s.collectAmid i
    (.summary s, snapshot.map .summary)

end Accumulator
end Metering
