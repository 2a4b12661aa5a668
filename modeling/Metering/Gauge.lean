import Metering.Recorder
import Metering.Snapshot

/-! # Gauges

A value that can go up and down.
-/
namespace Metering

structure Gauge (σ : Type := Recorder) where
  value : Float := 0
  sampler : Option σ := none

namespace Gauge
variable {σ : Type} [Sampler σ]

def offer (v : Float) (tag : Option Tag) (g : Gauge σ) : Gauge σ :=
  { g with sampler := g.sampler.map (Sampler.offer v none tag) }

def set (v : Float) (tag : Option Tag) (g : Gauge σ) : Gauge σ :=
  { g with value := v }.offer v tag

def add (v : Float) (tag : Option Tag) (g : Gauge σ) : Gauge σ :=
  { g with value := g.value + v }.offer v tag

/-- Seconds since the epoch: the whole seconds plus the rest as a fraction, zero before it. -/
def seconds (now : Time) : Float :=
  if now < 0 then 0
  else
    let ns := now.toNat
    Float.ofNat (ns / 1000000000) + Float.ofNat (ns % 1000000000) / 1000000000

def setToTime (now : Time) (g : Gauge σ) : Gauge σ :=
  g.set (seconds now) none

/-- The exemplars are taken before the value is read. -/
def collect (g : Gauge σ) : Gauge σ × GaugeSnapshot :=
  let (exemplars, sampler) := Sampler.handOver g.sampler
  ({ g with sampler }, { value := g.value, exemplar := oldest? exemplars })

end Gauge
end Metering
