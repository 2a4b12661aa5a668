import Metering.Accumulator
import Metering.Stress.Arguments

/-! # The stress run

Every writer observes its samples on its own series of a histogram family and counts them on its
series of a counter family. A run is lossless when the collected totals are what was written.
-/
namespace Metering.Stress

/-- Values spread over several orders of magnitude, one in seven negative, by way of powers of two. -/
def sampleBy (exp2 : Float → Float) (worker : Nat) (i : UInt64) : Float :=
  let x := ((i * 2654435761) ^^^ worker.toUInt64) % 100000
  let v := exp2 (x.toFloat / 1000) / 1000000000000
  if x % 7 = 0 then -v else v

def sample (worker : Nat) (i : UInt64) : Float :=
  sampleBy Float.exp2 worker i

def histogramOptions (a : Arguments) : HistogramOptions where
  common := { name := "work_duration_seconds", help := "Simulated work duration." }
  maxBuckets := a.maxBuckets

def counterOptions : Options where
  name := "jobs_total"
  help := "Simulated jobs."

def workerLabels : List String := ["worker"]

structure Families where
  now : Time
  config : HistogramConfig
  latency : Family Histogram
  jobs : Family Counter

namespace Families

def make (now : Time) (a : Arguments) : Except Error Families := do
  let histogram : Specification := .histogram (histogramOptions a)
  let config ← (histogramOptions a).config
  return {
    now, config
    latency := { description := ← histogram.describe workerLabels }
    jobs := { description := ← (Specification.counter counterOptions).describe workerLabels } }

def freshHistogram (f : Families) : Histogram :=
  Histogram.new f.config f.now none

def freshCounter (f : Families) : Counter :=
  { created := f.now }

def latencyAt (worker : Nat) (f : Families) : Option Nat :=
  f.latency.handle? [toString worker]

def jobsAt (worker : Nat) (f : Families) : Option Nat :=
  f.jobs.handle? [toString worker]

def collect (f : Families) : Families × List FamilySnapshot :=
  let (latency, hs, _) := f.latency.collect f.freshHistogram fun h =>
    let (h, s) := h.collect
    (h, Snapshot.histogram s)
  let (jobs, cs, _) := f.jobs.collect f.freshCounter fun c =>
    let (c, s) := c.collect
    (c, Snapshot.counter s)
  let snapshot (d : Description) (kind : Kind) (points : List (Point Snapshot)) : FamilySnapshot :=
    { name := d.fullName, help := d.help, kind, points }
  ({ f with latency, jobs },
    [snapshot latency.description .histogram hs, snapshot jobs.description .counter cs])

end Families

/-- One call of a writer, or a scrape or time that passes while the writers are at work. -/
inductive Call
  | openLatency (worker : Nat)
  | openJobs (worker : Nat)
  | observe (worker : Nat) (v : Float)
  | increment (worker : Nat)
  | scrape
  | advance (ns : Int)

/-- A writer opens its series before it uses them, so every look-up succeeds. -/
def Families.perform (f : Families) : Call → Families
  | .openLatency worker =>
    match f.latency.obtain f.freshHistogram [toString worker] with
    | .ok (latency, _, _) => { f with latency }
    | .error _ => f
  | .openJobs worker =>
    match f.jobs.obtain f.freshCounter [toString worker] with
    | .ok (jobs, _, _) => { f with jobs }
    | .error _ => f
  | .observe worker v =>
    match f.latencyAt worker with
    | some handle =>
      { f with latency := (f.latency.update handle fun h => ((h.observe f.now v none).1, ())).1 }
    | none => f
  | .increment worker =>
    match f.jobsAt worker with
    | some handle => { f with jobs := (f.jobs.update handle fun c => (c.increment, ())).1 }
    | none => f
  | .scrape => f.collect.1
  | .advance ns => { f with now := f.now + ns }

def writer (exp2 : Float → Float) (worker count : Nat) : List Call :=
  .openLatency worker :: .openJobs worker ::
    (List.range count).flatMap fun i => [.observe worker (sampleBy exp2 worker i.toUInt64), .increment worker]

structure Outcome where
  expected : Nat
  totals : Totals

def Outcome.lossless (o : Outcome) : Bool :=
  o.totals == { observations := o.expected, increments := Float.ofNat o.expected }

/-- The record at the end of a run; the clock has stood still. -/
def Outcome.record (o : Outcome) : Record where
  level := .info
  message := "finished"
  fields := [
    ("elapsed", .text "0ns"),
    ("expected", .text (toString o.expected)),
    ("observations", .text (toString o.totals.observations)),
    ("increments", .float o.totals.increments)]

/-- Calls in the order given, then a last collection. -/
def execute (now : Time) (a : Arguments) (calls : List Call) : Except Error Outcome := do
  let f ← Families.make now a
  let f := calls.foldl Families.perform f
  return { expected := a.threads * a.observations, totals := totals f.collect.2 }

def inTurn (exp2 : Float → Float) (a : Arguments) : List Call :=
  (List.range a.threads).flatMap fun worker => writer exp2 worker a.observations

def run (now : Time) (a : Arguments) : Except Error Outcome :=
  execute now a (inTurn Float.exp2 a)

/-- The exit code and the text on standard output of a call. -/
def program (now : Time) (args : List String) : UInt32 × String :=
  match Arguments.read args with
  | .error (.display d) => (0, d.text)
  | .error _ => (2, "")
  | .ok a =>
    match run now a with
    | .ok o => (if o.lossless then 0 else 1, "")
    | .error _ => (2, "")

end Metering.Stress
