import Metering.Buffer
import Metering.Histogram.Settings
import Metering.Native.State
import Metering.Recorder
import Metering.Search
import Metering.Snapshot

/-! # Histograms

An observation is announced to the buffer, applied to the classic buckets, the native state, the
sum and the count, and then offered to the sampler. If it leaves the native buckets over their
limit the histogram shrinks by one step: the zero bucket is widened or the resolution is halved.
Once enough time has passed a histogram that was shrunk, or that would shrink, starts over instead,
and the observation is applied again. Shrinking, starting over and collecting happen under a pause.
-/
namespace Metering
open Native (minSchema)

def NativeConfig.fresh (c : NativeConfig) : Native.State :=
  { schema := c.initialSchema, zeroThreshold := c.minZeroThreshold }

structure Histogram (σ : Type := Recorder) where
  config : HistogramConfig
  buffer : Buffer := {}
  /-- One count per bound, not cumulative. -/
  classic : Array Nat
  native : Option Native.State
  sum : Float := 0
  /-- Applied observations; raised last. -/
  count : Nat := 0
  created : Time
  sampler : Option σ := none

instance {σ : Type} : Buffered (Histogram σ) where
  buffer := Histogram.buffer
  setBuffer b h := { h with buffer := b }

namespace Histogram

inductive Event
  | widened (zeroThreshold : Float)
  | halved (schema : Int)
  | overLimit (buckets : Nat)
  | reset

variable {σ : Type} [Sampler σ]

def new (config : HistogramConfig) (now : Time) (sampler : Option σ) : Histogram σ :=
  { config
    classic := config.bounds.map fun _ => 0
    native := config.native.map NativeConfig.fresh
    created := now
    sampler }

/-- From this many bounds on a halving search takes the place of the linear one. -/
def linearLimit : Nat := 35

def findBucket (v : Float) (h : Histogram σ) : Option Nat :=
  let bounds := h.config.bounds
  if bounds.isEmpty then none
  else if bounds.size < linearLimit then Search.firstAtLeast? v bounds
  else some (Search.partitionPoint (· < v) bounds)

def bucketRange (i : Nat) (h : Histogram σ) : BucketRange :=
  let bounds := h.config.bounds
  { lower := if i = 0 then -Binary64.infinity else bounds.getD (i - 1) 0
    upper := bounds.getD i 0 }

def offer (v : Float) (tag : Option Tag) (h : Histogram σ) : Histogram σ :=
  { h with sampler := h.sampler.map (Sampler.offer v ((h.findBucket v).map h.bucketRange) tag) }

/-- Counts a value everywhere; the flag says whether a native bucket was created. -/
def apply (v : Float) (h : Histogram σ) : Histogram σ × Bool :=
  let classic :=
    match h.findBucket v with
    | some i => h.classic.modify i (· + 1)
    | none => h.classic
  let (native, created) :=
    match h.native with
    | some s =>
      let (s, created) := s.observe v
      (some s, created)
    | none => (none, false)
  ({ h with classic, native, sum := h.sum + v, count := h.count + 1 }, created)

def nativePart? (h : Histogram σ) : Option (Native.State × NativeConfig) :=
  match h.native, h.config.native with
  | some s, some c => some (s, c)
  | _, _ => none

def resetDue (now : Time) (c : NativeConfig) (h : Histogram σ) : Bool :=
  c.resetAfter != 0 && c.resetAfter ≤ now - h.created

def overBudget (c : NativeConfig) (s : Native.State) : Bool :=
  c.maxBuckets != 0 && c.maxBuckets < s.bucketNumber

inductive Upkeep
  | reset
  | shrink
deriving DecidableEq, Repr

/-- What an applied observation calls for. A histogram that was shrunk starts over as soon as that is
due; otherwise only a new bucket can exceed the limit. -/
def upkeep? (now : Time) (created : Bool) (h : Histogram σ) : Option Upkeep :=
  match h.nativePart? with
  | none => none
  | some (s, c) =>
    if s.schema < c.initialSchema && h.resetDue now c then some .reset
    else if created && minSchema < s.schema && overBudget c s then
      some (if h.resetDue now c then .reset else .shrink)
    else none

/-- Back to the state of a new histogram; the buffer restarts its count when the pause ends. -/
def reset (now : Time) (h : Histogram σ) : Histogram σ :=
  { h with
    classic := h.classic.map fun _ => 0
    native := h.config.native.map NativeConfig.fresh
    sum := 0
    count := 0
    created := now
    sampler := h.sampler.map Sampler.reset
    buffer := h.buffer.requestRestart }

/-- Takes note of an event of a histogram and may leave a trace in the world around it. Meanwhile
values may arrive at the histogram. -/
abbrev Report (σ ω : Type) := Event → Histogram σ × ω → Histogram σ × ω

def note (e : Event) (s : Histogram σ × List Event) : Histogram σ × List Event :=
  (s.1, s.2 ++ [e])

instance {σ ω : Type} : Buffered (Histogram σ × ω) where
  buffer s := s.1.buffer
  setBuffer b s := ({ s.1 with buffer := b }, s.2)

variable {ω : Type}

/-- Widens the zero bucket or, where that is refused, halves the resolution. -/
def shrink (report : Report σ ω) (s : Histogram σ × ω) : Histogram σ × ω :=
  match s.1.nativePart? with
  | none => s
  | some (n, c) =>
    match n.widen? c.maxZeroThreshold with
    | some n => report (.widened n.zeroThreshold) ({ s.1 with native := some n }, s.2)
    | none =>
      match n.halve? with
      | some n =>
        let s := report (.halved n.schema) ({ s.1 with native := some n }, s.2)
        if n.schema == minSchema && overBudget c n then report (.overLimit n.bucketNumber) s else s
      | none => s

def perform (report : Report σ ω) (now : Time) (s : Histogram σ × ω) : Upkeep → Histogram σ × ω
  | .reset => report .reset (s.1.reset now, s.2)
  | .shrink => shrink report s

def await (start : UInt64) (h : Histogram σ) : Histogram σ :=
  if h.count = start.toNat then h else { h with buffer := h.buffer.stall }

def replay (v : Float) (h : Histogram σ) : Histogram σ :=
  (h.apply v).1

/-- Upkeep under a pause; what arrives while an event is reported is kept. -/
def maintain (report : Report σ ω) (now : Time) (u : Upkeep) (s : Histogram σ × ω) : Histogram σ × ω :=
  (exclusively
    (fun start s => (perform report now (s.1.await start, s.2) u, ()))
    (fun v s => (s.1.replay v, s.2))
    s).1

/-- Applies a value that the buffer did not keep, with the upkeep it calls for. After a reset the
value is applied again. -/
def applyAnnounced (report : Report σ ω) (now : Time) (v : Float) (s : Histogram σ × ω) :
    Histogram σ × ω :=
  let (h, created) := s.1.apply v
  match h.upkeep? now created with
  | none => (h, s.2)
  | some u =>
    let (h, w) := maintain report now u (h, s.2)
    if u = .reset then
      let (buffer, kept) := h.buffer.append v
      let h := { h with buffer }
      (if kept then h else h.replay v, w)
    else (h, w)

/-- Observes a value in a world that is told of the upkeep. NaN is dropped. -/
def observeAmid (report : Report σ ω) (now : Time) (v : Float) (tag : Option Tag)
    (s : Histogram σ × ω) : Histogram σ × ω :=
  if v.isNaN then s
  else
    let (buffer, kept) := s.1.buffer.append v
    let s := ({ s.1 with buffer }, s.2)
    let (h, w) := if kept then s else applyAnnounced report now v s
    (h.offer v tag, w)

/-- Observes a value; the answer lists the events of its upkeep. -/
def observe (now : Time) (v : Float) (tag : Option Tag) (h : Histogram σ) :
    Histogram σ × List Event :=
  observeAmid note now v tag (h, [])

def nativeSnapshot (s : Native.State) : NativeSnapshot :=
  { schema := s.schema
    zeroThreshold := s.zeroThreshold
    zeroCount := s.zeroCount
    positive := s.positive
    negative := s.negative }

/-- What is reported under a pause; the exemplars were taken before it. -/
def snapshot (exemplars : List Exemplar) (h : Histogram σ) : HistogramSnapshot :=
  { count := h.count
    sum := h.sum
    classic := cumulate 0 (h.config.bounds.toList.zip h.classic.toList)
    native := h.native.map nativeSnapshot
    exemplars
    created := h.created }

def collect (h : Histogram σ) : Histogram σ × HistogramSnapshot :=
  let (exemplars, sampler) := Sampler.handOver h.sampler
  exclusively
    (fun start h =>
      let h := h.await start
      (h, h.snapshot exemplars))
    replay { h with sampler }

end Histogram
end Metering
