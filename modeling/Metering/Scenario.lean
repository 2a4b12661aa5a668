import Metering.Accumulator

/-! # Scenarios

Several families on one clock and one journal. Values can be made to arrive at a histogram while a
record is written to the journal, and at a summary while its estimator is asked; what arrives during
a pause is kept and replayed, all else is applied at once.
-/
namespace Metering

namespace Scenario

/-- Accumulator `handle` of entry `entry`. -/
structure Target where
  entry : Nat
  handle : Nat
deriving DecidableEq, Repr

structure Series where
  values : List String := []
  accumulator : Accumulator

/-- A family, or a single accumulator without description and journal. -/
structure Entry where
  specification : Specification
  blueprint : Blueprint
  family : Family Series
  standalone : Bool
  sampled : Bool
  logged : Bool

structure Request where
  specification : Specification
  labels : List String := []
  standalone : Bool := false
  sampled : Bool := false
  logged : Bool := false

namespace Entry

def fresh (now : Time) (values : List String) (e : Entry) : Series :=
  { values
    accumulator := e.blueprint.make now (if e.sampled then some {} else none) }

def noDescription : Description :=
  { fullName := "", help := "", constLabels := {}, variableLabels := [] }

/-- A standalone accumulator is made at once; the series of a family are made on first use. -/
def ofRequest (now : Time) (r : Request) : Except Error Entry := do
  let description ←
    if r.standalone then pure noDescription else r.specification.describe r.labels
  let blueprint ← r.specification.blueprint
  let entry : Entry := {
    specification := r.specification
    blueprint
    family := { description }
    standalone := r.standalone
    sampled := r.sampled && !r.standalone
    logged := r.logged && !r.standalone }
  if r.standalone then
    return { entry with family := { entry.family with made := #[entry.fresh now []] } }
  return entry

end Entry

/-- Values that arrive at a histogram when the next record with this message is written. -/
structure Arrival where
  message : String
  target : Target
  values : List Float

/-- What happens to a summary when its estimator is next asked. -/
structure Disturbance where
  target : Target
  intrusion : Summary.Intrusion

end Scenario

structure Scenario where
  now : Time
  entries : Array (Except Error Scenario.Entry)
  journal : Array Record := #[]
  names : List (String × Scenario.Target) := []
  arrivals : List Scenario.Arrival := []
  disturbances : List Scenario.Disturbance := []

namespace Scenario

def start (now : Time) (requests : List Request) : Scenario :=
  { now, entries := (requests.map (Entry.ofRequest now)).toArray }

def entryAt? (i : Nat) (s : Scenario) : Option Entry :=
  match s.entries[i]? with
  | some (.ok e) => some e
  | _ => none

def setEntry (i : Nat) (e : Entry) (s : Scenario) : Scenario :=
  { s with entries := s.entries.setIfInBounds i (.ok e) }

def series? (t : Target) (s : Scenario) : Option Series := do
  let e ← s.entryAt? t.entry
  e.family.made[t.handle]?

def setAccumulator (t : Target) (a : Accumulator) (s : Scenario) : Scenario :=
  match s.entryAt? t.entry with
  | none => s
  | some e =>
    let (family, _) := e.family.update t.handle fun series =>
      ({ series with accumulator := a }, ())
    s.setEntry t.entry { e with family }

def histogram? (t : Target) (s : Scenario) : Option Histogram :=
  match s.series? t with
  | some { values := _, accumulator := .histogram h } => some h
  | _ => none

/-- Writes a record. Every arrival that waits for its message fires. -/
def write (observe : Target → Float → Scenario → Scenario) (r : Record) (s : Scenario) : Scenario :=
  let (fired, waiting) := s.arrivals.partition (·.message == r.message)
  fired.foldl
    (fun s a => a.values.foldl (fun s v => observe a.target v s) s)
    { s with journal := s.journal.push r, arrivals := waiting }

/-- Writes the record of an event while the histogram stands in the scenario as it is at that moment,
so that a value that arrives at it meets its pause. -/
def writeAmid (observe : Target → Float → Scenario → Scenario) (t : Target) (r : Record)
    (held : Histogram × Scenario) : Histogram × Scenario :=
  let s := (held.2.setAccumulator t (.histogram held.1)).write observe r
  ((s.histogram? t).getD held.1, s)

/-- Observes a value on a histogram. Each nested observation uses up an arrival, so one more than
their number is depth enough. -/
def observeWithin : Nat → Option Tag → Target → Float → Scenario → Scenario
  | 0, _, _, _, s => s
  | depth + 1, tag, t, v, s =>
    match s.entryAt? t.entry, s.series? t with
    | some e, some { values, accumulator := .histogram h } =>
      let report (event : Histogram.Event) (held : Histogram × Scenario) :=
        if e.logged then
          writeAmid (observeWithin depth none) t
            (event.record e.family.description.fullName values) held
        else held
      let (h, s) := Histogram.observeAmid report s.now v tag (h, s)
      s.setAccumulator t (.histogram h)
    | _, some { values := _, accumulator := .summary summary } =>
      s.setAccumulator t (.summary (summary.observe v))
    | _, _ => s

def observe (tag : Option Tag) (t : Target) (v : Float) (s : Scenario) : Scenario :=
  s.observeWithin (s.arrivals.length + 1) tag t v

def announce (e : Entry) (events : List Family.Event) (s : Scenario) : Scenario :=
  if e.logged then
    events.foldl
      (fun s event =>
        s.write (fun t v s => s.observe none t v) (event.record e.family.description.fullName))
      s
  else s

/-- The series of a tuple, made and announced on its first use. -/
def obtain (i : Nat) (values : List String) (s : Scenario) :
    Option (Except Error (Scenario × Target)) :=
  match s.entryAt? i with
  | none => none
  | some e =>
    if e.standalone then some (.ok (s, ⟨i, 0⟩))
    else some do
      let (family, handle, events) ← e.family.obtain (e.fresh s.now values) values
      let s := s.setEntry i { e with family }
      return (s.announce e events, ⟨i, handle⟩)

/-- All disturbances of a summary happen when its estimator is first asked, up to the first that
makes it fail. -/
def intrusionOf (ds : List Disturbance) : Summary.Intrusion :=
  match ds with
  | [] => {}
  | d :: rest =>
    if d.intrusion.fails then d.intrusion
    else
      let later := intrusionOf rest
      { arrivals := d.intrusion.arrivals ++ later.arrivals, fails := later.fails }

def snapshot (t : Target) (s : Scenario) :
    Scenario × Option (Except Summary.Failure Snapshot) :=
  match s.series? t with
  | none => (s, none)
  | some series =>
    let asked :=
      match series.accumulator with
      | .summary summary => summary.estimator.isSome
      | _ => false
    let (mine, others) := s.disturbances.partition fun d => asked && d.target = t
    let (a, snapshot) := series.accumulator.collect (intrusionOf mine)
    ({ s with disturbances := others }.setAccumulator t a, some snapshot)

/-- Snapshots of series in order, up to the first that fails. -/
def snapshots (i : Nat) :
    List (LabelSet × Nat) → Scenario → Scenario × Except Summary.Failure (List (Point Snapshot))
  | [], s => (s, .ok [])
  | (labels, handle) :: rest, s =>
    match s.snapshot ⟨i, handle⟩ with
    | (s, none) => snapshots i rest s
    | (s, some (.error e)) => (s, .error e)
    | (s, some (.ok snapshot)) =>
      let (s, points) := snapshots i rest s
      (s, points.map (⟨labels, snapshot⟩ :: ·))

def collect (i : Nat) (e : Entry) (s : Scenario) :
    Scenario × Except Summary.Failure (List (Point Snapshot)) :=
  let (family, events) := e.family.prepare (e.fresh s.now [])
  let s := (s.setEntry i { e with family }).announce e events
  s.snapshots i family.points

end Scenario
end Metering
