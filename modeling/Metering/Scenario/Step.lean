import Metering.Scenario

/-! # Scenario steps

One step moves the clock, reads the journal, works on a family or works on one series of a family.
A refused step changes no more than what it did before the refusal.
-/
namespace Metering.Scenario

/-- How a step names a series: by its label values, where a refused look-up that is `strict`
aborts, or by a name bound before. -/
inductive Lookup
  | labels (values : List String) (strict : Bool)
  | bound (name : String)

inductive Stamp
  | now
  | missing
  | at (time : Time)

structure RawTag where
  labels : List (String × String)
  stamp : Stamp

inductive SeriesStep
  | get (name : Option String)
  | hook (message : String) (values : List Float)
  | disturb (i : Summary.Intrusion)
  | snapshot
  | value
  | increment (times : Nat)
  | decrement (times : Nat)
  | add (v : Float) (times : Nat)
  | subtract (v : Float)
  | set (v : Float)
  | addTagged (v : Float) (tag : RawTag)
  | setTagged (v : Float) (tag : RawTag)
  | setToTime
  | observe (values : List Float) (times : Nat) (quiet : Bool)
  | observeTagged (v : Float) (tag : RawTag) (quiet : Bool)

inductive Step
  | advance (ns : Int)
  | journal
  | describe (entry : Nat)
  | collect (entry : Nat)
  | collectAll (entries : List Nat)
  | totals (entries : List Nat)
  | remove (entry : Nat) (values : List String)
  | reset (entry : Nat)
  | size (entry : Nat)
  | same (a b : String)
  | seen (entry sampler : Nat)
  | series (entry : Nat) (lookup : Lookup) (step : SeriesStep)

inductive Answer
  | done
  | ready
  | journal (records : List Record)
  | description (d : Description)
  | family (f : FamilySnapshot)
  | families (fs : List FamilySnapshot)
  | points (ps : List (Point Snapshot))
  | totals (t : Totals)
  | flag (b : Bool)
  | size (n : Nat)
  | seen (samplers : Nat) (r : Recorder)
  | value (v : Float)
  | snapshot (s : Snapshot)

inductive Refusal
  | error (e : Error)
  | abort (message : String)
  | noFamily
  | noSuchCall

/-- A failed look-up is answered by the error or, where it is `strict`, aborts with its text. -/
def Refusal.ofError (strict : Bool) (e : Error) : Refusal :=
  if strict then .abort e.message else .error e

/-- A step keeps the scenario also where it is refused. -/
abbrev Play := ExceptT Refusal (StateM Scenario)

namespace Play

def family (i : Nat) : Play Entry := do
  match (← get).entryAt? i with
  | some e => if e.standalone then throw .noFamily else return e
  | none => throw .noFamily

def lift {α : Type} (r : Except Error α) : Play α :=
  match r with
  | .ok a => return a
  | .error e => throw (.error e)

def liftFailure {α : Type} (r : Except Summary.Failure α) : Play α :=
  match r with
  | .ok a => return a
  | .error e => throw (.abort e.message)

def find (i : Nat) : Lookup → Play Target
  | .bound name => do
    match (← get).names.lookup name with
    | some t => return t
    | none => throw .noSuchCall
  | .labels values strict => do
    match (← get).obtain i values with
    | none => throw .noFamily
    | some (.ok (s, t)) => set s; return t
    | some (.error e) => throw (.ofError strict e)

def tag (raw : RawTag) : Play Tag := do
  let labels ← lift (LabelSet.ofPairs raw.labels)
  let now := (← get).now
  let timestamp :=
    match raw.stamp with
    | .now => some now
    | .missing => none
    | .at time => some time
  return { labels, timestamp }

def snapshot (t : Target) : Play Snapshot := do
  let (s, r) := (← get).snapshot t
  set s
  match r with
  | none => throw .noSuchCall
  | some r => liftFailure r

def value (t : Target) : Play Answer := do
  match ((← get).series? t).bind (·.accumulator.value?) with
  | some v => return .value v
  | none => throw .noSuchCall

def call (t : Target) (c : Call) : Nat → Play Unit
  | 0 => return ()
  | n + 1 => do
    let s ← get
    match (s.series? t).bind (·.accumulator.call? s.now c) with
    | none => throw .noSuchCall
    | some r =>
      let a ← lift r
      modify (·.setAccumulator t a)
      call t c n

def observeAll (t : Target) (tag : Option Tag) (values : List Float) : Play Unit :=
  modify fun s => values.foldl (fun s v => s.observe tag t v) s

def observed (t : Target) (quiet : Bool) : Play Answer := do
  if quiet then return .ready else return .snapshot (← snapshot t)

def collectFamily (i : Nat) : Play (List (Point Snapshot)) := do
  let e ← family i
  let (s, r) := (← get).collect i e
  set s
  liftFailure r

def familySnapshot (i : Nat) : Play FamilySnapshot := do
  let e ← family i
  let points ← collectFamily i
  let d := e.family.description
  return { name := d.fullName, help := d.help, kind := e.blueprint.kind, points }

/-- Collects families in the given order, once all of them are known to exist. -/
def collectAll (entries : List Nat) : Play (List FamilySnapshot) := do
  let _ ← entries.mapM family
  entries.mapM familySnapshot

end Play

open Play

def SeriesStep.run (t : Target) : SeriesStep → Play Answer
  | .get name => do
    if let some name := name then modify fun s => { s with names := (name, t) :: s.names }
    return .ready
  | .hook message values => do
    modify fun s => { s with arrivals := s.arrivals ++ [{ message, target := t, values }] }
    return .done
  | .disturb intrusion => do
    modify fun s => { s with disturbances := s.disturbances ++ [{ target := t, intrusion }] }
    return .done
  | .snapshot => return .snapshot (← Play.snapshot t)
  | .value => Play.value t
  | .increment times => do call t .increment times; Play.value t
  | .decrement times => do call t .decrement times; Play.value t
  | .add v times => do call t (.add v none) times; Play.value t
  | .subtract v => do call t (.subtract v) 1; Play.value t
  | .set v => do call t (.set v none) 1; Play.value t
  | .addTagged v raw => do call t (.add v (← tag raw)) 1; Play.value t
  | .setTagged v raw => do call t (.set v (← tag raw)) 1; Play.value t
  | .setToTime => do call t .setToTime 1; Play.value t
  | .observe values times quiet => do
    for _ in List.range times do observeAll t none values
    observed t quiet
  | .observeTagged v raw quiet => do
    observeAll t (← tag raw) [v]
    observed t quiet

def Step.run : Step → Play Answer
  | .advance ns => do
    modify fun s => { s with now := s.now + ns }
    return .done
  | .journal => do
    let s ← get
    set { s with journal := #[] }
    return .journal s.journal.toList
  | .describe i => return .description (← family i).family.description
  | .collect i => do
    match (← get).entryAt? i with
    | none => throw .noFamily
    | some e =>
      if e.standalone then return .snapshot (← Play.snapshot ⟨i, 0⟩)
      match e.specification with
      | .container _ => return .points (← collectFamily i)
      | _ => return .family (← familySnapshot i)
  | .collectAll entries => return .families (← Play.collectAll entries)
  | .totals entries => return .totals (Metering.totals (← Play.collectAll entries))
  | .remove i values => do
    let e ← family i
    let (f, removed, events) := e.family.remove values
    modify fun s => (s.setEntry i { e with family := f }).announce e events
    return .flag removed
  | .reset i => do
    let e ← family i
    let (f, events) := e.family.clear
    modify fun s => (s.setEntry i { e with family := f }).announce e events
    return .done
  | .size i => return .size (← family i).family.size
  | .same a b => do
    let names := (← get).names
    return .flag (names.lookup a == names.lookup b)
  | .seen i n => do
    let e ← family i
    let samplers := e.family.made.filterMap (·.accumulator.sampler?)
    return .seen samplers.size (samplers.getD n {})
  | .series i lookup step => do
    if ((← get).entryAt? i).isNone then throw .noFamily
    step.run (← find i lookup)

def step (st : Step) (s : Scenario) : Scenario × Except Refusal Answer :=
  let (r, s) := (st.run.run s).run
  (s, r)

def run : List Step → Scenario → List (Except Refusal Answer)
  | [], _ => []
  | st :: rest, s =>
    let (s, r) := step st s
    r :: run rest s

end Metering.Scenario
