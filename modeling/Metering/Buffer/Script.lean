import Metering.Buffer

/-! # Scripted pauses

A script drives one buffer from outside: values are announced before, during and after pauses, from
the wait, from the work itself and from the replay, and wait and work may fail.
-/
namespace Metering.Buffer.Script

inductive Action
  | append (v : Float) (times : Nat)
  | restart
  | look

/-- What one pause does. The wait is asked until a poll is granted or fails; every poll, the work and
every replay has actions of its own. -/
structure Routine (α : Type) where
  refused : List (List Action) := []
  waiting : List Action := []
  waitFails : Bool := false
  snapshot : List Action := []
  snapshotFails : Bool := false
  value : α
  replay : Nat → List Action := fun _ => []

/-- A routine as a script writes it: only the first poll has actions, and every replay has the same.
`polls` is the number of times a wait that does not fail is refused. -/
structure Pass (α : Type) where
  waiting : List Action := []
  waitFails : Bool := false
  polls : Nat := 0
  snapshot : List Action := []
  snapshotFails : Bool := false
  value : α
  replay : List Action := []

def Pass.routine {α : Type} (p : Pass α) : Routine α :=
  let (refused, waiting) :=
    match p.waitFails, p.polls with
    | false, n + 1 => (p.waiting :: List.replicate n [], [])
    | _, _ => ([], p.waiting)
  { refused, waiting
    waitFails := p.waitFails
    snapshot := p.snapshot
    snapshotFails := p.snapshotFails
    value := p.value
    replay := fun _ => p.replay }

inductive Step (α : Type)
  | act (a : Action)
  | run (p : Pass α)

inductive Failure
  | wait
  | snapshot
deriving DecidableEq, Repr

def Failure.message : Failure → String
  | .wait => "wait failed"
  | .snapshot => "snapshot failed"

structure Seen (β : Type) where
  result : β
  appended : UInt64
  paused : Bool

def look {β : Type} (b : Buffer) (result : β) : Seen β :=
  ⟨result, b.appended, b.isPaused⟩

/-- Whether the value was kept; an action without a value answers nothing. -/
abbrev Kept := Option Bool

def appendTimes (v : Float) : Nat → Buffer → Bool → Buffer × Bool
  | 0, b, kept => (b, kept)
  | n + 1, b, _ =>
    let (b, kept) := b.append v
    appendTimes v n b kept

def act (a : Action) (b : Buffer) : Buffer × Kept :=
  match a with
  | .append v times =>
    let (b, kept) := appendTimes v times b false
    (b, some kept)
  | .restart => (b.requestRestart, none)
  | .look => (b, none)

def actAll (actions : List Action) (b : Buffer) : Buffer × List (Seen Kept) :=
  actions.foldl
    (fun (b, seen) a =>
      let (b, kept) := act a b
      (b, seen ++ [look b kept]))
    (b, [])

structure Replayed where
  value : Float
  seen : Seen (List (Seen Kept))

structure Tape where
  buffer : Buffer
  expected : List UInt64 := []
  waiting : List (Seen Kept) := []
  snapshot : List (Seen Kept) := []
  replayed : Array Replayed := #[]

instance : Buffered Tape where
  buffer := Tape.buffer
  setBuffer b t := { t with buffer := b }

/-- The wait and the work of a pause. The work is left out where the wait fails. -/
def inside {α : Type} (r : Routine α) (start : UInt64) (t : Tape) : Tape × Except Failure α :=
  let (buffer, waiting) := actAll (r.refused.flatten ++ r.waiting) t.buffer
  let t := { t with buffer, waiting, expected := List.replicate (r.refused.length + 1) start }
  if r.waitFails then (t, .error .wait)
  else
    let (buffer, snapshot) := actAll r.snapshot t.buffer
    ({ t with buffer, snapshot }, if r.snapshotFails then .error .snapshot else .ok r.value)

def replay {α : Type} (r : Routine α) (v : Float) (t : Tape) : Tape :=
  let (buffer, seen) := actAll (r.replay t.replayed.size) t.buffer
  { t with buffer, replayed := t.replayed.push ⟨v, look buffer seen⟩ }

def Routine.perform {α : Type} (r : Routine α) (b : Buffer) : Tape × Except Failure α :=
  exclusively (inside r) (Script.replay r) { buffer := b }

inductive Answer (α : Type)
  | act (kept : Kept)
  | run (tape : Tape) (value : Except Failure α)

def step {α : Type} (s : Step α) (b : Buffer) : Buffer × Answer α :=
  match s with
  | .act a =>
    let (b, kept) := act a b
    (b, .act kept)
  | .run p =>
    let (t, value) := p.routine.perform b
    (t.buffer, .run t value)

def run {α : Type} (steps : List (Step α)) (b : Buffer) : List (Seen (Answer α)) :=
  match steps with
  | [] => []
  | s :: rest =>
    let (b, answer) := step s b
    look b answer :: run rest b

end Metering.Buffer.Script
