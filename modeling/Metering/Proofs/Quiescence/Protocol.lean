import Metering.Buffer
import Mathlib.Algebra.BigOperators.Group.Finset.Basic
import Mathlib.Algebra.Order.Group.Multiset

/-! # Many writers and one buffer

Writers and pauses share a buffer and an accumulator. A writer announces its value and then either
has it kept or applies it and raises the count; a pause, one at a time, waits until every announced
value is counted, looks at the accumulator and may empty it, lets the writers go on, takes what was
kept and replays it. Each constructor of `Step` is one atomic step; steps of different parties come
in any order.
-/
namespace Metering.Quiescence

inductive Stage
  | idle
  /-- Announced during a pause and not kept yet. -/
  | diverted (v : Float)
  /-- Announced outside a pause and not applied yet. -/
  | direct (v : Float)
  /-- Applied and not counted yet. -/
  | landed

inductive Phase
  | free
  | waiting (start : UInt64)
  | caughtUp (start : UInt64)
  | looked (start : UInt64)
  | lifted (pending : UInt64)
  | replaying (rest : List Float)

/-- The accumulator is the bag of the values applied to it, with its count. -/
structure State (W : Type) where
  buffer : Buffer := {}
  stage : W → Stage := fun _ => .idle
  phase : Phase := .free
  contents : Multiset Float := 0
  count : Nat := 0

inductive Move (W : Type)
  | announce (w : W) (v : Float) (diverted : Bool)
  | keep (w : W)
  | apply (w : W)
  | count (w : W)
  | pause
  | catchUp
  | look (empties : Bool)
  | resume
  | drain
  | replay (v : Float)
  | release

namespace State
variable {W : Type}

def moveTo [DecidableEq W] (w : W) (g : Stage) (s : State W) : State W :=
  { s with stage := Function.update s.stage w g }

@[simp] theorem buffer_moveTo [DecidableEq W] (w : W) (g : Stage) (s : State W) : (s.moveTo w g).buffer = s.buffer := rfl
@[simp] theorem phase_moveTo [DecidableEq W] (w : W) (g : Stage) (s : State W) : (s.moveTo w g).phase = s.phase := rfl
@[simp] theorem contents_moveTo [DecidableEq W] (w : W) (g : Stage) (s : State W) :
    (s.moveTo w g).contents = s.contents := rfl
@[simp] theorem count_moveTo [DecidableEq W] (w : W) (g : Stage) (s : State W) : (s.moveTo w g).count = s.count := rfl

def proceed (b : Buffer) (p : Phase) (s : State W) : State W :=
  { s with buffer := b, phase := p }

@[simp] theorem buffer_proceed (b : Buffer) (p : Phase) (s : State W) : (s.proceed b p).buffer = b := rfl
@[simp] theorem phase_proceed (b : Buffer) (p : Phase) (s : State W) : (s.proceed b p).phase = p := rfl
@[simp] theorem contents_proceed (b : Buffer) (p : Phase) (s : State W) :
    (s.proceed b p).contents = s.contents := rfl
@[simp] theorem count_proceed (b : Buffer) (p : Phase) (s : State W) :
    (s.proceed b p).count = s.count := rfl

/-- Reading the accumulator changes it only where it is emptied. -/
def look (empties : Bool) (start : UInt64) (s : State W) : State W :=
  if empties then { s with contents := 0, count := 0 }.proceed s.buffer.requestRestart (.looked start)
  else s.proceed s.buffer (.looked start)

def announced [DecidableEq W] (w : W) (v : Float) (s : State W) : State W :=
  { s with buffer := s.buffer.announce.1 }.moveTo w
    (if s.buffer.announce.2 then .diverted v else .direct v)

end State

variable {W : Type} [DecidableEq W]

/-- The atomic steps. A value is announced only while the count of announced values stays below
`2 ^ 63`; a wait is a step that its condition guards. -/
inductive Step : State W → Move W → State W → Prop
  | announce {s : State W} {w : W} (v : Float) (idle : s.stage w = .idle)
      (room : s.buffer.appended.toNat + 1 < 2 ^ 63) :
      Step s (.announce w v s.buffer.announce.2) (s.announced w v)
  | keep {s : State W} {w : W} {v : Float} (at_stage : s.stage w = .diverted v) :
      Step s (.keep w) ({ s with buffer := s.buffer.keep v }.moveTo w .idle)
  | apply {s : State W} {w : W} {v : Float} (at_stage : s.stage w = .direct v) :
      Step s (.apply w) ({ s with contents := v ::ₘ s.contents }.moveTo w .landed)
  | count {s : State W} {w : W} (at_stage : s.stage w = .landed) :
      Step s (.count w) ({ s with count := s.count + 1 }.moveTo w .idle)
  | pause {s : State W} (at_phase : s.phase = .free) :
      Step s .pause (s.proceed s.buffer.pause (.waiting s.buffer.appended))
  | catchUp {s : State W} {start : UInt64} (at_phase : s.phase = .waiting start)
      (counted : s.count = start.toNat) :
      Step s .catchUp (s.proceed s.buffer (.caughtUp start))
  | look {s : State W} {start : UInt64} (empties : Bool) (at_phase : s.phase = .caughtUp start) :
      Step s (.look empties) (s.look empties start)
  | resume {s : State W} {start : UInt64} (at_phase : s.phase = .looked start) :
      Step s .resume (s.proceed (s.buffer.resume start).1 (.lifted (s.buffer.resume start).2))
  | drain {s : State W} {pending : UInt64} (at_phase : s.phase = .lifted pending)
      (published : pending.toNat ≤ s.buffer.cursor) :
      Step s .drain
        (s.proceed (s.buffer.drain pending).1 (.replaying (s.buffer.drain pending).2))
  | replay {s : State W} {v : Float} {rest : List Float} (at_phase : s.phase = .replaying (v :: rest)) :
      Step s (.replay v)
        { s with contents := v ::ₘ s.contents, count := s.count + 1, phase := .replaying rest }
  | release {s : State W} (at_phase : s.phase = .replaying []) :
      Step s .release (s.proceed s.buffer .free)

/-- `Run h s`: the moves `h`, the latest first, lead from a new buffer and accumulator to `s`. -/
inductive Run : List (Move W) → State W → Prop
  | start : Run [] {}
  | move {h : List (Move W)} {s t : State W} {m : Move W} : Run h s → Step s m t → Run (m :: h) t

namespace Move
variable {W : Type}

def begins : Move W → Bool
  | .announce .. => true
  | .pause => true
  | _ => false

def isPause : Move W → Bool
  | .pause => true
  | _ => false

def announced : List (Move W) → Multiset Float
  | [] => 0
  | .announce _ v _ :: h => v ::ₘ announced h
  | _ :: h => announced h

def diverted : List (Move W) → Multiset Float
  | [] => 0
  | .announce _ v true :: h => v ::ₘ diverted h
  | _ :: h => diverted h

def replayed : List (Move W) → Multiset Float
  | [] => 0
  | .replay v :: h => v ::ₘ replayed h
  | _ :: h => replayed h

def sincePause (h : List (Move W)) : List (Move W) :=
  h.takeWhile (!·.isPause)

def beforePause (h : List (Move W)) : List (Move W) :=
  (h.dropWhile (!·.isPause)).tail

/-- The moves after the beginning of the pause that last emptied the accumulator, all moves where
none did. -/
def sinceEmptied : List (Move W) → List (Move W)
  | [] => []
  | .look true :: h => sincePause h
  | m :: h => m :: sinceEmptied h

end Move
end Metering.Quiescence
