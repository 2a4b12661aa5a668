/-! # The pause buffer

Writers announce every value to the buffer before they apply it. While the buffer is paused it keeps
the values instead, and hands them out once the pause is over. One word counts the announced values
and carries the paused flag in its top bit; adding the flag a second time clears it and leaves the
count alone.
-/
namespace Metering

structure Buffer where
  progress : UInt64 := 0
  /-- Values that arrived during the pause. -/
  overflow : Array Float := #[]
  /-- The published length of the overflow. -/
  cursor : Nat := 0
  /-- Set when the accumulator was emptied during the pause, so that the count starts over. -/
  restart : Bool := false
  /-- Set when a wait was not satisfied at once: with one thread of control it never would be. -/
  stalled : Bool := false
deriving Repr

namespace Buffer

def flag : UInt64 := 0x8000000000000000

/-- The number of values announced since creation or the last restart: the word without its top
bit. -/
def appended (b : Buffer) : UInt64 :=
  b.progress % flag

def isPaused (b : Buffer) : Bool :=
  flag ≤ b.progress

/-- Counts one more value; the answer says whether the buffer has to keep it. -/
def announce (b : Buffer) : Buffer × Bool :=
  let b := { b with progress := b.progress + 1 }
  (b, b.isPaused)

/-- Keeps a value and publishes how many are kept. -/
def keep (v : Float) (b : Buffer) : Buffer :=
  let overflow := b.overflow.push v
  { b with overflow, cursor := overflow.size }

def append (v : Float) (b : Buffer) : Buffer × Bool :=
  let (b, kept) := b.announce
  (if kept then b.keep v else b, kept)

def requestRestart (b : Buffer) : Buffer :=
  { b with restart := true }

def stall (b : Buffer) : Buffer :=
  { b with stalled := true }

def pause (b : Buffer) : Buffer :=
  { b with progress := b.progress + flag }

/-- Lifts a pause that began at `start` and answers how many values arrived since. After a restart
the count goes on from that number. -/
def resume (start : UInt64) (b : Buffer) : Buffer × UInt64 :=
  if b.restart then
    let pending := b.appended - start
    ({ b with progress := pending, restart := false }, pending)
  else
    let b := { b with progress := b.progress + flag }
    (b, b.appended - start)

/-- Hands out what was kept, once `pending` values are published. -/
def drain (pending : UInt64) (b : Buffer) : Buffer × List Float :=
  let b := if b.cursor < pending.toNat then b.stall else b
  ({ b with overflow := #[], cursor := 0 }, b.overflow.toList)

@[simp] theorem append_of_not_paused (v : Float) (b : Buffer) (h : b.announce.2 = false) :
    b.append v = (b.announce.1, false) := by
  simp [append, h]

@[simp] theorem append_of_paused (v : Float) (b : Buffer) (h : b.announce.2 = true) :
    b.append v = (b.announce.1.keep v, true) := by
  simp [append, h]

@[simp] theorem toList_overflow_keep (v : Float) (b : Buffer) :
    (b.keep v).overflow.toList = b.overflow.toList ++ [v] := by
  simp [keep]

end Buffer

class Buffered (σ : Type) where
  buffer : σ → Buffer
  setBuffer : Buffer → σ → σ

/-- One pause: `inside` runs while the buffer keeps what is announced and learns the count at which
the pause began; then the pause is lifted and every kept value is replayed in order. The pause is
lifted whatever `inside` answers. -/
def exclusively {σ α : Type} [Buffered σ] (inside : UInt64 → σ → σ × α) (replay : Float → σ → σ)
    (s : σ) : σ × α :=
  let b := Buffered.buffer s
  let start := b.appended
  let (s, answer) := inside start (Buffered.setBuffer b.pause s)
  let (b, pending) := (Buffered.buffer s).resume start
  let (b, kept) := b.drain pending
  (kept.foldl (fun s v => replay v s) (Buffered.setBuffer b s), answer)

end Metering
