import Metering.Proofs.Buffer.Quiet

/-! # Waits

A pause waits twice: until the accumulator has caught up with what was announced and, once it is
lifted, until what was kept is published. With one thread of control a wait that is not over at the
first look never is; the buffer remembers that there was one.
-/
namespace Metering
namespace Buffer

theorem stalled_append (v : Float) (b : Buffer) : (b.append v).1.stalled = b.stalled := by
  unfold append
  dsimp only
  split
  · exact stalled_announce b
  · exact stalled_announce b

end Buffer

variable {σ α : Type} [Buffered σ]

def stalled (s : σ) : Bool :=
  (Buffered.buffer s).stalled

/-- Whether both waits of a pause are over at the first look: the accumulator is `ready` as soon as
the pause begins, and everything that arrived is published as soon as it ends. -/
def prompt (ready : UInt64 → σ → Bool) (inside : UInt64 → σ → σ) (s : σ) : Bool :=
  let b := Buffered.buffer s
  let paused := Buffered.setBuffer b.pause s
  let (b', pending) := (Buffered.buffer (inside b.appended paused)).resume b.appended
  ready b.appended paused && decide (pending.toNat ≤ b'.cursor)

theorem stalled_foldl {replay : Float → σ → σ} (hreplay : ∀ v s, stalled (replay v s) = stalled s)
    (vs : List Float) (s : σ) : stalled (vs.foldl (fun s v => replay v s) s) = stalled s := by
  induction vs generalizing s with
  | nil => rfl
  | cons v vs ih => exact (ih (replay v s)).trans (hreplay v s)

/-- A pause leaves a mark just where one of its waits was not over at once, and clears none. -/
theorem stalled_exclusively {ready : UInt64 → σ → Bool} (inside : UInt64 → σ → σ × α)
    (replay : Float → σ → σ) (hset : ∀ b (s : σ), Buffered.buffer (Buffered.setBuffer b s) = b)
    (hin : ∀ start s, stalled (inside start s).1 = (stalled s || !ready start s))
    (hreplay : ∀ v s, stalled (replay v s) = stalled s) (s : σ) :
    stalled (exclusively inside replay s).1 = (stalled s || !prompt ready (fun start s => (inside start s).1) s) := by
  have hinside := hin (Buffered.buffer s).appended (Buffered.setBuffer (Buffered.buffer s).pause s)
  rw [exclusively, prompt]
  dsimp only
  rw [stalled_foldl hreplay, stalled, hset, Buffer.stalled_drain, Buffer.stalled_resume, ← stalled, hinside]
  rw [stalled, hset, Buffer.stalled_pause, ← stalled, Bool.not_and, Bool.or_assoc]

end Metering
