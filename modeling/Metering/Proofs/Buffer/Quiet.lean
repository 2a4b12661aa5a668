import Metering.Proofs.Buffer.Count

/-! # Quiet buffers

With one thread of control nothing arrives during a pause. A buffer that is quiet before the pause
is quiet after it, with the same count or, after a restart, with none.
-/
namespace Metering.Buffer

/-- Not paused, with nothing kept and nothing asked for. -/
structure Quiet (b : Buffer) : Prop where
  running : b.isPaused = false
  overflow : b.overflow = #[]
  cursor : b.cursor = 0
  restart : b.restart = false
  stalled : b.stalled = false

theorem quiet_new : Quiet {} := ⟨by decide, rfl, rfl, rfl, rfl⟩

theorem sequence_new : sequence {} = 0 := by decide

variable {b p : Buffer}

theorem Quiet.announce_snd (h : Quiet b) (hs : b.sequence + 1 < 2 ^ 63) : b.announce.2 = false :=
  (Buffer.announce_snd hs).trans h.running

theorem Quiet.announce (h : Quiet b) (hs : b.sequence + 1 < 2 ^ 63) : Quiet b.announce.1 where
  running := (isPaused_announce hs).trans h.running
  overflow := (overflow_announce b).trans h.overflow
  cursor := (cursor_announce b).trans h.cursor
  restart := (restart_announce b).trans h.restart
  stalled := (stalled_announce b).trans h.stalled

/-- The buffer under a pause during which nothing arrived, possibly with a restart asked for. -/
structure Idle (b p : Buffer) : Prop where
  paused : p.isPaused = true
  sequence : p.sequence = b.sequence
  overflow : p.overflow = #[]
  cursor : p.cursor = 0
  stalled : p.stalled = false

theorem Quiet.pause (h : Quiet b) : Idle b b.pause where
  paused := isPaused_pause h.running
  sequence := sequence_pause h.running
  overflow := (overflow_pause b).trans h.overflow
  cursor := (cursor_pause b).trans h.cursor
  stalled := (stalled_pause b).trans h.stalled

theorem Idle.requestRestart (h : Idle b p) : Idle b p.requestRestart where
  paused := (isPaused_requestRestart p).trans h.paused
  sequence := (sequence_requestRestart p).trans h.sequence
  overflow := (overflow_requestRestart p).trans h.overflow
  cursor := (cursor_requestRestart p).trans h.cursor
  stalled := h.stalled

theorem stalled_drain (pending : UInt64) (b : Buffer) :
    (b.drain pending).1.stalled = (b.stalled || !decide (pending.toNat ≤ b.cursor)) := by
  unfold drain
  split
  next h => simp [stall, Nat.not_le.mpr h]
  next h => simp [Nat.not_lt.mp h]

theorem stalled_drain_of_le {pending : UInt64} (h : pending.toNat ≤ b.cursor) :
    (b.drain pending).1.stalled = b.stalled := by
  simp [stalled_drain, h]

def lift (start : UInt64) (p : Buffer) : Buffer :=
  ((p.resume start).1.drain (p.resume start).2).1

theorem Idle.quiet_lift (h : Idle b p) : Quiet (lift b.appended p) := by
  have hs : b.appended.toNat ≤ p.sequence := Nat.le_of_eq h.sequence.symm
  have hpending : (p.resume b.appended).2.toNat = 0 := by
    rw [toNat_resume_snd h.paused hs, h.sequence]
    exact Nat.sub_self _
  exact {
    running := (isPaused_drain _ _).trans (isPaused_resume h.paused hs)
    overflow := overflow_drain _ _
    cursor := cursor_drain _ _
    restart := (restart_drain _ _).trans (restart_resume _ _)
    stalled := by
      rw [lift, stalled_drain_of_le (by omega), stalled_resume, h.stalled] }

theorem Idle.sequence_lift (h : Idle b p) :
    (lift b.appended p).sequence = if p.restart then 0 else b.sequence := by
  have hs : b.appended.toNat ≤ p.sequence := Nat.le_of_eq h.sequence.symm
  rw [lift, sequence_drain, sequence_resume h.paused hs, h.sequence]
  split
  · exact Nat.sub_self _
  · rfl

end Metering.Buffer

namespace Metering
variable {σ α : Type} [Buffered σ]

/-- What was kept under the pause is replayed once the pause is lifted. -/
theorem exclusively_eq {inside : UInt64 → σ → σ × α} {replay : Float → σ → σ} (s s' : σ) {a : α}
    (hin : inside (Buffered.buffer s).appended (Buffered.setBuffer (Buffered.buffer s).pause s) = (s', a)) :
    exclusively inside replay s =
      ((Buffered.buffer s').overflow.toList.foldl (fun s v => replay v s)
        (Buffered.setBuffer (Buffer.lift (Buffered.buffer s).appended (Buffered.buffer s')) s'), a) := by
  rw [exclusively]
  dsimp only
  rw [hin, Buffer.drain_snd, Buffer.overflow_resume]
  rfl

theorem exclusively_idle {inside : UInt64 → σ → σ × α} {replay : Float → σ → σ} (s s' : σ) {a : α}
    (hin : inside (Buffered.buffer s).appended (Buffered.setBuffer (Buffered.buffer s).pause s) = (s', a))
    (h : Buffer.Idle (Buffered.buffer s) (Buffered.buffer s')) :
    exclusively inside replay s =
      (Buffered.setBuffer (Buffer.lift (Buffered.buffer s).appended (Buffered.buffer s')) s', a) := by
  rw [exclusively_eq s s' hin, h.overflow]
  rfl

/-- A pause keeps two states related when what is done in it and every replay do. -/
theorem exclusively_rel {τ β : Type} [Buffered τ] (related : σ → τ → Prop) (alike : α → β → Prop)
    {inside : UInt64 → σ → σ × α} {inside' : UInt64 → τ → τ × β} {replay : Float → σ → σ} {replay' : Float → τ → τ}
    {s : σ} {t : τ} (hbuffer : ∀ s t, related s t → Buffered.buffer t = Buffered.buffer s)
    (hset : ∀ b s t, related s t → related (Buffered.setBuffer b s) (Buffered.setBuffer b t))
    (hinside : ∀ start s t, related s t →
      related (inside start s).1 (inside' start t).1 ∧ alike (inside start s).2 (inside' start t).2)
    (hreplay : ∀ v s t, related s t → related (replay v s) (replay' v t)) (h : related s t) :
    related (exclusively inside replay s).1 (exclusively inside' replay' t).1 ∧
      alike (exclusively inside replay s).2 (exclusively inside' replay' t).2 := by
  have hpaused := hset (Buffered.buffer s).pause s t h
  obtain ⟨hrelated,halike⟩ := hinside (Buffered.buffer s).appended _ _ hpaused
  have hstart := hbuffer s t h
  rw [exclusively_eq s _ rfl, exclusively_eq t _ rfl, hstart]
  generalize inside (Buffered.buffer s).appended (Buffered.setBuffer (Buffered.buffer s).pause s) = r at hrelated halike ⊢
  generalize inside' (Buffered.buffer s).appended (Buffered.setBuffer (Buffered.buffer s).pause t) = r' at hrelated halike ⊢
  rw [hbuffer r.1 r'.1 hrelated]
  exact ⟨List.foldl_rel (hset _ r.1 r'.1 hrelated) fun v _ s t hst => hreplay v s t hst, halike⟩

/-- A pause keeps what the buffer has no part in when what is done in it and every replay do. -/
theorem exclusively_keeps (kept : σ → Prop) (told : α → Prop) {inside : UInt64 → σ → σ × α} {replay : Float → σ → σ}
    {s : σ} (hset : ∀ b s, kept s → kept (Buffered.setBuffer b s))
    (hinside : ∀ start s, kept s → kept (inside start s).1 ∧ told (inside start s).2)
    (hreplay : ∀ v s, kept s → kept (replay v s)) (h : kept s) :
    kept (exclusively inside replay s).1 ∧ told (exclusively inside replay s).2 := by
  obtain ⟨hin,htold⟩ := hinside (Buffered.buffer s).appended _ (hset (Buffered.buffer s).pause s h)
  rw [exclusively_eq s _ rfl]
  exact ⟨List.foldlRecOn _ _ (hset _ _ hin) fun s hs v _ => hreplay v s hs, htold⟩

/-- A map of the states that keeps the buffer commutes with a pause when it commutes with what is done
in it and with every replay. -/
theorem exclusively_map {τ β : Type} [Buffered τ] (f : σ → τ) (g : α → β) {inside : UInt64 → σ → σ × α}
    {inside' : UInt64 → τ → τ × β} {replay : Float → σ → σ} {replay' : Float → τ → τ}
    (hbuffer : ∀ s, Buffered.buffer (f s) = Buffered.buffer s)
    (hset : ∀ b s, Buffered.setBuffer b (f s) = f (Buffered.setBuffer b s))
    (hinside : ∀ start s, inside' start (f s) = (f (inside start s).1, g (inside start s).2))
    (hreplay : ∀ v s, replay' v (f s) = f (replay v s)) (s : σ) :
    exclusively inside' replay' (f s) =
      (f (exclusively inside replay s).1, g (exclusively inside replay s).2) := by
  have hrel : (exclusively inside' replay' (f s)).1 = f (exclusively inside replay s).1 ∧
      (exclusively inside' replay' (f s)).2 = g (exclusively inside replay s).2 := by
    refine exclusively_rel (fun s t => t = f s) (fun a b => b = g a) (fun s _ ht => ht ▸ hbuffer s)
      (fun b s _ ht => ht ▸ hset b s) ?_ (fun v s _ ht => ht ▸ hreplay v s) rfl
    intro start s t ht
    rw [ht, hinside]
    exact ⟨rfl, rfl⟩
  exact Prod.ext hrel.1 hrel.2

end Metering
