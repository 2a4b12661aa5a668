import Metering.Proofs.Binary64.Pack
import Metering.Proofs.Buffer.Quiet

/-! # Mirrored pauses

A buffer looks at how many values it is told of, and never at a value. What is announced and replayed
negated leaves it with the same count and with the negatives of what it keeps.
-/
namespace Metering
namespace Buffer

/-- The buffer that keeps the negated values. -/
def mirror (b : Buffer) : Buffer :=
  { b with overflow := b.overflow.map (-·) }

def Numbers (b : Buffer) : Prop :=
  ∀ v ∈ b.overflow.toList, v.isNaN = false

variable {b : Buffer} {v : Float}

theorem mirror_new : mirror {} = {} := by
  simp [mirror]

theorem mirror_set_progress (b : Buffer) (p : UInt64) :
    ({ b with progress := p } : Buffer).mirror = { b.mirror with progress := p } := rfl

theorem appended_mirror (b : Buffer) : b.mirror.appended = b.appended := rfl

theorem pause_mirror (b : Buffer) : b.mirror.pause = b.pause.mirror :=
  (mirror_set_progress b (b.progress + flag)).symm

theorem append_mirror (v : Float) (b : Buffer) : b.mirror.append (-v) = ((b.append v).1.mirror, (b.append v).2) := by
  have hannounce : b.mirror.announce = (b.announce.1.mirror, b.announce.2) := rfl
  have hkeep : b.announce.1.mirror.keep (-v) = (b.announce.1.keep v).mirror := by simp [keep, mirror]
  cases hp : b.announce.2 with
  | false => rw [append_of_not_paused v b hp, append_of_not_paused _ _ (hannounce ▸ hp), hannounce]
  | true => rw [append_of_paused v b hp, append_of_paused _ _ (hannounce ▸ hp), hannounce, hkeep]

theorem resume_mirror (start : UInt64) (b : Buffer) :
    b.mirror.resume start = ((b.resume start).1.mirror, (b.resume start).2) := by
  have hrestart : b.mirror.restart = b.restart := rfl
  rw [resume, resume, hrestart]
  split
  · rfl
  · exact Prod.ext (mirror_set_progress b (b.progress + flag)).symm rfl

theorem drain_mirror (pending : UInt64) (b : Buffer) : (b.mirror.drain pending).1 = (b.drain pending).1.mirror := by
  have hcursor : b.mirror.cursor = b.cursor := rfl
  rw [drain, drain, hcursor]
  split <;> simp [mirror, stall]

theorem lift_mirror (start : UInt64) (b : Buffer) : lift start b.mirror = (lift start b).mirror := by
  rw [lift, lift, resume_mirror, drain_mirror]

theorem numbers_lift (start : UInt64) (b : Buffer) : (lift start b).Numbers := by
  intro v hv
  rw [lift, overflow_drain] at hv
  exact absurd hv (by simp)

theorem Numbers.append (h : b.Numbers) (hv : v.isNaN = false) : (b.append v).1.Numbers := by
  cases hp : b.announce.2 with
  | false =>
    rw [append_of_not_paused v b hp]
    exact h
  | true =>
    rw [append_of_paused v b hp]
    intro u hu
    rw [toList_overflow_keep, List.mem_append, List.mem_singleton] at hu
    exact hu.elim (h u) fun heq => heq ▸ hv

end Buffer

/-- A pause keeps two states mirror images when what is done in it and every replay do. -/
theorem exclusively_mirror {σ α : Type} [Buffered σ] (image : σ → σ → Prop) (alike : α → α → Prop)
    {inside inside' : UInt64 → σ → σ × α} {replay : Float → σ → σ} {s t : σ}
    (hbuffer : ∀ s t, image s t → Buffered.buffer t = (Buffered.buffer s).mirror ∧ (Buffered.buffer s).Numbers)
    (hset : ∀ s t b, image s t → b.Numbers → image (Buffered.setBuffer b s) (Buffered.setBuffer b.mirror t))
    (hinside : ∀ start s t, image s t →
      image (inside start s).1 (inside' start t).1 ∧ alike (inside start s).2 (inside' start t).2)
    (hreplay : ∀ v s t, v.isNaN = false → image s t → image (replay v s) (replay (-v) t)) (h : image s t) :
    image (exclusively inside replay s).1 (exclusively inside' replay t).1 ∧
      alike (exclusively inside replay s).2 (exclusively inside' replay t).2 := by
  obtain ⟨hb,hn⟩ := hbuffer s t h
  have hstart : (Buffered.buffer t).appended = (Buffered.buffer s).appended := by rw [hb, Buffer.appended_mirror]
  have hpause : (Buffered.buffer t).pause = (Buffered.buffer s).pause.mirror := by rw [hb, Buffer.pause_mirror]
  have hpaused := hset s t (Buffered.buffer s).pause h (by rwa [Buffer.Numbers, Buffer.overflow_pause])
  obtain ⟨himage,halike⟩ := hinside (Buffered.buffer s).appended _ _ hpaused
  rw [← hpause] at himage halike
  generalize hs' : inside (Buffered.buffer s).appended (Buffered.setBuffer (Buffered.buffer s).pause s) = r at himage halike
  generalize ht' : inside' (Buffered.buffer s).appended (Buffered.setBuffer (Buffered.buffer t).pause t) = r' at himage halike
  obtain ⟨hb',hn'⟩ := hbuffer r.1 r'.1 himage
  rw [← hstart] at ht'
  rw [exclusively_eq s r.1 hs', exclusively_eq t r'.1 ht', hb', Buffer.lift_mirror, hstart]
  refine ⟨?_, halike⟩
  change image _ (List.foldl _ _ (Array.map _ _).toList)
  rw [Array.toList_map, List.foldl_map]
  refine List.foldl_rel ?_ fun v hv s t hst => hreplay v s t (hn' v hv) hst
  exact hset r.1 r'.1 _ himage (Buffer.numbers_lift _ _)

end Metering
