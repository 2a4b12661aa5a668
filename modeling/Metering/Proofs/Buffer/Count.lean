import Metering.Buffer
import Mathlib.Algebra.Group.Nat.Defs

/-! # The count and the flag of the buffer word

Every operation on the buffer is described by what it does to the count of announced values and to
the paused flag, as natural numbers. The word itself is not opened again.
-/
namespace Metering.Buffer

-- Stated for any word, so that no unifier compares a word with the same word plus the flag.
theorem overflow_set_progress (b : Buffer) (p : UInt64) :
    ({ b with progress := p } : Buffer).overflow = b.overflow := rfl
theorem cursor_set_progress (b : Buffer) (p : UInt64) :
    ({ b with progress := p } : Buffer).cursor = b.cursor := rfl
theorem restart_set_progress (b : Buffer) (p : UInt64) :
    ({ b with progress := p } : Buffer).restart = b.restart := rfl

theorem stalled_set_progress (b : Buffer) (p : UInt64) :
    ({ b with progress := p } : Buffer).stalled = b.stalled := rfl

theorem toNat_appended (b : Buffer) : b.appended.toNat = b.progress.toNat % 2 ^ 63 := by
  simp [appended, flag, UInt64.toNat_mod]

theorem isPaused_iff (b : Buffer) : b.isPaused = true ↔ 2 ^ 63 ≤ b.progress.toNat := by
  simp [isPaused, flag, UInt64.le_iff_toNat_le]

theorem toNat_progress_pause (b : Buffer) (h : b.isPaused = false) :
    b.pause.progress.toNat = b.progress.toNat + 2 ^ 63 := by
  have hb : ¬ 2 ^ 63 ≤ b.progress.toNat := by
    rw [← isPaused_iff, h]
    exact Bool.false_ne_true
  simp only [pause, flag, UInt64.toNat_add, UInt64.reduceToNat]
  omega

def sequence (b : Buffer) : Nat := b.appended.toNat

theorem sequence_eq (b : Buffer) : b.sequence = b.progress.toNat % 2 ^ 63 := toNat_appended b

theorem sequence_lt (b : Buffer) : b.sequence < 2 ^ 63 := by
  rw [sequence_eq]
  exact Nat.mod_lt _ (by decide)

theorem toNat_progress (b : Buffer) :
    b.progress.toNat = b.sequence + if b.isPaused then 2 ^ 63 else 0 := by
  have hs := sequence_eq b
  have hlt := b.progress.toNat_lt
  have hp := isPaused_iff b
  split <;> rename_i h
  · have := hp.mp h
    omega
  · have := mt hp.mpr h
    omega

theorem count_flag_of_toNat {b : Buffer} {n : Nat} {paused : Bool} (hn : n < 2 ^ 63)
    (h : b.progress.toNat = n + if paused then 2 ^ 63 else 0) :
    b.sequence = n ∧ b.isPaused = paused := by
  have hs := sequence_eq b
  cases paused with
  | false =>
    simp only [Bool.false_eq_true, if_false] at h
    refine ⟨by omega, ?_⟩
    rw [← Bool.not_eq_true, isPaused_iff]
    omega
  | true =>
    simp only [if_true] at h
    exact ⟨by omega, (isPaused_iff b).mpr (by omega)⟩

theorem toNat_progress_announce {b : Buffer} (h : b.sequence + 1 < 2 ^ 63) :
    b.announce.1.progress.toNat = b.sequence + 1 + if b.isPaused then 2 ^ 63 else 0 := by
  have hb := toNat_progress b
  simp only [announce, UInt64.toNat_add, UInt64.reduceToNat, hb]
  split <;> omega

theorem sequence_announce {b : Buffer} (h : b.sequence + 1 < 2 ^ 63) :
    b.announce.1.sequence = b.sequence + 1 :=
  (count_flag_of_toNat h (toNat_progress_announce h)).1

theorem isPaused_announce {b : Buffer} (h : b.sequence + 1 < 2 ^ 63) :
    b.announce.1.isPaused = b.isPaused :=
  (count_flag_of_toNat h (toNat_progress_announce h)).2

/-- While there is room for one more, the answer is the flag as it stood. -/
theorem announce_snd {b : Buffer} (h : b.sequence + 1 < 2 ^ 63) : b.announce.2 = b.isPaused :=
  isPaused_announce h

@[simp] theorem overflow_announce (b : Buffer) : b.announce.1.overflow = b.overflow :=
  overflow_set_progress b (b.progress + 1)
@[simp] theorem cursor_announce (b : Buffer) : b.announce.1.cursor = b.cursor :=
  cursor_set_progress b (b.progress + 1)
@[simp] theorem restart_announce (b : Buffer) : b.announce.1.restart = b.restart :=
  restart_set_progress b (b.progress + 1)

@[simp] theorem stalled_announce (b : Buffer) : b.announce.1.stalled = b.stalled :=
  stalled_set_progress b (b.progress + 1)

@[simp] theorem sequence_keep (v : Float) (b : Buffer) : (b.keep v).sequence = b.sequence := rfl
@[simp] theorem isPaused_keep (v : Float) (b : Buffer) : (b.keep v).isPaused = b.isPaused := rfl
@[simp] theorem restart_keep (v : Float) (b : Buffer) : (b.keep v).restart = b.restart := rfl
@[simp] theorem overflow_keep (v : Float) (b : Buffer) : (b.keep v).overflow = b.overflow.push v := rfl
@[simp] theorem cursor_keep (v : Float) (b : Buffer) : (b.keep v).cursor = b.overflow.size + 1 := by
  simp [keep]

@[simp] theorem sequence_requestRestart (b : Buffer) : b.requestRestart.sequence = b.sequence := rfl
@[simp] theorem isPaused_requestRestart (b : Buffer) : b.requestRestart.isPaused = b.isPaused := rfl
@[simp] theorem restart_requestRestart (b : Buffer) : b.requestRestart.restart = true := rfl
@[simp] theorem overflow_requestRestart (b : Buffer) : b.requestRestart.overflow = b.overflow := rfl
@[simp] theorem cursor_requestRestart (b : Buffer) : b.requestRestart.cursor = b.cursor := rfl

theorem sequence_pause {b : Buffer} (h : b.isPaused = false) : b.pause.sequence = b.sequence := by
  have hp := toNat_progress_pause b h
  have hb := toNat_progress b
  rw [h] at hb
  have hw : b.pause.progress.toNat = b.sequence + if true then 2 ^ 63 else 0 := by simpa [hb] using hp
  exact (count_flag_of_toNat (sequence_lt b) hw).1

theorem isPaused_pause {b : Buffer} (h : b.isPaused = false) : b.pause.isPaused = true := by
  have hp := toNat_progress_pause b h
  exact (isPaused_iff _).mpr (by omega)

@[simp] theorem overflow_pause (b : Buffer) : b.pause.overflow = b.overflow :=
  overflow_set_progress b (b.progress + flag)
@[simp] theorem cursor_pause (b : Buffer) : b.pause.cursor = b.cursor :=
  cursor_set_progress b (b.progress + flag)
@[simp] theorem restart_pause (b : Buffer) : b.pause.restart = b.restart :=
  restart_set_progress b (b.progress + flag)

@[simp] theorem stalled_pause (b : Buffer) : b.pause.stalled = b.stalled :=
  stalled_set_progress b (b.progress + flag)

theorem toNat_progress_add_flag {b : Buffer} (h : b.isPaused = true) :
    (b.progress + flag).toNat = b.sequence := by
  have hb := toNat_progress b
  have hs := sequence_lt b
  simp only [h, if_true] at hb
  simp only [flag, UInt64.toNat_add, UInt64.reduceToNat]
  omega

theorem toNat_appended_sub {b : Buffer} {start : UInt64} (hs : start.toNat ≤ b.sequence) :
    (b.appended - start).toNat = b.sequence - start.toNat :=
  UInt64.toNat_sub_of_le _ _ (UInt64.le_iff_toNat_le.mpr hs)

/-- Lifting a pause keeps the count, or lets it start over at what arrived during the pause. -/
theorem sequence_resume {b : Buffer} {start : UInt64} (h : b.isPaused = true)
    (hs : start.toNat ≤ b.sequence) :
    (b.resume start).1.sequence = if b.restart then b.sequence - start.toNat else b.sequence := by
  have hlt := sequence_lt b
  unfold resume
  split
  · have hd := toNat_appended_sub hs
    rw [sequence_eq]
    dsimp only
    omega
  · rw [sequence_eq]
    dsimp only
    rw [toNat_progress_add_flag h]
    omega

theorem isPaused_resume {b : Buffer} {start : UInt64} (h : b.isPaused = true)
    (hs : start.toNat ≤ b.sequence) : (b.resume start).1.isPaused = false := by
  have hlt := sequence_lt b
  rw [← Bool.not_eq_true, isPaused_iff]
  unfold resume
  split
  · have hd := toNat_appended_sub hs
    dsimp only
    omega
  · dsimp only
    rw [toNat_progress_add_flag h]
    omega

theorem toNat_resume_snd {b : Buffer} {start : UInt64} (h : b.isPaused = true)
    (hs : start.toNat ≤ b.sequence) : (b.resume start).2.toNat = b.sequence - start.toNat := by
  have hlt := sequence_lt b
  unfold resume
  split
  · exact toNat_appended_sub hs
  · have hq : ({ b with progress := b.progress + flag } : Buffer).sequence = b.sequence := by
      rw [sequence_eq]
      dsimp only
      rw [toNat_progress_add_flag h]
      omega
    rw [← hq] at hs ⊢
    exact toNat_appended_sub hs

@[simp] theorem overflow_resume (b : Buffer) (start : UInt64) :
    (b.resume start).1.overflow = b.overflow := by
  unfold resume
  split
  · rfl
  · exact overflow_set_progress b (b.progress + flag)
@[simp] theorem cursor_resume (b : Buffer) (start : UInt64) :
    (b.resume start).1.cursor = b.cursor := by
  unfold resume
  split
  · rfl
  · exact cursor_set_progress b (b.progress + flag)
@[simp] theorem restart_resume (b : Buffer) (start : UInt64) :
    (b.resume start).1.restart = false := by
  unfold resume
  split
  · rfl
  · rename_i h
    exact (restart_set_progress b (b.progress + flag)).trans (Bool.not_eq_true _ ▸ h)

@[simp] theorem stalled_resume (b : Buffer) (start : UInt64) :
    (b.resume start).1.stalled = b.stalled := by
  unfold resume
  split
  · rfl
  · exact stalled_set_progress b (b.progress + flag)

@[simp] theorem drain_snd (pending : UInt64) (b : Buffer) :
    (b.drain pending).2 = b.overflow.toList := by
  unfold drain stall
  split <;> rfl
@[simp] theorem sequence_drain (pending : UInt64) (b : Buffer) :
    (b.drain pending).1.sequence = b.sequence := by
  unfold drain stall
  split <;> rfl
@[simp] theorem isPaused_drain (pending : UInt64) (b : Buffer) :
    (b.drain pending).1.isPaused = b.isPaused := by
  unfold drain stall
  split <;> rfl
@[simp] theorem restart_drain (pending : UInt64) (b : Buffer) :
    (b.drain pending).1.restart = b.restart := by
  unfold drain stall
  split <;> rfl
@[simp] theorem overflow_drain (pending : UInt64) (b : Buffer) :
    (b.drain pending).1.overflow = #[] := rfl
@[simp] theorem cursor_drain (pending : UInt64) (b : Buffer) :
    (b.drain pending).1.cursor = 0 := rfl

end Metering.Buffer
