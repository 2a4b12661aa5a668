import Metering.Proofs.Quiescence.Ledger
import Mathlib.Algebra.Order.BigOperators.Group.Finset

/-! # Every observation exactly once

A look at the accumulator finds the values announced before the pause and since the pause that last
emptied it; what was announced during the pause is replayed by that pause, once. Nothing that is
under way can be stuck, and without new observations and pauses it comes to rest.
-/
namespace Metering.Quiescence
open Move

/-- The number of steps that an observation takes at most, the replay included. -/
def Stage.work : Stage → Nat
  | .idle => 0
  | .diverted _ => 2
  | .direct _ => 2
  | .landed => 1

def Phase.work : Phase → Nat
  | .free => 0
  | .waiting _ => 6
  | .caughtUp _ => 5
  | .looked _ => 4
  | .lifted _ => 3
  | .replaying rest => rest.length + 1

variable {W : Type}

def AtRest (s : State W) : Prop :=
  s.phase = .free ∧ ∀ w, s.stage w = .idle

variable [Fintype W] [DecidableEq W]

def State.remaining (s : State W) : Nat :=
  s.sumOver Stage.work + s.buffer.overflow.size + s.phase.work

/-- Every step but a beginning leaves less to do. -/
theorem Step.remaining_lt {s t : State W} {m : Move W} (hs : Step s m t) (hm : m.begins = false) :
    t.remaining < s.remaining := by
  cases hs with
  | announce v idle room => cases hm
  | pause at_phase => cases hm
  | @keep w v at_stage =>
    simp only [State.remaining, State.sumOver_moveTo, State.sumOver_eq Stage.work w s, at_stage, Stage.work,
      State.buffer_moveTo, State.phase_moveTo, Buffer.overflow_keep, Array.size_push]
    omega
  | @apply w v at_stage =>
    simp only [State.remaining, State.sumOver_moveTo, State.sumOver_eq Stage.work w s, at_stage, Stage.work,
      State.buffer_moveTo, State.phase_moveTo]
    omega
  | @count w at_stage =>
    simp only [State.remaining, State.sumOver_moveTo, State.sumOver_eq Stage.work w s, at_stage, Stage.work,
      State.buffer_moveTo, State.phase_moveTo]
    omega
  | catchUp at_phase counted =>
    simp only [State.remaining, State.sumOver_proceed, State.buffer_proceed, State.phase_proceed, at_phase,
      Phase.work]
    omega
  | look empties at_phase =>
    cases empties <;> simp only [State.remaining, at_phase, Phase.work] <;> exact Nat.lt_succ_self _
  | resume at_phase =>
    simp only [State.remaining, State.sumOver_proceed, State.buffer_proceed, State.phase_proceed, at_phase,
      Phase.work, Buffer.overflow_resume]
    omega
  | drain at_phase published =>
    simp only [State.remaining, State.sumOver_proceed, State.buffer_proceed, State.phase_proceed, at_phase,
      Phase.work, Buffer.overflow_drain, Buffer.drain_snd, Array.length_toList]
    simp only [List.size_toArray, List.length_nil]
    omega
  | replay at_phase =>
    simp only [State.remaining, at_phase, Phase.work, List.length_cons]
    exact Nat.lt_succ_self _
  | release at_phase =>
    simp only [State.remaining, State.sumOver_proceed, State.buffer_proceed, State.phase_proceed, at_phase,
      Phase.work]
    omega

omit [DecidableEq W] in
/-- A pause waits for the writers that announced before it and for no others. -/
theorem Ledger.caughtUp_iff {h : List (Move W)} {s : State W} (hl : Ledger h s) {start : UInt64}
    (at_phase : s.phase = .waiting start) :
    s.count = start.toNat ↔ ∀ w, (s.stage w).uncounted = 0 := by
  have hf := hl.fits
  simp only [Fits, at_phase] at hf
  have hc := hf.2.2.1
  constructor
  · intro he
    exact State.stage_eq_zero (by omega)
  · intro hw
    have hu : s.sumOver Stage.uncounted = 0 := Finset.sum_eq_zero fun w _ => hw w
    omega

omit [DecidableEq W] in
/-- A lifted pause waits for the writers that were diverted and for no others. -/
theorem Ledger.published_iff {h : List (Move W)} {s : State W} (hl : Ledger h s) {pending : UInt64}
    (at_phase : s.phase = .lifted pending) :
    pending.toNat ≤ s.buffer.cursor ↔ ∀ w, (s.stage w).unkept = 0 := by
  constructor
  · intro he w
    have hk := hl.sumOver_unkept_eq_zero at_phase he
    have hle : (s.stage w).unkept ≤ s.sumOver Stage.unkept :=
      Finset.single_le_sum (fun x _ => Multiset.zero_le (s.stage x).unkept) (Finset.mem_univ w)
    exact Multiset.le_zero.mp (hk ▸ hle)
  · intro hw
    have hu : s.sumOver Stage.unkept = 0 := Finset.sum_eq_zero fun w _ => hw w
    have hf := hl.fits
    simp only [Fits, at_phase] at hf
    have hc := hf.2
    rw [State.owed, hu, at_phase, zero_add, Multiset.coe_card, List.length_append, Array.length_toList,
      ← hl.published] at hc
    exact hc.le

theorem Ledger.progress {h : List (Move W)} {s : State W} (hl : Ledger h s) (hn : ¬ AtRest s) :
    ∃ m t, Step s m t ∧ m.begins = false := by
  by_cases hi : ∀ w, s.stage w = .idle
  · have hu (w : W) : (s.stage w).uncounted = 0 := by rw [hi w]; rfl
    have hk (w : W) : (s.stage w).unkept = 0 := by rw [hi w]; rfl
    cases hp : s.phase with
    | free => exact absurd ⟨hp, hi⟩ hn
    | waiting start => exact ⟨_, _, .catchUp hp ((hl.caughtUp_iff hp).mpr hu), rfl⟩
    | caughtUp start => exact ⟨_, _, .look false hp, rfl⟩
    | looked start => exact ⟨_, _, .resume hp, rfl⟩
    | lifted pending => exact ⟨_, _, .drain hp ((hl.published_iff hp).mpr hk), rfl⟩
    | replaying rest =>
      cases rest with
      | nil => exact ⟨_, _, .release hp, rfl⟩
      | cons v rest => exact ⟨_, _, .replay hp, rfl⟩
  · obtain ⟨w,hw⟩ := not_forall.mp hi
    cases hg : s.stage w with
    | idle => exact absurd hg hw
    | diverted v => exact ⟨_, _, .keep hg, rfl⟩
    | direct v => exact ⟨_, _, .apply hg, rfl⟩
    | landed => exact ⟨_, _, .count hg, rfl⟩

/-- For any number of writers and any order of the steps: a look finds every value announced before
its pause and since the pause that last emptied the accumulator, once, and no other; a pause replays
what was diverted since it began and nothing else, and between pauses all that was ever diverted is
replayed; at rest every value since the last emptying is applied and counted. The two waits end with
the writers they wait for, whatever is under way has a step to take, and every such step leaves less
to do. -/
theorem Run.exactly_once {h : List (Move W)} {s : State W} (hr : Run h s) :
    (∀ empties t, Step s (.look empties) t →
      s.contents = announced (sinceEmptied (beforePause h)) ∧ s.count = s.contents.card) ∧
    replayed (sincePause h) ≤ diverted (sincePause h) ∧
    (∀ t, Step s .release t → replayed (sincePause h) = diverted (sincePause h)) ∧
    (s.phase = .free → replayed h = diverted h) ∧
    (AtRest s → s.contents = announced (sinceEmptied h) ∧ s.count = s.contents.card ∧
      s.buffer.appended.toNat = s.count) ∧
    (∀ start, s.phase = .waiting start →
      (s.count = start.toNat ↔ ∀ w, (s.stage w).uncounted = 0)) ∧
    (∀ pending, s.phase = .lifted pending →
      (pending.toNat ≤ s.buffer.cursor ↔ ∀ w, (s.stage w).unkept = 0)) ∧
    (¬ AtRest s → ∃ m t, Step s m t ∧ m.begins = false) ∧
    ∀ m t, Step s m t → m.begins = false → t.remaining < s.remaining := by
  have hl := hr.ledger
  have hb := hl.balance
  have hc := hl.counted
  have hd := hl.debt
  have hd' := hl.debt_sincePause
  have hf := hl.fits
  refine ⟨?_, ?_, ?_, ?_, ?_, fun _ => hl.caughtUp_iff, fun _ => hl.published_iff, hl.progress,
    fun _ _ => Step.remaining_lt⟩
  · intro empties t hs
    cases hs with
    | look _ at_phase =>
      -- When a look is taken nobody is on the way any more who announced before the pause.
      simp only [Fits, at_phase] at hf
      obtain ⟨_,⟨_,_,hn,_⟩,hu⟩ := hf
      rw [State.sumOver_unapplied_eq_zero hu, add_zero] at hn hc
      exact ⟨hn, by rw [hc, hu]; rfl⟩
  · exact Multiset.le_iff_exists_add.mpr ⟨s.owed, hd'.symm⟩
  · intro t hs
    cases hs with
    | release at_phase =>
      simp only [Fits, at_phase] at hf
      rw [hf.2, Multiset.coe_nil, add_zero] at hd'
      exact hd'
  · intro at_phase
    simp only [Fits, at_phase] at hf
    rw [hf.2, add_zero] at hd
    exact hd
  · rintro ⟨at_phase,hi⟩
    simp only [Fits, at_phase] at hf
    obtain ⟨⟨_,_,hs⟩,ho⟩ := hf
    have hu : s.sumOver Stage.uncounted = 0 :=
      Finset.sum_eq_zero fun w _ => by rw [hi w]; rfl
    rw [State.sumOver_unapplied_eq_zero hu, add_zero] at hb hc
    rw [ho, add_zero] at hb
    rw [ho, Multiset.card_zero] at hs
    refine ⟨hb, by omega, ?_⟩
    change s.buffer.sequence = s.count
    omega

/-- One writer's value is on its way when the pause begins, the other's arrives during it: the look
that empties the accumulator finds the first alone. -/
theorem exactly_once_two_writers : ∃ (s t : State (Fin 2)),
    Run [.catchUp, .count 0, .apply 0, .announce 1 2 true, .pause, .announce 0 1 false] s ∧
      Step s (.look true) t ∧ s.contents = {1} := by
  have h1 : Run [.announce (0 : Fin 2) 1 false] _ := .move .start (.announce 1 rfl (by decide))
  have h2 := h1.move (.pause rfl)
  have h3 : Run [.announce (1 : Fin 2) 2 true, .pause, .announce 0 1 false] _ :=
    h2.move (.announce 2 rfl (by decide))
  have h4 := h3.move (.apply (w := 0) (v := 1) rfl)
  have h5 := h4.move (.count (w := 0) rfl)
  have h6 := h5.move (.catchUp rfl rfl)
  exact ⟨_, _, h6, .look true rfl, (h6.exactly_once.1 true _ (.look true rfl)).1⟩

end Metering.Quiescence
