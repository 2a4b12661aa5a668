import Metering.Proofs.Buffer.Count
import Metering.Proofs.Quiescence.Protocol
import Mathlib.Algebra.BigOperators.Group.Finset.Piecewise
import Mathlib.Tactic.Abel

/-! # The ledger of a run

What every step of the writers and of the pause preserves: each announced value is in the accumulator
or in exactly one of the places on the way there, and the count, the sequence number and the start of
the pause agree on how many are where.
-/
namespace Metering.Quiescence
open Move

namespace Stage

def unapplied : Stage → Multiset Float
  | .direct v => {v}
  | _ => 0

def unkept : Stage → Multiset Float
  | .diverted v => {v}
  | _ => 0

/-- One for an observation that bypasses the buffer and is not counted yet. -/
def uncounted : Stage → Nat
  | .direct _ => 1
  | .landed => 1
  | _ => 0

theorem unapplied_of_uncounted {g : Stage} (h : g.uncounted = 0) : g.unapplied = 0 := by
  cases g <;> simp_all [uncounted, unapplied]

end Stage

/-- What the pause took from the buffer and has yet to replay. -/
def Phase.rest : Phase → List Float
  | .replaying rest => rest
  | _ => []

namespace State
variable {W : Type} [Fintype W] [DecidableEq W]

def sumOver {M : Type} [AddCommMonoid M] (f : Stage → M) (s : State W) : M :=
  ∑ w, f (s.stage w)

/-- The diverted values that are not replayed yet. -/
def owed (s : State W) : Multiset Float :=
  s.sumOver Stage.unkept + ↑(s.buffer.overflow.toList ++ s.phase.rest)

/-- A sum over the writers without the term of one of them. -/
def others {M : Type} [AddCommMonoid M] (f : Stage → M) (w : W) (stage : W → Stage) : M :=
  ∑ x ∈ Finset.univ \ {w}, f (stage x)

theorem sumOver_eq {M : Type} [AddCommMonoid M] (f : Stage → M) (w : W) (s : State W) :
    s.sumOver f = f (s.stage w) + others f w s.stage := by
  rw [sumOver, others, ← Finset.sum_sdiff (Finset.subset_univ {w}), Finset.sum_singleton, add_comm]

theorem sumOver_moveTo {M : Type} [AddCommMonoid M] (f : Stage → M) (w : W) (g : Stage) (s : State W) :
    (s.moveTo w g).sumOver f = f g + others f w s.stage := by
  have he : (fun x => f ((s.moveTo w g).stage x)) =
      Function.update (fun x => f (s.stage x)) w (f g) := by
    funext x
    rw [moveTo]
    by_cases hx : x = w
    · subst hx
      simp
    · simp [hx]
  rw [sumOver, he, Finset.sum_update_of_mem (Finset.mem_univ w), others]

omit [DecidableEq W] in
theorem stage_eq_zero {f : Stage → Nat} {s : State W} (h : s.sumOver f = 0) (w : W) :
    f (s.stage w) = 0 :=
  Finset.sum_eq_zero_iff.mp h w (Finset.mem_univ w)

omit [DecidableEq W] in
theorem sumOver_unapplied_eq_zero {s : State W} (h : s.sumOver Stage.uncounted = 0) :
    s.sumOver Stage.unapplied = 0 :=
  Finset.sum_eq_zero fun w _ => Stage.unapplied_of_uncounted (stage_eq_zero h w)

end State

variable {W : Type} [Fintype W] [DecidableEq W]

/-- Outside a pause the sequence number counts what is applied and what is on the way. -/
def Open (s : State W) : Prop :=
  s.buffer.isPaused = false ∧ s.buffer.restart = false ∧
    s.buffer.sequence = s.count + s.sumOver Stage.uncounted + s.owed.card

/-- During a pause the sequence number has grown by what was diverted. -/
def Closed (start : UInt64) (s : State W) : Prop :=
  s.buffer.isPaused = true ∧ s.buffer.sequence = start.toNat + s.owed.card

/-- Until the accumulator is looked at it takes in the values announced before the pause, and owes
those announced since. -/
def Settling (start : UInt64) (h : List (Move W)) (s : State W) : Prop :=
  s.buffer.restart = false ∧ s.count + s.sumOver Stage.uncounted = start.toNat ∧
    s.contents + s.sumOver Stage.unapplied = announced (sinceEmptied (beforePause h)) ∧
    s.owed = announced (sincePause h)

def Fits (h : List (Move W)) (s : State W) : Prop :=
  match s.phase with
  | .free => Open s ∧ s.owed = 0
  | .waiting start => Closed start s ∧ Settling start h s
  | .caughtUp start => Closed start s ∧ Settling start h s ∧ s.sumOver Stage.uncounted = 0
  | .looked start =>
    Closed start s ∧ s.sumOver Stage.uncounted = 0 ∧
      s.count = if s.buffer.restart then 0 else start.toNat
  | .lifted pending => Open s ∧ pending.toNat = s.owed.card
  | .replaying rest => Open s ∧ s.owed = ↑rest

/-- The state after the moves `h`, the latest first. -/
structure Ledger (h : List (Move W)) (s : State W) : Prop where
  /-- Every value announced since the accumulator was last emptied is in one place. -/
  balance : s.contents + s.sumOver Stage.unapplied + s.owed = announced (sinceEmptied h)
  /-- An applied value is counted or its writer is about to count it. -/
  counted : (s.contents + s.sumOver Stage.unapplied).card = s.count + s.sumOver Stage.uncounted
  /-- What is owed is what was diverted and not replayed. -/
  debt : replayed h + s.owed = diverted h
  debt_sincePause : replayed (sincePause h) + s.owed = diverted (sincePause h)
  published : s.buffer.cursor = s.buffer.overflow.size
  fits : Fits h s

omit [DecidableEq W] in
theorem Ledger.start : Ledger ([] : List (Move W)) {} where
  balance := by simp [State.sumOver, State.owed, Stage.unapplied, Stage.unkept, Phase.rest, sinceEmptied,
    announced]
  counted := by simp [State.sumOver, Stage.unapplied, Stage.uncounted]
  debt := by simp [State.sumOver, State.owed, Stage.unkept, Phase.rest, replayed, diverted]
  debt_sincePause := by
    simp [State.sumOver, State.owed, Stage.unkept, Phase.rest, sincePause, replayed, diverted]
  published := rfl
  fits := by
    refine ⟨⟨rfl, rfl, ?_⟩, ?_⟩ <;>
      simp [State.sumOver, State.owed, Stage.uncounted, Stage.unkept, Phase.rest, Buffer.sequence,
        Buffer.appended]

/-- What a writer's step does to the numbers that `Fits` compares. -/
structure Advance (s t : State W) : Prop where
  phase : t.phase = s.phase
  isPaused : t.buffer.isPaused = s.buffer.isPaused
  restart : t.buffer.restart = s.buffer.restart
  sequence : t.buffer.sequence + (s.count + s.sumOver Stage.uncounted + s.owed.card) =
    s.buffer.sequence + (t.count + t.sumOver Stage.uncounted + t.owed.card)
  owed : s.buffer.isPaused = false → t.owed = s.owed
  count : s.buffer.isPaused = true →
    t.count + t.sumOver Stage.uncounted = s.count + s.sumOver Stage.uncounted
  quiet : s.buffer.isPaused = true → s.sumOver Stage.uncounted = 0 → t.sumOver Stage.uncounted = 0
  contents : s.buffer.isPaused = true →
    t.contents + t.sumOver Stage.unapplied = s.contents + s.sumOver Stage.unapplied

omit [DecidableEq W] in
theorem Fits.advance {h h' : List (Move W)} {s t : State W} (hf : Fits h s) (ha : Advance s t)
    (hh : beforePause h' = beforePause h)
    (hs : s.buffer.isPaused = true → s.owed = announced (sincePause h) →
      t.owed = announced (sincePause h')) : Fits h' t := by
  obtain ⟨hphase,hpaused,hrestart,hseq,howed,hcount,hquiet,hcontents⟩ := ha
  -- While the buffer runs a writer's step owes nothing new; under a pause it adds nothing to the count.
  cases hp : s.phase with
  | free =>
    simp only [Fits, hphase, hp] at hf ⊢
    obtain ⟨⟨h1,h2,h3⟩,h4⟩ := hf
    have ho := howed h1
    rw [ho] at hseq
    exact ⟨⟨hpaused.trans h1, hrestart.trans h2, by rw [ho]; omega⟩, ho.trans h4⟩
  | waiting start =>
    simp only [Fits, hphase, hp] at hf ⊢
    obtain ⟨⟨h1,h2⟩,h3,h4,h5,h6⟩ := hf
    have hc := hcount h1
    exact ⟨⟨hpaused.trans h1, by omega⟩, hrestart.trans h3, hc.trans h4, by
      rw [hcontents h1, h5, hh], hs h1 h6⟩
  | caughtUp start =>
    simp only [Fits, hphase, hp] at hf ⊢
    obtain ⟨⟨h1,h2⟩,⟨h3,h4,h5,h6⟩,h7⟩ := hf
    have hc := hcount h1
    exact ⟨⟨hpaused.trans h1, by omega⟩, ⟨hrestart.trans h3, hc.trans h4, by
      rw [hcontents h1, h5, hh], hs h1 h6⟩, hquiet h1 h7⟩
  | looked start =>
    simp only [Fits, hphase, hp] at hf ⊢
    obtain ⟨⟨h1,h2⟩,h3,h4⟩ := hf
    have hc := hcount h1
    have hq := hquiet h1 h3
    refine ⟨⟨hpaused.trans h1, by omega⟩, hq, ?_⟩
    rw [hrestart, ← h4]
    omega
  | lifted pending =>
    simp only [Fits, hphase, hp] at hf ⊢
    obtain ⟨⟨h1,h2,h3⟩,h4⟩ := hf
    have ho := howed h1
    rw [ho] at hseq
    exact ⟨⟨hpaused.trans h1, hrestart.trans h2, by rw [ho]; omega⟩, by rw [ho, h4]⟩
  | replaying rest =>
    simp only [Fits, hphase, hp] at hf ⊢
    obtain ⟨⟨h1,h2,h3⟩,h4⟩ := hf
    have ho := howed h1
    rw [ho] at hseq
    exact ⟨⟨hpaused.trans h1, hrestart.trans h2, by rw [ho]; omega⟩, ho.trans h4⟩

theorem Ledger.announce_direct {h : List (Move W)} {s : State W} (hl : Ledger h s) {w : W} (v : Float)
    (idle : s.stage w = .idle) (room : s.buffer.sequence + 1 < 2 ^ 63)
    (hp : s.buffer.isPaused = false) :
    Ledger (.announce w v false :: h)
      ({ s with buffer := s.buffer.announce.1 }.moveTo w (.direct v)) := by
  have hseq := Buffer.sequence_announce room
  have hpaused := Buffer.isPaused_announce room
  have hua := State.sumOver_eq Stage.unapplied w s
  have huc := State.sumOver_eq Stage.uncounted w s
  have hb := hl.balance
  have hc := hl.counted
  rw [idle] at hua huc
  have howed : ({ s with buffer := s.buffer.announce.1 }.moveTo w (.direct v)).owed = s.owed := by
    rw [State.owed, State.owed, State.sumOver_moveTo, State.sumOver_eq _ w s, idle]
    rfl
  constructor
  · rw [howed, State.sumOver_moveTo, State.contents_moveTo, sinceEmptied, announced, ← hb, hua,
      ← Multiset.singleton_add]
    · simp only [Stage.unapplied]
      abel
    · simp
  · rw [hua, huc] at hc
    simp only [State.sumOver_moveTo, State.contents_moveTo, State.count_moveTo, Multiset.card_add,
      Stage.unapplied, Stage.uncounted, Multiset.card_singleton, Multiset.card_zero] at hc ⊢
    omega
  · rw [howed]
    exact hl.debt
  · rw [howed]
    exact hl.debt_sincePause
  · exact hl.published
  · have ha : Advance s ({ s with buffer := s.buffer.announce.1 }.moveTo w (.direct v)) := {
      phase := rfl
      isPaused := hpaused
      restart := rfl
      sequence := by
        rw [howed, huc, State.sumOver_moveTo, State.buffer_moveTo, hseq, State.count_moveTo]
        simp only [Stage.uncounted]
        omega
      owed := fun _ => howed
      count := fun hq => absurd (hp.symm.trans hq) Bool.false_ne_true
      quiet := fun hq => absurd (hp.symm.trans hq) Bool.false_ne_true
      contents := fun hq => absurd (hp.symm.trans hq) Bool.false_ne_true }
    exact hl.fits.advance ha rfl fun hq => absurd (hp.symm.trans hq) Bool.false_ne_true

theorem Ledger.announce_diverted {h : List (Move W)} {s : State W} (hl : Ledger h s) {w : W} (v : Float)
    (idle : s.stage w = .idle) (room : s.buffer.sequence + 1 < 2 ^ 63)
    (hp : s.buffer.isPaused = true) :
    Ledger (.announce w v true :: h)
      ({ s with buffer := s.buffer.announce.1 }.moveTo w (.diverted v)) := by
  have hseq := Buffer.sequence_announce room
  have hpaused := Buffer.isPaused_announce room
  -- The next state gets a name, so that its parts are rewritten one at a time.
  generalize ht : { s with buffer := s.buffer.announce.1 }.moveTo w (.diverted v) = t
  have hua : t.sumOver Stage.unapplied = s.sumOver Stage.unapplied := by
    rw [← ht, State.sumOver_moveTo, State.sumOver_eq _ w s, idle]
    rfl
  have huc : t.sumOver Stage.uncounted = s.sumOver Stage.uncounted := by
    rw [← ht, State.sumOver_moveTo, State.sumOver_eq _ w s, idle]
    rfl
  have howed : t.owed = {v} + s.owed := by
    rw [← ht, State.owed, State.owed, State.sumOver_moveTo, State.sumOver_eq _ w s, idle, add_assoc]
    simp only [Stage.unkept, zero_add]
    rfl
  have hcontents : t.contents = s.contents := by rw [← ht]; rfl
  have hcount : t.count = s.count := by rw [← ht]; rfl
  have hbuffer : t.buffer = s.buffer.announce.1 := by rw [← ht]; rfl
  constructor
  · rw [hcontents, hua, howed, sinceEmptied, announced, ← hl.balance, ← Multiset.singleton_add]
    · abel
    · simp
  · rw [hcontents, hcount, hua, huc]
    exact hl.counted
  · rw [howed, diverted, ← hl.debt, replayed, ← Multiset.singleton_add]
    · abel
    · simp
  · have hd := hl.debt_sincePause
    change replayed (sincePause h) + t.owed = v ::ₘ diverted (sincePause h)
    rw [howed, ← hd, ← Multiset.singleton_add]
    abel
  · rw [hbuffer]
    exact hl.published
  · have ha : Advance s t := {
      phase := by rw [← ht]; rfl
      isPaused := by rw [hbuffer, hpaused]
      restart := by rw [hbuffer]; rfl
      sequence := by
        rw [hbuffer, hseq, hcount, huc, howed, Multiset.card_add, Multiset.card_singleton]
        omega
      owed := fun hq => by rw [hp] at hq; cases hq
      count := fun _ => by rw [hcount, huc]
      quiet := fun _ hq => huc.trans hq
      contents := fun _ => by rw [hcontents, hua] }
    refine hl.fits.advance ha rfl fun _ hq => ?_
    rw [howed, hq, Multiset.singleton_add]
    rfl

/-- What a writer that moves on within its observation leaves as it is. -/
structure Carry (s t : State W) : Prop where
  phase : t.phase = s.phase
  isPaused : t.buffer.isPaused = s.buffer.isPaused
  restart : t.buffer.restart = s.buffer.restart
  sequence : t.buffer.sequence = s.buffer.sequence
  published : t.buffer.cursor = t.buffer.overflow.size
  owed : t.owed = s.owed
  contents : t.contents + t.sumOver Stage.unapplied = s.contents + s.sumOver Stage.unapplied
  count : t.count + t.sumOver Stage.uncounted = s.count + s.sumOver Stage.uncounted
  uncounted : t.sumOver Stage.uncounted ≤ s.sumOver Stage.uncounted

omit [DecidableEq W] in
theorem Carry.advance {s t : State W} (hc : Carry s t) : Advance s t where
  phase := hc.phase
  isPaused := hc.isPaused
  restart := hc.restart
  sequence := by rw [hc.sequence, hc.count, hc.owed]
  owed := fun _ => hc.owed
  count := fun _ => hc.count
  quiet := fun _ hq => Nat.le_zero.mp (hq ▸ hc.uncounted)
  contents := fun _ => hc.contents

omit [DecidableEq W] in
theorem Ledger.carry {h : List (Move W)} {s t : State W} (hl : Ledger h s) (hc : Carry s t) (m : Move W)
    (hm : announced (sinceEmptied (m :: h)) = announced (sinceEmptied h) ∧
      replayed (m :: h) = replayed h ∧ diverted (m :: h) = diverted h ∧
      replayed (sincePause (m :: h)) = replayed (sincePause h) ∧
      diverted (sincePause (m :: h)) = diverted (sincePause h) ∧
      announced (sincePause (m :: h)) = announced (sincePause h) ∧
      beforePause (m :: h) = beforePause h) : Ledger (m :: h) t := by
  obtain ⟨h1,h2,h3,h4,h5,h6,h7⟩ := hm
  constructor
  · rw [hc.contents, hc.owed, h1]
    exact hl.balance
  · rw [hc.contents, hc.count]
    exact hl.counted
  · rw [hc.owed, h2, h3]
    exact hl.debt
  · rw [hc.owed, h4, h5]
    exact hl.debt_sincePause
  · exact hc.published
  · refine hl.fits.advance hc.advance h7 fun _ hq => ?_
    rw [hc.owed, hq, h6]

theorem Ledger.keep {h : List (Move W)} {s : State W} (hl : Ledger h s) {w : W} {v : Float}
    (at_stage : s.stage w = .diverted v) :
    Ledger (.keep w :: h) ({ s with buffer := s.buffer.keep v }.moveTo w .idle) := by
  refine hl.carry ?_ (.keep w) ⟨rfl, rfl, rfl, rfl, rfl, rfl, rfl⟩
  exact {
    phase := rfl
    isPaused := Buffer.isPaused_keep v s.buffer
    restart := Buffer.restart_keep v s.buffer
    sequence := Buffer.sequence_keep v s.buffer
    published := by simp
    owed := by
      rw [State.owed, State.owed, State.sumOver_moveTo, State.sumOver_eq _ w s, at_stage,
        State.buffer_moveTo, Buffer.overflow_keep, Array.toList_push]
      simp only [← Multiset.coe_add, Multiset.coe_singleton, Stage.unkept, State.phase_moveTo]
      abel
    contents := by
      rw [State.sumOver_moveTo, State.sumOver_eq _ w s, at_stage]
      rfl
    count := by
      rw [State.sumOver_moveTo, State.sumOver_eq _ w s, at_stage]
      rfl
    uncounted := by
      rw [State.sumOver_moveTo, State.sumOver_eq _ w s, at_stage]
      rfl }

theorem Ledger.apply {h : List (Move W)} {s : State W} (hl : Ledger h s) {w : W} {v : Float}
    (at_stage : s.stage w = .direct v) :
    Ledger (.apply w :: h) ({ s with contents := v ::ₘ s.contents }.moveTo w .landed) := by
  refine hl.carry ?_ (.apply w) ⟨rfl, rfl, rfl, rfl, rfl, rfl, rfl⟩
  exact {
    phase := rfl
    isPaused := rfl
    restart := rfl
    sequence := rfl
    published := hl.published
    owed := by
      rw [State.owed, State.owed, State.sumOver_moveTo, State.sumOver_eq _ w s, at_stage]
      rfl
    contents := by
      rw [State.sumOver_moveTo, State.sumOver_eq _ w s, at_stage, State.contents_moveTo,
        ← Multiset.singleton_add]
      simp only [Stage.unapplied]
      abel
    count := by
      rw [State.sumOver_moveTo, State.sumOver_eq _ w s, at_stage]
      rfl
    uncounted := by
      rw [State.sumOver_moveTo, State.sumOver_eq _ w s, at_stage]
      rfl }

theorem Ledger.count {h : List (Move W)} {s : State W} (hl : Ledger h s) {w : W}
    (at_stage : s.stage w = .landed) :
    Ledger (.count w :: h) ({ s with count := s.count + 1 }.moveTo w .idle) := by
  refine hl.carry ?_ (.count w) ⟨rfl, rfl, rfl, rfl, rfl, rfl, rfl⟩
  exact {
    phase := rfl
    isPaused := rfl
    restart := rfl
    sequence := rfl
    published := hl.published
    owed := by
      rw [State.owed, State.owed, State.sumOver_moveTo, State.sumOver_eq _ w s, at_stage]
      rfl
    contents := by
      rw [State.sumOver_moveTo, State.sumOver_eq _ w s, at_stage]
      rfl
    count := by
      rw [State.sumOver_moveTo, State.sumOver_eq _ w s, at_stage, State.count_moveTo]
      simp only [Stage.uncounted]
      omega
    uncounted := by
      rw [State.sumOver_moveTo, State.sumOver_eq _ w s, at_stage]
      simp only [Stage.uncounted]
      omega }

omit [DecidableEq W] in
theorem State.sumOver_proceed {M : Type} [AddCommMonoid M] (f : Stage → M) (b : Buffer) (p : Phase)
    (s : State W) : (s.proceed b p).sumOver f = s.sumOver f := rfl

omit [DecidableEq W] in
theorem State.owed_proceed (b : Buffer) (p : Phase) (s : State W) :
    (s.proceed b p).owed = s.sumOver Stage.unkept + ↑(b.overflow.toList ++ p.rest) := rfl

omit [DecidableEq W] in
/-- A step of the pause that leaves the accumulator and the debt as they are. -/
theorem Ledger.proceed {h : List (Move W)} {s : State W} (hl : Ledger h s) (m : Move W) {b : Buffer}
    {p : Phase} (howed : (s.proceed b p).owed = s.owed) (hcursor : b.cursor = b.overflow.size)
    (hm : announced (sinceEmptied (m :: h)) = announced (sinceEmptied h) ∧
      replayed (m :: h) = replayed h ∧ diverted (m :: h) = diverted h ∧
      replayed (sincePause (m :: h)) + s.owed = diverted (sincePause (m :: h)))
    (hf : Fits (m :: h) (s.proceed b p)) : Ledger (m :: h) (s.proceed b p) := by
  obtain ⟨h1,h2,h3,h4⟩ := hm
  refine ⟨?_, ?_, ?_, ?_, hcursor, hf⟩
  · rw [State.contents_proceed, State.sumOver_proceed, howed, h1]
    exact hl.balance
  · rw [State.contents_proceed, State.sumOver_proceed, State.sumOver_proceed, State.count_proceed]
    exact hl.counted
  · rw [howed, h2, h3]
    exact hl.debt
  · rw [howed]
    exact h4

omit [DecidableEq W] in
theorem Ledger.pause {h : List (Move W)} {s : State W} (hl : Ledger h s) (at_phase : s.phase = .free) :
    Ledger (.pause :: h) (s.proceed s.buffer.pause (.waiting s.buffer.appended)) := by
  have hf := hl.fits
  simp only [Fits, at_phase] at hf
  obtain ⟨⟨hp,hr,hs⟩,ho⟩ := hf
  have howed : (s.proceed s.buffer.pause (.waiting s.buffer.appended)).owed = s.owed := by
    rw [State.owed_proceed, State.owed, at_phase, Buffer.overflow_pause]
    rfl
  have hb := hl.balance
  have hstart : s.buffer.appended.toNat = s.buffer.sequence := rfl
  apply hl.proceed .pause howed
  · rw [Buffer.cursor_pause, Buffer.overflow_pause]
    exact hl.published
  · rw [ho]
    exact ⟨rfl, rfl, rfl, rfl⟩
  · rw [ho, add_zero] at hb
    rw [ho, Multiset.card_zero] at hs
    refine ⟨⟨Buffer.isPaused_pause hp, ?_⟩, (Buffer.restart_pause _).trans hr, ?_, ?_, howed.trans ho⟩
    · rw [howed, ho, hstart]
      exact Buffer.sequence_pause hp
    · rw [State.count_proceed, State.sumOver_proceed, hstart]
      omega
    · rw [State.contents_proceed, State.sumOver_proceed]
      exact hb

omit [DecidableEq W] in
theorem Ledger.catchUp {h : List (Move W)} {s : State W} (hl : Ledger h s) {start : UInt64}
    (at_phase : s.phase = .waiting start) (counted : s.count = start.toNat) :
    Ledger (.catchUp :: h) (s.proceed s.buffer (.caughtUp start)) := by
  have hf := hl.fits
  simp only [Fits, at_phase] at hf
  obtain ⟨⟨hp,hq⟩,hr,hs,hc,hd⟩ := hf
  have howed : (s.proceed s.buffer (.caughtUp start)).owed = s.owed := by
    rw [State.owed_proceed, State.owed, at_phase]
    rfl
  apply hl.proceed .catchUp howed hl.published ⟨rfl, rfl, rfl, hl.debt_sincePause⟩
  refine ⟨⟨hp, howed ▸ hq⟩, ⟨hr, hs, hc, howed.trans hd⟩, ?_⟩
  rw [State.sumOver_proceed]
  omega

omit [DecidableEq W] in
/-- Looking at the accumulator leaves what the pause owes for the next look. -/
theorem Ledger.look {h : List (Move W)} {s : State W} (hl : Ledger h s) {start : UInt64}
    (empties : Bool) (at_phase : s.phase = .caughtUp start) :
    Ledger (.look empties :: h) (s.look empties start) := by
  have hf := hl.fits
  simp only [Fits, at_phase] at hf
  obtain ⟨⟨hp,hq⟩,⟨hr,hs,hc,hd⟩,hu⟩ := hf
  have hun := State.sumOver_unapplied_eq_zero hu
  have howed : (s.look empties start).owed = s.owed := by
    cases empties <;> rw [State.owed, State.owed, at_phase] <;> rfl
  cases empties with
  | false =>
    apply hl.proceed (.look false) howed hl.published ⟨rfl, rfl, rfl, hl.debt_sincePause⟩
    refine ⟨⟨hp, howed ▸ hq⟩, hu, ?_⟩
    rw [State.buffer_proceed, hr, State.count_proceed]
    simp only [Bool.false_eq_true, if_false]
    omega
  | true =>
    have hsum : (s.look true start).sumOver Stage.unapplied = 0 := hun
    refine ⟨?_, ?_, ?_, ?_, hl.published, ⟨hp, howed ▸ hq⟩, hu, rfl⟩
    · rw [hsum, howed, hd]
      change 0 + 0 + announced (sincePause h) = announced (sincePause h)
      rw [add_zero, zero_add]
    · rw [hsum]
      exact hu.symm.trans (zero_add _).symm
    · rw [howed]
      exact hl.debt
    · rw [howed]
      exact hl.debt_sincePause

omit [DecidableEq W] in
theorem Ledger.resume {h : List (Move W)} {s : State W} (hl : Ledger h s) {start : UInt64}
    (at_phase : s.phase = .looked start) :
    Ledger (.resume :: h)
      (s.proceed (s.buffer.resume start).1 (.lifted (s.buffer.resume start).2)) := by
  have hf := hl.fits
  simp only [Fits, at_phase] at hf
  obtain ⟨⟨hp,hq⟩,hu,hc⟩ := hf
  have hle : start.toNat ≤ s.buffer.sequence := by omega
  have howed : (s.proceed (s.buffer.resume start).1 (.lifted (s.buffer.resume start).2)).owed =
      s.owed := by
    rw [State.owed_proceed, State.owed, at_phase, Buffer.overflow_resume]
    rfl
  apply hl.proceed .resume howed _ ⟨rfl, rfl, rfl, hl.debt_sincePause⟩
  · refine ⟨⟨Buffer.isPaused_resume hp hle, Buffer.restart_resume _ _, ?_⟩, ?_⟩
    · rw [howed, State.sumOver_proceed, hu, State.count_proceed, State.buffer_proceed,
        Buffer.sequence_resume hp hle, hc]
      split <;> omega
    · rw [howed, Buffer.toNat_resume_snd hp hle]
      omega
  · rw [Buffer.cursor_resume, Buffer.overflow_resume]
    exact hl.published

omit [DecidableEq W] in
/-- Once the published length reaches the number of diverted values no writer has one left. -/
theorem Ledger.sumOver_unkept_eq_zero {h : List (Move W)} {s : State W} (hl : Ledger h s) {pending : UInt64}
    (at_phase : s.phase = .lifted pending) (published : pending.toNat ≤ s.buffer.cursor) :
    s.sumOver Stage.unkept = 0 := by
  have hf := hl.fits
  simp only [Fits, at_phase] at hf
  have hc := hf.2
  rw [State.owed, at_phase, Multiset.card_add, Multiset.coe_card, List.length_append,
    Array.length_toList, ← hl.published] at hc
  exact Multiset.card_eq_zero.mp (by omega)

omit [DecidableEq W] in
theorem Ledger.drain {h : List (Move W)} {s : State W} (hl : Ledger h s) {pending : UInt64}
    (at_phase : s.phase = .lifted pending) (published : pending.toNat ≤ s.buffer.cursor) :
    Ledger (.drain :: h)
      (s.proceed (s.buffer.drain pending).1 (.replaying (s.buffer.drain pending).2)) := by
  have hf := hl.fits
  simp only [Fits, at_phase] at hf
  obtain ⟨⟨hp,hr,hs⟩,hc⟩ := hf
  have hk := hl.sumOver_unkept_eq_zero at_phase published
  have hrest : s.owed = ↑s.buffer.overflow.toList := by
    rw [State.owed, hk, at_phase, zero_add]
    exact congrArg _ (List.append_nil _)
  have howed : (s.proceed (s.buffer.drain pending).1 (.replaying (s.buffer.drain pending).2)).owed =
      s.owed := by
    rw [State.owed_proceed, hrest, hk, Buffer.overflow_drain, Buffer.drain_snd, zero_add]
    rfl
  apply hl.proceed .drain howed rfl ⟨rfl, rfl, rfl, hl.debt_sincePause⟩
  refine ⟨⟨(Buffer.isPaused_drain _ _).trans hp, (Buffer.restart_drain _ _).trans hr, ?_⟩, ?_⟩
  · rw [howed, State.buffer_proceed, Buffer.sequence_drain]
    exact hs
  · rw [howed, hrest, Buffer.drain_snd]

omit [DecidableEq W] in
theorem Ledger.replay {h : List (Move W)} {s : State W} (hl : Ledger h s) {v : Float} {rest : List Float}
    (at_phase : s.phase = .replaying (v :: rest)) :
    Ledger (.replay v :: h)
      { s with contents := v ::ₘ s.contents, count := s.count + 1, phase := .replaying rest } := by
  have hf := hl.fits
  simp only [Fits, at_phase] at hf
  obtain ⟨⟨hp,hr,hs⟩,ho⟩ := hf
  generalize ht : ({ s with contents := v ::ₘ s.contents, count := s.count + 1, phase := .replaying rest } : State W) = t
  have hsum {M : Type} [AddCommMonoid M] (f : Stage → M) : t.sumOver f = s.sumOver f := by rw [← ht]; rfl
  have howed : s.owed = v ::ₘ t.owed := by
    rw [← ht, State.owed, State.owed, at_phase, Phase.rest, Phase.rest]
    simp only [← Multiset.coe_add, ← Multiset.cons_coe, Multiset.add_cons]
    rfl
  have hrest : t.owed = ↑rest := by
    rw [ho, ← Multiset.cons_coe] at howed
    exact ((Multiset.cons_inj_right v).mp howed).symm
  constructor
  · have hb := hl.balance
    rw [howed, Multiset.add_cons, ← Multiset.cons_add, ← Multiset.cons_add] at hb
    rw [hsum, ← ht]
    rw [← ht] at hb
    exact hb
  · have hc := hl.counted
    rw [Multiset.card_add] at hc
    rw [hsum, hsum, ← ht, Multiset.card_add, Multiset.card_cons]
    dsimp only
    omega
  · have hd := hl.debt
    rw [howed, Multiset.add_cons, ← Multiset.cons_add] at hd
    exact hd
  · have hd := hl.debt_sincePause
    rw [howed, Multiset.add_cons, ← Multiset.cons_add] at hd
    exact hd
  · rw [← ht]
    exact hl.published
  · rw [howed, Multiset.card_cons] at hs
    have hgoal : Open t ∧ t.owed = ↑rest := by
      refine ⟨⟨by rw [← ht]; exact hp, by rw [← ht]; exact hr, ?_⟩, hrest⟩
      rw [hsum, ← ht]
      rw [← ht] at hs
      dsimp only at hs ⊢
      omega
    rw [← ht] at hgoal ⊢
    exact hgoal

omit [DecidableEq W] in
theorem Ledger.release {h : List (Move W)} {s : State W} (hl : Ledger h s)
    (at_phase : s.phase = .replaying []) : Ledger (.release :: h) (s.proceed s.buffer .free) := by
  have hf := hl.fits
  simp only [Fits, at_phase] at hf
  obtain ⟨⟨hp,hr,hs⟩,ho⟩ := hf
  have howed : (s.proceed s.buffer .free).owed = s.owed := by
    rw [State.owed_proceed, State.owed, at_phase]
    rfl
  apply hl.proceed .release howed hl.published ⟨rfl, rfl, rfl, hl.debt_sincePause⟩
  exact ⟨⟨hp, hr, howed ▸ hs⟩, howed.trans ho⟩

theorem Ledger.announce {h : List (Move W)} {s : State W} (hl : Ledger h s) {w : W} (v : Float)
    (idle : s.stage w = .idle) (room : s.buffer.sequence + 1 < 2 ^ 63) :
    Ledger (.announce w v s.buffer.announce.2 :: h) (s.announced w v) := by
  rw [State.announced, Buffer.announce_snd room]
  cases hp : s.buffer.isPaused with
  | false => exact hl.announce_direct v idle room hp
  | true => exact hl.announce_diverted v idle room hp

theorem Ledger.step {h : List (Move W)} {s t : State W} {m : Move W} (hl : Ledger h s)
    (hs : Step s m t) : Ledger (m :: h) t := by
  cases hs with
  | announce v idle room => exact hl.announce v idle room
  | keep at_stage => exact hl.keep at_stage
  | apply at_stage => exact hl.apply at_stage
  | count at_stage => exact hl.count at_stage
  | pause at_phase => exact hl.pause at_phase
  | catchUp at_phase counted => exact hl.catchUp at_phase counted
  | look empties at_phase => exact hl.look empties at_phase
  | resume at_phase => exact hl.resume at_phase
  | drain at_phase published => exact hl.drain at_phase published
  | replay at_phase => exact hl.replay at_phase
  | release at_phase => exact hl.release at_phase

theorem Run.ledger {h : List (Move W)} {s : State W} (hr : Run h s) : Ledger h s := by
  induction hr with
  | start => exact Ledger.start
  | move _ hs ih => exact ih.step hs

end Metering.Quiescence
