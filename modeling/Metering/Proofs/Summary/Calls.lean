import Metering.Proofs.Answers
import Metering.Proofs.Buffer.Waits
import Metering.Summary

/-! # Calls on a summary

An observation needs no upkeep, so that only collections pause the buffer. A collection asks the
estimator, which may change it; a summary without quantiles has none and is left as it is.
-/
namespace Metering.Summary
variable {ε : Type} [Estimator ε]

inductive Act
  | observe (v : Float)
  | collect

def Act.counts : Act → Bool
  | .observe v => !v.isNaN
  | .collect => false

def call (a : Act) (s : Summary ε) : Summary ε × Option (Except Failure SummarySnapshot) :=
  match a with
  | .observe v => (s.observe v, none)
  | .collect => (s.collect.1, some s.collect.2)

def withBuffer (b : Buffer) (s : Summary ε) : Summary ε :=
  { s with buffer := b }

structure Settled (s : Summary ε) : Prop where
  quiet : s.buffer.Quiet
  announced : s.buffer.sequence = s.count

def caughtUp (start : UInt64) (s : Summary ε) : Bool :=
  s.count == start.toNat

/-- Whether no wait of a call takes more than one look. -/
def prompt (a : Act) (s : Summary ε) : Bool :=
  match a with
  | .observe _ => true
  | .collect => Metering.prompt caughtUp (fun start s => ((s.await start).report {}).1) s

def asked (s : Summary ε) : List QuantileValue × Option ε :=
  match s.estimator with
  | none => ([], none)
  | some e => ((ask s.quantiles e).1, some (ask s.quantiles e).2)

def reported (s : Summary ε) : Summary ε :=
  { s with estimator := s.asked.2 }

def snapshot (s : Summary ε) : SummarySnapshot :=
  { count := s.count, sum := s.sum, quantiles := s.asked.1, created := s.created }

variable {s t : Summary ε} {a : Act} {rest : List Act} {v : Float}

/-- With nothing arriving meanwhile a report changes no more than the estimator. -/
theorem report_withBuffer (b : Buffer) (s : Summary ε) :
    (s.withBuffer b).report {} = (s.reported.withBuffer b, .ok s.snapshot) := by
  obtain ⟨quantiles,_,e,sum,count,created⟩ := s
  cases e with
  | none => rfl
  | some e => rfl

omit [Estimator ε] in
theorem stalled_await (start : UInt64) (s : Summary ε) :
    (s.await start).buffer.stalled = (s.buffer.stalled || !s.caughtUp start) := by
  unfold await caughtUp
  split
  next hc => simp [hc]
  next hc => simp [hc, Buffer.stall]

/-- A call leaves a mark just where one of its waits was not over at once, and clears none. -/
theorem stalled_call (a : Act) (s : Summary ε) :
    (s.call a).1.buffer.stalled = (s.buffer.stalled || !s.prompt a) := by
  cases a with
  | observe v =>
    refine Eq.trans ?_ (Bool.or_false _).symm
    change (s.observe v).buffer.stalled = s.buffer.stalled
    unfold observe
    split
    · rfl
    · dsimp only
      split
      · exact Buffer.stalled_append v s.buffer
      · exact Buffer.stalled_append v s.buffer
  | collect =>
    have hinside (start : UInt64) (s : Summary ε) :
        ((s.await start).report {}).1.buffer.stalled = (s.buffer.stalled || !s.caughtUp start) := by
      exact (congrArg (fun r => (Prod.fst r).buffer.stalled)
        (report_withBuffer (s.await start).buffer (s.await start))).trans (stalled_await start s)
    exact stalled_exclusively (fun start s => (s.await start).report {}) apply (fun _ _ => rfl) hinside
      (fun _ _ => rfl) s

theorem settled_new (quantiles : List Quantile) (hasEstimator : Bool) (now : Time) :
    Settled (new quantiles hasEstimator now : Summary ε) :=
  ⟨Buffer.quiet_new, Buffer.sequence_new⟩

theorem observe_nan (hv : v.isNaN = true) (s : Summary ε) : s.observe v = s := by
  rw [observe, if_pos hv]

theorem observe_settled (hs : Settled s) (hroom : s.count + 1 < 2 ^ 63) (hv : v.isNaN = false) :
    ∃ b, b.Quiet ∧ b.sequence = s.count + 1 ∧ s.observe v = (s.apply v).withBuffer b := by
  have hseq := hs.announced
  have hroom' : s.buffer.sequence + 1 < 2 ^ 63 := by omega
  refine ⟨s.buffer.announce.1, hs.quiet.announce hroom', ?_, ?_⟩
  · rw [Buffer.sequence_announce hroom', hseq]
  · rw [observe, hv, if_neg Bool.false_ne_true]
    dsimp only
    rw [Buffer.append_of_not_paused v s.buffer (hs.quiet.announce_snd hroom'), if_neg Bool.false_ne_true]
    rfl

omit [Estimator ε] in
theorem await_of_count {start : UInt64} (hc : s.count = start.toNat) : s.await start = s := by
  rw [await, if_pos hc]

omit [Estimator ε] in
theorem await_settled (hs : Settled s) (p : Buffer) :
    (s.withBuffer p).await s.buffer.appended = s.withBuffer p :=
  await_of_count hs.announced.symm

theorem exclusively_settled {α : Type} {inside : UInt64 → Summary ε → Summary ε × α} {p : Buffer} {x : α}
    (hin : inside s.buffer.appended (s.withBuffer s.buffer.pause) = (t.withBuffer p, x))
    (hi : Buffer.Idle s.buffer p) :
    exclusively inside apply s = (t.withBuffer (Buffer.lift s.buffer.appended p), x) :=
  exclusively_idle s (t.withBuffer p) hin hi

theorem collect_settled (hs : Settled s) :
    ∃ b, b.Quiet ∧ b.sequence = s.count ∧ s.collect = (s.reported.withBuffer b, .ok s.snapshot) := by
  have hidle := hs.quiet.pause
  have hseq := hidle.sequence_lift
  rw [Buffer.restart_pause, hs.quiet.restart] at hseq
  refine ⟨_, hidle.quiet_lift, hseq.trans hs.announced, ?_⟩
  have hin : ((s.withBuffer s.buffer.pause).await s.buffer.appended).report {} =
      (s.reported.withBuffer s.buffer.pause, .ok s.snapshot) := by
    rw [await_settled hs, report_withBuffer]
  rw [collect, collectAmid]
  exact exclusively_settled hin hidle

/-- Everything that a call can do to a summary: NaN is dropped, any other value is applied, and a
collection may change the estimator. -/
inductive Stepped (s : Summary ε) : Act → Summary ε → Prop
  | dropped {v : Float} (hv : v.isNaN = true) : Stepped s (.observe v) s
  | applied {v : Float} {b : Buffer} (hv : v.isNaN = false) (hq : b.Quiet) (hb : b.sequence = s.count + 1) :
      Stepped s (.observe v) ((s.apply v).withBuffer b)
  | collected {b : Buffer} (hq : b.Quiet) (hb : b.sequence = s.count) :
      Stepped s .collect (s.reported.withBuffer b)

theorem stepped (hs : Settled s) (hroom : s.count + [a].countP Act.counts < 2 ^ 63) : Stepped s a (s.call a).1 := by
  cases a with
  | observe v =>
    cases hv : v.isNaN with
    | true =>
      rw [call, observe_nan hv]
      exact .dropped hv
    | false =>
      rw [List.countP_singleton, Act.counts, hv] at hroom
      obtain ⟨b,hq,hb,heq⟩ := observe_settled hs hroom hv
      rw [call, heq]
      exact .applied hv hq hb
  | collect =>
    obtain ⟨b,hq,hb,heq⟩ := collect_settled hs
    rw [call, heq]
    exact .collected hq hb

theorem Stepped.settled (h : Stepped s a t) (hs : Settled s) :
    Settled t ∧ t.count = s.count + [a].countP Act.counts := by
  cases h with
  | dropped hv => exact ⟨hs, by rw [List.countP_singleton, Act.counts, hv]; rfl⟩
  | @applied v b hv hq hb => exact ⟨⟨hq, hb⟩, by rw [List.countP_singleton, Act.counts, hv]; rfl⟩
  | collected hq hb => exact ⟨⟨hq, hb⟩, rfl⟩

theorem settled_run {acts : List Act} (hs : Settled s) (hroom : s.count + acts.countP Act.counts < 2 ^ 63) :
    Settled (reached call acts s) ∧ (reached call acts s).count = s.count + acts.countP Act.counts := by
  induction acts generalizing s with
  | nil => exact ⟨hs, rfl⟩
  | cons a rest ih =>
    have happend : (a :: rest).countP Act.counts = [a].countP Act.counts + rest.countP Act.counts := by
      rw [← List.countP_append, List.singleton_append]
    rw [happend] at hroom ⊢
    obtain ⟨hs',hc⟩ := (stepped (a := a) hs (by omega)).settled hs
    obtain ⟨hrun,hcount⟩ := ih hs' (by omega)
    refine ⟨hrun, hcount.trans ?_⟩
    rw [hc, Nat.add_assoc]

theorem Settled.prompt (hs : Settled s) (hroom : s.count + [a].countP Act.counts < 2 ^ 63) :
    s.prompt a = true := by
  have hmark := stalled_call a s
  rw [((stepped hs hroom).settled hs).1.quiet.stalled, hs.quiet.stalled, Bool.false_or] at hmark
  simpa using hmark

/-- Settled summaries without an estimator that are equal but for their buffers, with room for the
calls that follow. -/
structure Same (rest : List Act) (s t : Summary ε) : Prop where
  left : Settled s
  right : Settled t
  alike : s.withBuffer {} = t.withBuffer {}
  silent : s.estimator = none
  room : s.count + rest.countP Act.counts < 2 ^ 63

theorem reported_of_silent (h : s.estimator = none) : s.reported = s := by
  rw [reported, asked, h]
  dsimp only
  rw [← h]

theorem Stepped.silent (h : Stepped s a t) (hs : s.estimator = none) : t.estimator = none := by
  cases h with
  | dropped hv => exact hs
  | applied hv hq hb =>
    change s.estimator.map _ = none
    rw [hs]
    rfl
  | collected hq hb => rwa [reported_of_silent hs]

theorem Stepped.alike {s' t' : Summary ε} (hs : Stepped s a s') (ht : Stepped t a t')
    (h : s.withBuffer {} = t.withBuffer {}) : s'.withBuffer {} = t'.withBuffer {} := by
  cases hs with
  | dropped hv =>
    cases ht with
    | dropped _ => exact h
    | applied hv' _ _ => exact absurd (hv'.symm.trans hv) Bool.false_ne_true
  | applied hv _ _ =>
    cases ht with
    | dropped hv' => exact absurd (hv.symm.trans hv') Bool.false_ne_true
    | applied _ _ _ => exact congrArg (apply _) h
  | collected _ _ =>
    cases ht with
    | collected _ _ => exact congrArg reported h

theorem Same.call (hs : Same (a :: rest) s t) :
    (s.call a).2 = (t.call a).2 ∧ Same rest (s.call a).1 (t.call a).1 := by
  have hroom : s.count + ([a].countP Act.counts + rest.countP Act.counts) < 2 ^ 63 := by
    rw [← List.countP_append]
    exact hs.room
  have hcount := congrArg Summary.count hs.alike
  change s.count = t.count at hcount
  have hfirst : s.count + [a].countP Act.counts < 2 ^ 63 := by omega
  have hstep := stepped hs.left hfirst
  rw [hcount] at hfirst
  have hstep' := stepped hs.right hfirst
  obtain ⟨hleft,hc⟩ := hstep.settled hs.left
  refine ⟨?_, hleft, (hstep'.settled hs.right).1, hstep.alike hstep' hs.alike, hstep.silent hs.silent, by omega⟩
  cases a with
  | observe v => rfl
  | collect =>
    obtain ⟨_,_,_,heq⟩ := collect_settled hs.left
    obtain ⟨_,_,_,heq'⟩ := collect_settled hs.right
    have hsnap := congrArg snapshot hs.alike
    change s.snapshot = t.snapshot at hsnap
    rw [Summary.call, Summary.call, heq, heq', hsnap]

theorem Same.collect (hs : Same rest s t) : Same rest (s.call .collect).1 t := by
  obtain ⟨b,hq,hb,heq⟩ := collect_settled hs.left
  rw [Summary.call, heq, reported_of_silent hs.silent]
  exact ⟨⟨hq, hb⟩, hs.right, hs.alike, hs.silent, hs.room⟩

end Metering.Summary
