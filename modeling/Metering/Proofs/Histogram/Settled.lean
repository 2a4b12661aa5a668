import Metering.Proofs.Buffer.Quiet
import Metering.Proofs.Histogram.Upkeep

/-! # Observing with one thread of control

Between two operations the buffer is quiet and has announced as many values as were applied. An
observation is then the application of its value followed by the upkeep it calls for, and a
collection reports the histogram as it stands; the buffer only follows.
-/
namespace Metering.Histogram
open Native (minSchema)

variable {σ : Type}

def withBuffer (b : Buffer) (h : Histogram σ) : Histogram σ :=
  { h with buffer := b }

/-- Nothing is announced that is not applied, and nothing is kept. -/
structure Settled (h : Histogram σ) : Prop where
  quiet : h.buffer.Quiet
  announced : h.buffer.sequence = h.count

variable {h : Histogram σ} {b : Buffer} {now : Time} {v : Float} {w : List Event} {tag : Option Tag}

@[simp] theorem buffer_withBuffer (b : Buffer) (h : Histogram σ) : (h.withBuffer b).buffer = b := rfl

theorem withBuffer_withBuffer (b b' : Buffer) (h : Histogram σ) :
    (h.withBuffer b).withBuffer b' = h.withBuffer b' := rfl

theorem apply_withBuffer (b : Buffer) (v : Float) (h : Histogram σ) :
    (h.withBuffer b).apply v = ((h.apply v).1.withBuffer b, (h.apply v).2) := rfl

theorem shrink_withBuffer (b : Buffer) (h : Histogram σ) (w : List Event) :
    shrink note (h.withBuffer b, w) =
      ((shrink note (h, w)).1.withBuffer b, (shrink note (h, w)).2) := by
  rw [shrink_fst h]
  exact shrink_frame (g := h.withBuffer b) (h := h) rfl rfl w

theorem snapshot_withBuffer (b : Buffer) (exemplars : List Exemplar) (h : Histogram σ) :
    (h.withBuffer b).snapshot exemplars = h.snapshot exemplars := rfl

theorem settled_new (config : HistogramConfig) (now : Time) (sampler : Option σ) :
    Settled (new config now sampler) :=
  ⟨Buffer.quiet_new, Buffer.sequence_new⟩

theorem await_of_count {start : UInt64} (hc : h.count = start.toNat) : h.await start = h := by
  rw [await, if_pos hc]

theorem await_settled (hs : Settled h) (p : Buffer) :
    (h.withBuffer p).await h.buffer.appended = h.withBuffer p :=
  await_of_count hs.announced.symm

theorem exclusively_settled {α : Type} {inside : UInt64 → Histogram σ → Histogram σ × α} {p : Buffer} {a : α}
    (hin : inside h.buffer.appended (h.withBuffer h.buffer.pause) = (h.withBuffer p, a))
    (hi : Buffer.Idle h.buffer p) :
    exclusively inside replay h = (h.withBuffer (Buffer.lift h.buffer.appended p), a) :=
  exclusively_idle h (h.withBuffer p) hin hi

variable [Sampler σ]

/-- What an observation does to all but the buffer, and the events of its upkeep. -/
def record (now : Time) (v : Float) (h : Histogram σ) : Histogram σ × List Event :=
  let (h, created) := h.apply v
  match h.upkeep? now created with
  | none => (h, [])
  | some .shrink => shrink note (h, [])
  | some .reset => (((h.reset now).apply v).1, [.reset])

/-- With its exemplars handed over. -/
def emptied (h : Histogram σ) : Histogram σ :=
  { h with sampler := (Sampler.handOver h.sampler).2 }

theorem collect_eq (h : Histogram σ) :
    h.collect = exclusively
      (fun start g => (g.await start, (g.await start).snapshot (Sampler.handOver h.sampler).1)) replay h.emptied := rfl

theorem reset_withBuffer (b : Buffer) (now : Time) (h : Histogram σ) :
    (h.withBuffer b).reset now = (h.reset now).withBuffer b.requestRestart := rfl

theorem record_of_none (hu : (h.apply v).1.upkeep? now (h.apply v).2 = none) :
    h.record now v = ((h.apply v).1, []) := by
  rw [record]
  simp only [hu]

theorem record_of_shrink (hu : (h.apply v).1.upkeep? now (h.apply v).2 = some .shrink) :
    h.record now v = shrink note ((h.apply v).1, []) := by
  rw [record]
  simp only [hu]

theorem record_of_reset (hu : (h.apply v).1.upkeep? now (h.apply v).2 = some .reset) :
    h.record now v = ((((h.apply v).1.reset now).apply v).1, [.reset]) := by
  rw [record]
  simp only [hu]

/-- Everything that an observation can do to all but the buffer. -/
inductive Recorded (now : Time) (v : Float) (h : Histogram σ) : Histogram σ × List Event → Prop
  | plain (hu : (h.apply v).1.upkeep? now (h.apply v).2 = none) :
      Recorded now v h ((h.apply v).1, [])
  | shrunk {n n' : Native.State} {c : NativeConfig} {events : List Event}
      (hn : (h.apply v).1.nativePart? = some (n, c)) (hs : minSchema < n.schema)
      (hw : n.widen? c.maxZeroThreshold = some n' ∨ n.halve? = some n')
      (he : ∀ e ∈ events, e.isReset = false) :
      Recorded now v h ({ (h.apply v).1 with native := some n' }, events)
  | reset {n : Native.State} {c : NativeConfig} (hn : (h.apply v).1.nativePart? = some (n, c)) :
      Recorded now v h ((((h.apply v).1.reset now).apply v).1, [.reset])

theorem recorded (now : Time) (v : Float) (h : Histogram σ) : Recorded now v h (h.record now v) := by
  cases hu : (h.apply v).1.upkeep? now (h.apply v).2 with
  | none =>
    rw [record_of_none hu]
    exact .plain hu
  | some u =>
    obtain ⟨n,c,hn,hc⟩ := upkeep?_eq_some hu
    cases u with
    | shrink =>
      obtain ⟨n',more,heq,he,hw⟩ := shrink_spec (w := []) hn (hc rfl).2.1
      rw [record_of_shrink hu, heq]
      exact .shrunk hn (hc rfl).2.1 hw he
    | reset =>
      rw [record_of_reset hu]
      exact .reset hn

theorem any_isReset_record :
    (h.record now v).2.any Event.isReset = true ↔
      (h.apply v).1.upkeep? now (h.apply v).2 = some .reset := by
  cases hu : (h.apply v).1.upkeep? now (h.apply v).2 with
  | none => simp [record_of_none hu]
  | some u =>
    obtain ⟨n,c,hp,hc⟩ := upkeep?_eq_some hu
    cases u with
    | reset => simp [record_of_reset hu, Event.isReset]
    | shrink =>
      obtain ⟨n',more,heq,he,_⟩ := shrink_spec (w := []) hp (hc rfl).2.1
      rw [record_of_shrink hu, heq, List.nil_append, List.any_eq_true]
      simp only [reduceCtorEq, Option.some.injEq, iff_false, not_exists, not_and]
      intro e hm
      rw [he e hm]
      exact Bool.false_ne_true

theorem perform_reset (p : Buffer) (h : Histogram σ) (w : List Event) :
    perform note now (h.withBuffer p, w) .reset =
      ((h.reset now).withBuffer p.requestRestart, w ++ [.reset]) := rfl

theorem perform_shrink (p : Buffer) (h : Histogram σ) (w : List Event) :
    perform note now (h.withBuffer p, w) .shrink =
      ((shrink note (h, w)).1.withBuffer p, (shrink note (h, w)).2) :=
  shrink_withBuffer p h w

theorem maintain_idle (now : Time) {u : Upkeep} {h' : Histogram σ} {w' : List Event} {p : Buffer} (hs : Settled h)
    (hp : perform note now (h.withBuffer h.buffer.pause, w) u = (h'.withBuffer p, w'))
    (hi : Buffer.Idle h.buffer p) :
    maintain note now u (h, w) = (h'.withBuffer (Buffer.lift h.buffer.appended p), w') := by
  have hin : (perform note now ((h.withBuffer h.buffer.pause).await h.buffer.appended, w) u, ()) =
      ((h'.withBuffer p, w'), ()) := by
    rw [await_settled hs, hp]
  exact congrArg Prod.fst (exclusively_idle (h, w) (h'.withBuffer p, w') hin hi)

theorem applyAnnounced_none {g : Histogram σ} (hu : (g.apply v).1.upkeep? now (g.apply v).2 = none) :
    applyAnnounced note now v (g, w) = ((g.apply v).1, w) := by
  rw [applyAnnounced]
  dsimp only
  rw [hu]

theorem applyAnnounced_shrink {g : Histogram σ}
    (hu : (g.apply v).1.upkeep? now (g.apply v).2 = some .shrink) :
    applyAnnounced note now v (g, w) = maintain note now .shrink ((g.apply v).1, w) := by
  rw [applyAnnounced]
  dsimp only
  rw [hu]
  rfl

theorem applyAnnounced_reset {g g' : Histogram σ} {r : Buffer} {w' : List Event}
    (hu : (g.apply v).1.upkeep? now (g.apply v).2 = some .reset)
    (hm : maintain note now .reset ((g.apply v).1, w) = (g'.withBuffer r, w'))
    (hr : r.announce.2 = false) :
    applyAnnounced note now v (g, w) = ((g'.apply v).1.withBuffer r.announce.1, w') := by
  rw [applyAnnounced]
  dsimp only
  rw [hu]
  dsimp only
  rw [hm, if_pos rfl]
  dsimp only
  rw [buffer_withBuffer, Buffer.append_of_not_paused v r hr, if_neg Bool.false_ne_true]
  rfl

theorem applyAnnounced_settled (now : Time) (v : Float) {b : Buffer} (hq : b.Quiet) (hb : b.sequence = h.count + 1) :
    ∃ b', b'.Quiet ∧ b'.sequence = (h.record now v).1.count ∧
      applyAnnounced note now v (h.withBuffer b, []) =
        ((h.record now v).1.withBuffer b', (h.record now v).2) := by
  have hset : Settled ((h.apply v).1.withBuffer b) := ⟨hq, hb⟩
  have hg : ((h.withBuffer b).apply v).1.upkeep? now ((h.withBuffer b).apply v).2 =
      (h.apply v).1.upkeep? now (h.apply v).2 := rfl
  rw [record]
  dsimp only
  cases hu : (h.apply v).1.upkeep? now (h.apply v).2 with
  | none => exact ⟨b, hq, hb, applyAnnounced_none (hg.trans hu)⟩
  | some u =>
    cases u with
    | shrink =>
      have hidle : Buffer.Idle b b.pause := hq.pause
      have hm := maintain_idle now hset (perform_shrink b.pause _ []) hidle
      have hcount := count_shrink (h.apply v).1 []
      rw [shrink_withBuffer, withBuffer_withBuffer, buffer_withBuffer] at hm
      refine ⟨Buffer.lift b.appended b.pause, hidle.quiet_lift, ?_, ?_⟩
      · rw [hidle.sequence_lift, Buffer.restart_pause, hq.restart, hcount, hb]
        rfl
      · rw [applyAnnounced_shrink (hg.trans hu), apply_withBuffer, hm]
    | reset =>
      -- The buffer starts over from nothing, and the value is announced once more.
      have hidle : Buffer.Idle b b.pause.requestRestart := hq.pause.requestRestart
      have hm := maintain_idle now hset (perform_reset b.pause _ []) hidle
      have hlift := hidle.quiet_lift
      have hseq := hidle.sequence_lift
      rw [Buffer.restart_requestRestart, if_pos rfl] at hseq
      rw [reset_withBuffer, withBuffer_withBuffer, buffer_withBuffer] at hm
      have hroom : (Buffer.lift b.appended b.pause.requestRestart).sequence + 1 < 2 ^ 63 := by omega
      refine ⟨_, hlift.announce hroom, ?_, applyAnnounced_reset (hg.trans hu) hm (hlift.announce_snd hroom)⟩
      rw [Buffer.sequence_announce hroom, hseq]
      rfl

/-- With one thread of control an observation is recorded and offered, and the buffer follows. -/
theorem observe_settled (hs : Settled h) (hroom : h.count + 1 < 2 ^ 63) (hv : v.isNaN = false)
    (now : Time) (tag : Option Tag) :
    ∃ b, b.Quiet ∧ b.sequence = (h.record now v).1.count ∧
      h.observe now v tag = (((h.record now v).1.withBuffer b).offer v tag, (h.record now v).2) := by
  have hseq := hs.announced
  have hroom' : h.buffer.sequence + 1 < 2 ^ 63 := by omega
  have hq := hs.quiet.announce hroom'
  have hb := Buffer.sequence_announce hroom'
  rw [hseq] at hb
  obtain ⟨b,hbq,hbs,heq⟩ := applyAnnounced_settled now v hq hb
  refine ⟨b, hbq, hbs, ?_⟩
  rw [observe, observeAmid, hv, if_neg Bool.false_ne_true]
  dsimp only
  rw [Buffer.append_of_not_paused v h.buffer (hs.quiet.announce_snd hroom'), if_neg Bool.false_ne_true]
  change (let (h, w) := applyAnnounced note now v (h.withBuffer h.buffer.announce.1, []); (h.offer v tag, w)) = _
  rw [heq]

theorem observe_nan (hv : v.isNaN = true) (now : Time) (tag : Option Tag) (h : Histogram σ) :
    h.observe now v tag = (h, []) := by
  rw [observe, observeAmid, hv, if_pos rfl]

theorem collect_settled (hs : Settled h) :
    ∃ b, b.Quiet ∧ b.sequence = h.count ∧
      h.collect = (h.emptied.withBuffer b, h.snapshot (Sampler.handOver h.sampler).1) := by
  have hs' : Settled h.emptied := ⟨hs.quiet, hs.announced⟩
  have hidle := hs'.quiet.pause
  have hseq := hidle.sequence_lift
  rw [Buffer.restart_pause, hs'.quiet.restart] at hseq
  refine ⟨_, hidle.quiet_lift, hseq.trans hs.announced, ?_⟩
  have hin : ((h.emptied.withBuffer h.emptied.buffer.pause).await h.emptied.buffer.appended,
      ((h.emptied.withBuffer h.emptied.buffer.pause).await h.emptied.buffer.appended).snapshot
        (Sampler.handOver h.sampler).1) =
      (h.emptied.withBuffer h.emptied.buffer.pause, h.snapshot (Sampler.handOver h.sampler).1) := by
    rw [await_settled hs', snapshot_withBuffer]
    rfl
  rw [collect_eq]
  exact exclusively_settled hin hidle

theorem snapshot_collect (hs : Settled h) :
    h.collect.2 = h.snapshot (Sampler.handOver h.sampler).1 := by
  obtain ⟨b,_,_,heq⟩ := collect_settled hs
  rw [heq]

end Metering.Histogram
