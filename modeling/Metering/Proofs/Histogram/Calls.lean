import Metering.Proofs.Answers
import Metering.Proofs.Buffer.Waits
import Metering.Proofs.Histogram.Renewal

/-! # Calls on a histogram

An observation is answered by the upkeep it brings about, a collection by its snapshot. Exemplars aside,
calls do not tell settled histograms apart that differ in buffer and sampler only, and a collection
changes nothing else. Where handing exemplars over does not show in a sampler, not even by them.
-/
namespace Metering.Histogram

variable {σ : Type} [Sampler σ]

inductive Answer
  | observed (upkeep : List Event)
  | collected (s : HistogramSnapshot)

def call (a : Act) (h : Histogram σ) : Histogram σ × Answer :=
  match a with
  | .observe now v tag => ((h.observe now v tag).1, .observed (h.observe now v tag).2)
  | .collect => (h.collect.1, .collected h.collect.2)

def Act.answer (events : List Event) (h : Histogram σ) : Act → Answer
  | .observe _ _ _ => .observed events
  | .collect => .collected (h.snapshot (Sampler.handOver h.sampler).1)

theorem call_eq (a : Act) (c : Course σ) (hs : Settled c.histogram) :
    c.histogram.call a = ((c.step a).histogram, a.answer (c.events a) c.histogram) := by
  cases a with
  | observe now v tag => rfl
  | collect => rw [call, snapshot_collect hs]; rfl

/-- A course follows the histogram from call to call. -/
theorem histogram_run (config : HistogramConfig) (created : Time) (sampler : Option σ) (acts : List Act) :
    (Course.run config created sampler acts).histogram = reached call acts (new config created sampler) := by
  have hstep (c : Course σ) (a : Act) : (c.step a).histogram = (c.histogram.call a).1 := by
    cases a with
    | observe now v tag => rfl
    | collect => rfl
  exact (List.foldl_hom Course.histogram fun c a => (hstep c a).symm).symm

def caughtUp (start : UInt64) (h : Histogram σ) : Bool :=
  h.count == start.toNat

def promptUpkeep (now : Time) (u : Upkeep) (s : Histogram σ × List Event) : Bool :=
  Metering.prompt (fun start s => s.1.caughtUp start) (fun start s => perform note now (s.1.await start, s.2) u) s

/-- Whether no wait of a call takes more than one look. Observing waits where it brings upkeep about. -/
def prompt (a : Act) (h : Histogram σ) : Bool :=
  match a with
  | .collect => Metering.prompt caughtUp await h.emptied
  | .observe now v _ =>
    let (buffer, kept) := h.buffer.append v
    let (g, created) := { h with buffer }.apply v
    v.isNaN || kept ||
      match g.upkeep? now created with
      | none => true
      | some u => promptUpkeep now u (g, [])

omit [Sampler σ] in
theorem stalled_await (start : UInt64) (h : Histogram σ) :
    (h.await start).buffer.stalled = (h.buffer.stalled || !h.caughtUp start) := by
  unfold await caughtUp
  split
  next hc => simp [hc]
  next hc => simp [hc, Buffer.stall]

theorem stalled_perform (now : Time) (u : Upkeep) (s : Histogram σ × List Event) :
    (perform note now s u).1.buffer.stalled = s.1.buffer.stalled := by
  cases u with
  | reset => rfl
  | shrink =>
    change (shrink note s).1.buffer.stalled = _
    rw [shrink_fst]

theorem stalled_maintain (now : Time) (u : Upkeep) (s : Histogram σ × List Event) :
    (maintain note now u s).1.buffer.stalled = (s.1.buffer.stalled || !promptUpkeep now u s) := by
  have hinside (start : UInt64) (s : Histogram σ × List Event) :
      (perform note now (s.1.await start, s.2) u).1.buffer.stalled =
        (s.1.buffer.stalled || !s.1.caughtUp start) :=
    (stalled_perform now u _).trans (stalled_await start s.1)
  exact stalled_exclusively (fun start s => (perform note now (s.1.await start, s.2) u, ()))
    (fun v s => (s.1.replay v, s.2)) (fun _ _ => rfl) hinside (fun _ _ => rfl) s

theorem stalled_applyAnnounced (now : Time) (v : Float) (s : Histogram σ × List Event) :
    (applyAnnounced note now v s).1.buffer.stalled = (s.1.buffer.stalled ||
      !match (s.1.apply v).1.upkeep? now (s.1.apply v).2 with
      | none => true
      | some u => promptUpkeep now u ((s.1.apply v).1, s.2)) := by
  rw [applyAnnounced]
  dsimp only
  cases hu : (s.1.apply v).1.upkeep? now (s.1.apply v).2 with
  | none => exact (Bool.or_false _).symm
  | some u =>
    have hmaintain := stalled_maintain now u ((s.1.apply v).1, s.2)
    dsimp only
    split
    · refine Eq.trans ?_ hmaintain
      split
      · exact Buffer.stalled_append v _
      · exact Buffer.stalled_append v _
    · exact hmaintain

/-- A call leaves a mark just where one of its waits was not over at once, and clears none. -/
theorem stalled_call (a : Act) (h : Histogram σ) :
    (h.call a).1.buffer.stalled = (h.buffer.stalled || !h.prompt a) := by
  cases a with
  | collect =>
    let inside (start : UInt64) (g : Histogram σ) : Histogram σ × HistogramSnapshot :=
      (g.await start, (g.await start).snapshot (Sampler.handOver h.sampler).1)
    exact stalled_exclusively inside replay (fun _ _ => rfl) stalled_await (fun _ _ => rfl) h.emptied
  | observe now v tag =>
    rw [call, prompt, observe, observeAmid]
    dsimp only
    cases hv : v.isNaN with
    | true => exact (Bool.or_false _).symm
    | false =>
      rw [if_neg Bool.false_ne_true]
      cases hk : (h.buffer.append v).2 with
      | true => exact (Buffer.stalled_append v h.buffer).trans (Bool.or_false _).symm
      | false =>
        have happly := stalled_applyAnnounced now v ({ h with buffer := (h.buffer.append v).1 }, [])
        rw [Buffer.stalled_append] at happly
        exact happly

theorem Settled.prompt {h : Histogram σ} {a : Act} (hs : Settled h)
    (hroom : h.count + [a].countP Act.counts < 2 ^ 63) : h.prompt a = true := by
  have hmark := stalled_call a h
  have hnext := (Course.stepped (c := { histogram := h }) hs hroom).settled.1.quiet.stalled
  rw [call_eq a { histogram := h } hs, hnext, hs.quiet.stalled, Bool.false_or] at hmark
  simpa using hmark

def Answer.untraced : Answer → Answer
  | .observed upkeep => .observed upkeep
  | .collected s => .collected s.untraced

/-- Settled histograms that differ in buffer and sampler only, with room for the calls that follow. -/
structure Same (rest : List Act) (h g : Histogram σ) : Prop where
  left : Settled h
  right : Settled g
  bare : h.bare = g.bare
  room : h.count + rest.countP Act.counts < 2 ^ 63

variable {h g : Histogram σ} {a : Act} {rest : List Act}

theorem Same.stepped (hs : Same (a :: rest) h g) :
    Stepped { histogram := h } a (Course.step { histogram := h } a) (Course.events { histogram := h } a) ∧
      Stepped { histogram := g } a (Course.step { histogram := g } a) (Course.events { histogram := g } a) := by
  have hroom : h.count + ([a].countP Act.counts + rest.countP Act.counts) < 2 ^ 63 := by
    rw [← List.countP_append]
    exact hs.room
  have hcount : h.count = g.count := by
    change h.bare.count = g.bare.count
    rw [hs.bare]
  exact ⟨Course.stepped hs.left (by dsimp only; omega), Course.stepped hs.right (by dsimp only; omega)⟩

theorem Same.call (hs : Same (a :: rest) h g) :
    (h.call a).2.untraced = (g.call a).2.untraced ∧ Same rest (h.call a).1 (g.call a).1 := by
  have hroom := hs.room
  rw [← List.singleton_append, List.countP_append] at hroom
  obtain ⟨hc,hd⟩ := hs.stepped
  obtain ⟨hbare,hevents⟩ := (hc.parallel hd).bare hs.bare
  obtain ⟨hleft,hcount⟩ := hc.settled
  rw [call_eq a { histogram := h } hs.left, call_eq a { histogram := g } hs.right]
  refine ⟨?_, hleft, hd.settled.1, hbare, ?_⟩
  · cases a with
    | observe now v tag => exact congrArg Answer.observed hevents
    | collect => exact congrArg Answer.collected (snapshot_of_bare hs.bare [])
  · dsimp only at hcount ⊢
    omega

theorem Same.collect (hs : Same rest h g) : Same rest (h.call .collect).1 g := by
  obtain ⟨b,hq,hb,heq⟩ := collect_settled hs.left
  rw [Histogram.call, heq]
  exact ⟨⟨hq, hb⟩, hs.right, hs.bare, hs.room⟩

/-- Histograms whose samplers answer alike too, and still do where exemplars were handed over. -/
structure Twin (rest : List Act) (h g : Histogram σ) : Prop extends Same rest h g where
  samplers : Sampler.Matched h.sampler g.sampler
  steady : ∀ s ∈ h.sampler, Sampler.Steady s

theorem Twin.call (ht : Twin (a :: rest) h g) :
    (h.call a).2 = (g.call a).2 ∧ Twin rest (h.call a).1 (g.call a).1 := by
  have hnext := ht.toSame.call.2
  obtain ⟨hc,hd⟩ := ht.toSame.stepped
  have halike : Alike h g := ⟨ht.bare, ht.samplers⟩
  have halike' := Alike.parallel (c := { histogram := h }) (d := { histogram := g }) halike (hc.parallel hd)
  rw [call_eq a { histogram := h } ht.left, call_eq a { histogram := g } ht.right] at hnext ⊢
  refine ⟨?_, hnext, halike'.samplers, (hc.sampler_became (.refl h.sampler)).steady ht.steady⟩
  cases a with
  | observe now v tag => exact congrArg Answer.observed ((hc.parallel hd).bare ht.bare).2
  | collect => exact congrArg Answer.collected halike.snapshot

theorem Twin.collect (ht : Twin rest h g) : Twin rest (h.call .collect).1 g := by
  have hnext := ht.toSame.collect
  obtain ⟨b,_,_,heq⟩ := collect_settled ht.left
  rw [Histogram.call, heq] at hnext ⊢
  exact ⟨hnext, ht.samplers.handOver_left ht.steady, (Sampler.Became.refl h.sampler).handOver.steady ht.steady⟩

end Metering.Histogram
