import Metering.Proofs.Histogram.Settled
import Mathlib.Data.List.Induction

/-! # Sequential runs

A run is any list of observations, at any times, and collections. Beside the histogram it remembers
the values observed since the histogram was created or last reset. What recording a value preserves
holds after every run that the count of the buffer has room for.
-/
namespace Metering.Histogram

variable {σ : Type} [Sampler σ]

abbrev unsampled : Option Recorder := none

inductive Act
  | observe (now : Time) (v : Float) (tag : Option Tag)
  | collect

def Act.counts : Act → Bool
  | .observe _ v _ => !v.isNaN
  | .collect => false

theorem Act.counts_of_number {v : Float} (hv : v.isNaN = false) (now : Time) (tag : Option Tag) :
    (Act.observe now v tag).counts = true := by
  rw [counts, hv]
  rfl

theorem Act.counts_of_nan {v : Float} (hv : v.isNaN = true) (now : Time) (tag : Option Tag) :
    (Act.observe now v tag).counts = false := by
  rw [counts, hv]
  rfl

/-- The values since the last reset; the one that triggers it is the first. -/
def remember (vs : List Float) (v : Float) (events : List Event) : List Float :=
  if events.any Event.isReset then [v] else vs ++ [v]

theorem remember_of_ne_reset {h : Histogram σ} {now : Time} {v : Float}
    (hu : (h.apply v).1.upkeep? now (h.apply v).2 ≠ some .reset) (vs : List Float) :
    remember vs v (h.record now v).2 = vs ++ [v] := by
  rw [remember, if_neg (mt any_isReset_record.mp hu)]

theorem remember_of_reset {h : Histogram σ} {now : Time} {v : Float}
    (hu : (h.apply v).1.upkeep? now (h.apply v).2 = some .reset) (vs : List Float) :
    remember vs v (h.record now v).2 = [v] := by
  rw [remember, if_pos (any_isReset_record.mpr hu)]

structure Course (σ : Type) where
  histogram : Histogram σ
  since : List Float := []

namespace Course

def step (c : Course σ) : Act → Course σ
  | .observe now v tag =>
    { histogram := (c.histogram.observe now v tag).1
      since := if v.isNaN then c.since else remember c.since v (c.histogram.observe now v tag).2 }
  | .collect => { c with histogram := c.histogram.collect.1 }

def events (c : Course σ) : Act → List Event
  | .observe now v tag => (c.histogram.observe now v tag).2
  | .collect => []

def report (c : Course σ) : HistogramSnapshot :=
  c.histogram.collect.2

def run (config : HistogramConfig) (created : Time) (sampler : Option σ) (acts : List Act) : Course σ :=
  acts.foldl step { histogram := new config created sampler }

end Course

theorem count_record_le (now : Time) (v : Float) (h : Histogram σ) :
    (h.record now v).1.count ≤ h.count + 1 := by
  have hr := recorded now v h
  generalize h.record now v = r at hr ⊢
  cases hr with
  | plain hu => exact Nat.le_refl _
  | shrunk hn hs hw he => exact Nat.le_refl _
  | reset hn => exact Nat.add_le_add_right (Nat.zero_le _) 1

/-- What an action that counts nothing leaves of a sampler. -/
def Act.relieve (sampler : Option σ) : Act → Option σ
  | .observe _ _ _ => sampler
  | .collect => (Sampler.handOver sampler).2

/-- Everything that an action can do to a course, and the upkeep it brings about: NaN leaves all as it
is, a collection all but the buffer and the sampler, any other value is recorded and offered. -/
inductive Stepped (c : Course σ) : Act → Course σ → List Event → Prop
  | idle {a : Act} {b : Buffer} {s : Option σ} (ha : a.counts = false) (hq : b.Quiet)
      (hb : b.sequence = c.histogram.count) (hs : s = a.relieve c.histogram.sampler) :
      Stepped c a { c with histogram := { c.histogram with buffer := b, sampler := s } } []
  | recorded {now : Time} {v : Float} {b : Buffer} (tag : Option Tag) (hv : v.isNaN = false) (hq : b.Quiet)
      (hb : b.sequence = (c.histogram.record now v).1.count) :
      Stepped c (.observe now v tag)
        { histogram := ((c.histogram.record now v).1.withBuffer b).offer v tag
          since := remember c.since v (c.histogram.record now v).2 }
        (c.histogram.record now v).2

theorem Stepped.settled {c c' : Course σ} {a : Act} {events : List Event} (h : Stepped c a c' events) :
    Settled c'.histogram ∧ c'.histogram.count ≤ c.histogram.count + [a].countP Act.counts := by
  cases h with
  | idle ha hq hb => exact ⟨⟨hq, hb⟩, Nat.le_add_right _ _⟩
  | @recorded now v b tag hv hq hb =>
    rw [List.countP_singleton, if_pos (Act.counts_of_number hv now tag)]
    exact ⟨⟨hq, hb⟩, count_record_le now v c.histogram⟩

namespace Course

variable {config : HistogramConfig} {created : Time} {sampler : Option σ} {acts : List Act}

theorem room_left {xs ys : List Act} (hroom : (xs ++ ys).countP Act.counts < 2 ^ 63) :
    xs.countP Act.counts < 2 ^ 63 := by
  rw [List.countP_append] at hroom
  omega

theorem room_right {xs ys : List Act} (hroom : (xs ++ ys).countP Act.counts < 2 ^ 63) :
    ys.countP Act.counts < 2 ^ 63 := by
  rw [List.countP_append] at hroom
  omega

theorem run_append (config : HistogramConfig) (created : Time) (sampler : Option σ) (xs ys : List Act) :
    run config created sampler (xs ++ ys) = ys.foldl step (run config created sampler xs) :=
  List.foldl_append

theorem run_snoc (config : HistogramConfig) (created : Time) (sampler : Option σ) (acts : List Act) (a : Act) :
    run config created sampler (acts ++ [a]) = (run config created sampler acts).step a :=
  List.foldl_append

theorem stepped {c : Course σ} {a : Act} (hs : Settled c.histogram)
    (hroom : c.histogram.count + [a].countP Act.counts < 2 ^ 63) : Stepped c a (c.step a) (c.events a) := by
  rw [List.countP_singleton] at hroom
  cases a with
  | observe now v tag =>
    cases hv : v.isNaN with
    | true =>
      rw [step, events, observe_nan hv, if_pos hv]
      exact .idle (Act.counts_of_nan hv now tag) hs.quiet hs.announced rfl
    | false =>
      rw [if_pos (Act.counts_of_number hv now tag)] at hroom
      obtain ⟨b,hq,hb,heq⟩ := observe_settled hs hroom hv now tag
      rw [step, events, heq, hv, if_neg Bool.false_ne_true]
      exact .recorded tag hv hq hb
  | collect =>
    obtain ⟨b,hq,hb,heq⟩ := collect_settled hs
    rw [step, events, heq]
    exact .idle rfl hq hb rfl

theorem settled_run (config : HistogramConfig) (created : Time) (sampler : Option σ)
    (hroom : acts.countP Act.counts < 2 ^ 63) :
    Settled (run config created sampler acts).histogram ∧
      (run config created sampler acts).histogram.count ≤ acts.countP Act.counts := by
  induction acts using List.reverseRecOn with
  | nil => exact ⟨settled_new config created sampler, Nat.le_refl _⟩
  | append_singleton acts a ih =>
    rw [List.countP_append] at hroom ⊢
    obtain ⟨hs,hc⟩ := ih (by omega)
    obtain ⟨hs',hc'⟩ := (stepped hs (a := a) (by omega)).settled
    rw [run_snoc]
    exact ⟨hs', Nat.le_trans hc' (Nat.add_le_add_right hc _)⟩

theorem report_run (config : HistogramConfig) (created : Time) (sampler : Option σ)
    (hroom : acts.countP Act.counts < 2 ^ 63) :
    (run config created sampler acts).report = (run config created sampler acts).histogram.snapshot
      (Sampler.handOver (run config created sampler acts).histogram.sampler).1 :=
  snapshot_collect (settled_run config created sampler hroom).1

theorem stepped_run {a : Act} (config : HistogramConfig) (created : Time) (sampler : Option σ)
    (hroom : (acts ++ [a]).countP Act.counts < 2 ^ 63) :
    Stepped (run config created sampler acts) a (run config created sampler (acts ++ [a]))
      ((run config created sampler acts).events a) := by
  rw [List.countP_append] at hroom
  have hbefore : acts.countP Act.counts < 2 ^ 63 := by omega
  obtain ⟨hs,hc⟩ := settled_run config created sampler hbefore
  rw [run_snoc]
  exact stepped hs (by omega)

/-- What every action preserves holds after every run. -/
theorem run_preserves {P : Course σ → Prop} (hroom : acts.countP Act.counts < 2 ^ 63)
    (hstart : P { histogram := new config created sampler })
    (hstep : ∀ ⦃c a c' events⦄, a ∈ acts → Stepped c a c' events → P c → P c') :
    P (run config created sampler acts) := by
  induction acts using List.reverseRecOn with
  | nil => exact hstart
  | append_singleton acts a ih =>
    have hbefore := ih (room_left hroom) fun _ _ _ _ hm => hstep (List.mem_append_left _ hm)
    exact hstep (by simp) (stepped_run config created sampler hroom) hbefore

end Course

/-- An invariant that ignores the buffer and the sampler. -/
def Blind (Inv : Histogram σ → List Float → Prop) : Prop :=
  ∀ ⦃h vs⦄ b s, Inv h vs → Inv { h with buffer := b, sampler := s } vs

theorem Course.run_invariant (Inv : Histogram σ → List Float → Prop) {allowed : Float → Prop}
    (config : HistogramConfig) (created : Time) (sampler : Option σ) {acts : List Act}
    (hblind : Blind Inv) (hnew : Inv (new config created sampler) [])
    (hrecord : ∀ ⦃h vs⦄ now v, Inv h vs → v.isNaN = false → allowed v →
      Inv (h.record now v).1 (remember vs v (h.record now v).2))
    (hroom : acts.countP Act.counts < 2 ^ 63)
    (hval : ∀ now v tag, Act.observe now v tag ∈ acts → v.isNaN = false → allowed v) :
    Settled (run config created sampler acts).histogram ∧
      Inv (run config created sampler acts).histogram (run config created sampler acts).since := by
  refine ⟨(settled_run config created sampler hroom).1, ?_⟩
  refine run_preserves (P := fun c => Inv c.histogram c.since) hroom hnew ?_
  intro c a c' events hm hstep hi
  cases hstep with
  | idle ha hq hb => exact hblind _ _ hi
  | @recorded now v b tag hv hq hb =>
    have hi' := hrecord now v hi hv (hval now v tag hm hv)
    exact hblind (h := (c.histogram.record now v).1) b _ hi'

/-- An invariant of applying, shrinking and starting over is one of recording. -/
theorem record_invariant {Inv : Histogram σ → List Float → Prop} {h : Histogram σ} {vs : List Float}
    {v : Float} (now : Time) (happly : ∀ ⦃h vs⦄, Inv h vs → Inv (h.apply v).1 (vs ++ [v]))
    (hshrink : ∀ ⦃h vs n n' c⦄, Inv h vs → h.nativePart? = some (n, c) →
      (n.widen? c.maxZeroThreshold = some n' ∨ n.halve? = some n') →
      Inv { h with native := some n' } vs)
    (hreset : ∀ ⦃h vs⦄, Inv h vs → Inv (h.reset now) []) (hi : Inv h vs) :
    Inv (h.record now v).1 (remember vs v (h.record now v).2) := by
  have hr := recorded now v h
  generalize h.record now v = r at hr ⊢
  cases hr with
  | plain hu => exact happly hi
  | shrunk hn hs hw he =>
    rw [remember, if_neg]
    · exact hshrink (happly hi) hn hw
    · rw [List.any_eq_true]
      rintro ⟨e, hm, ht⟩
      rw [he e hm] at ht
      cases ht
  | reset hn => exact happly (hreset (happly hi))

end Metering.Histogram
