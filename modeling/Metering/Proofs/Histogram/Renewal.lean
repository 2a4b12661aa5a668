import Metering.Proofs.Histogram.Consistency
import Metering.Proofs.Histogram.Resets
import Metering.Proofs.Sampler

/-! # Histograms that were reset

A histogram that was reset differs from a new one in its buffer, and perhaps in its sampler. No later
report depends on these but for the exemplars; where a reset makes a sampler as good as new, the
exemplars are the same as well.
-/
namespace Metering

/-- A report without its exemplars. -/
def HistogramSnapshot.untraced (s : HistogramSnapshot) : HistogramSnapshot :=
  { s with exemplars := [] }

namespace Histogram
open HistogramOptions (restlessConfig config_restless)

variable {σ : Type} [Sampler σ]
variable {config : HistogramConfig} {h g : Histogram σ} {now : Time} {v : Float}

/-- All but the buffer and the sampler. -/
def bare (h : Histogram σ) : Histogram σ :=
  { h with buffer := {}, sampler := none }

omit [Sampler σ] in
theorem shrink_bare (h : Histogram σ) (w : List Event) :
    shrink note (h.bare, w) = ((shrink note (h, w)).1.bare, (shrink note (h, w)).2) := by
  rw [shrink_fst h]
  exact shrink_frame (g := h.bare) (h := h) rfl rfl w

/-- Recording looks at neither the buffer nor the sampler. -/
theorem record_bare (now : Time) (v : Float) (h : Histogram σ) :
    (h.bare.record now v).1.bare = (h.record now v).1.bare ∧ (h.bare.record now v).2 = (h.record now v).2 := by
  have happly : h.bare.apply v = ((h.apply v).1.bare, (h.apply v).2) := rfl
  have hsame : (h.bare.apply v).1.upkeep? now (h.bare.apply v).2 = (h.apply v).1.upkeep? now (h.apply v).2 := rfl
  cases hu : (h.apply v).1.upkeep? now (h.apply v).2 with
  | none =>
    rw [record_of_none hu, record_of_none (hsame.trans hu)]
    exact ⟨rfl, rfl⟩
  | some u =>
    cases u with
    | reset =>
      rw [record_of_reset hu, record_of_reset (hsame.trans hu)]
      exact ⟨rfl, rfl⟩
    | shrink =>
      rw [record_of_shrink hu, record_of_shrink (hsame.trans hu), happly, shrink_bare]
      exact ⟨rfl, rfl⟩

theorem sampler_record (now : Time) (v : Float) (h : Histogram σ) :
    (h.record now v).1.sampler =
      if (h.record now v).2.any Event.isReset then h.sampler.map Sampler.reset else h.sampler := by
  cases hu : (h.apply v).1.upkeep? now (h.apply v).2 with
  | none =>
    rw [record_of_none hu]
    rfl
  | some u =>
    cases u with
    | reset =>
      rw [record_of_reset hu]
      rfl
    | shrink =>
      have hno : ¬ (h.record now v).2.any Event.isReset = true := by
        rw [any_isReset_record, hu]
        exact fun he => nomatch he
      rw [if_neg hno, record_of_shrink hu, shrink_fst]
      rfl

/-- Two courses that take the same action both idle or both record the same value. -/
inductive Parallel (c d : Course σ) : Act → Course σ → List Event → Course σ → List Event → Prop
  | idle (a : Act) (b b' : Buffer) :
      Parallel c d a { c with histogram := { c.histogram with buffer := b, sampler := a.relieve c.histogram.sampler } } []
        { d with histogram := { d.histogram with buffer := b', sampler := a.relieve d.histogram.sampler } } []
  | recorded (now : Time) (v : Float) (tag : Option Tag) (b b' : Buffer) :
      Parallel c d (.observe now v tag)
        { histogram := ((c.histogram.record now v).1.withBuffer b).offer v tag
          since := remember c.since v (c.histogram.record now v).2 }
        (c.histogram.record now v).2
        { histogram := ((d.histogram.record now v).1.withBuffer b').offer v tag
          since := remember d.since v (d.histogram.record now v).2 }
        (d.histogram.record now v).2

variable {c c' d d' : Course σ} {a : Act} {e e' : List Event}

theorem Stepped.parallel (hc : Stepped c a c' e) (hd : Stepped d a d' e') : Parallel c d a c' e d' e' := by
  have hnot {now : Time} {v : Float} {tag : Option Tag} (hv : v.isNaN = false) :
      (Act.observe now v tag).counts ≠ false := by
    simp [Act.counts_of_number hv]
  cases hc with
  | @idle _ b _ hidle _ _ hs =>
    cases hd with
    | @idle _ b' _ _ _ _ hs' =>
      subst hs hs'
      exact .idle a b b'
    | recorded tag hv _ _ => exact absurd hidle (hnot hv)
  | @recorded now v b tag hv _ _ =>
    cases hd with
    | idle hidle _ _ _ => exact absurd hidle (hnot hv)
    | @recorded _ _ b' _ _ _ _ => exact .recorded now v tag b b'

theorem events_record_of_bare (hbare : h.bare = g.bare) (now : Time) (v : Float) :
    (h.record now v).2 = (g.record now v).2 := by
  rw [← (record_bare now v h).2, hbare, (record_bare now v g).2]

theorem bare_record_of_bare (hbare : h.bare = g.bare) (now : Time) (v : Float) :
    (h.record now v).1.bare = (g.record now v).1.bare := by
  rw [← (record_bare now v h).1, hbare, (record_bare now v g).1]

/-- What happens to all but the buffer and the sampler does not depend on these. -/
theorem Parallel.bare (hp : Parallel c d a c' e d' e') (hbare : c.histogram.bare = d.histogram.bare) :
    c'.histogram.bare = d'.histogram.bare ∧ e = e' := by
  cases hp with
  | idle => exact ⟨hbare, rfl⟩
  | recorded now v tag b b' => exact ⟨bare_record_of_bare hbare now v, events_record_of_bare hbare now v⟩

/-- Alike in all that is reported. -/
structure Alike (h g : Histogram σ) : Prop where
  same : h.bare = g.bare
  samplers : Sampler.Matched h.sampler g.sampler

theorem Alike.offer (ha : Alike h g) (v : Float) (tag : Option Tag) : Alike (h.offer v tag) (g.offer v tag) where
  same := ha.same
  samplers := by
    have hrange : (h.findBucket v).map h.bucketRange = (g.findBucket v).map g.bucketRange := by
      change (h.bare.findBucket v).map h.bare.bucketRange = _
      rw [ha.same]
      rfl
    rw [Histogram.offer, Histogram.offer, hrange]
    exact ha.samplers.offer v _ tag

theorem Alike.record (ha : Alike h g) (now : Time) (v : Float) : Alike (h.record now v).1 (g.record now v).1 where
  same := bare_record_of_bare ha.same now v
  samplers := by
    rw [sampler_record, sampler_record, events_record_of_bare ha.same now v]
    split
    · exact ha.samplers.reset
    · exact ha.samplers

theorem Alike.withBuffer (ha : Alike h g) (b b' : Buffer) : Alike (h.withBuffer b) (g.withBuffer b') where
  same := ha.same
  samplers := ha.samplers

theorem Alike.parallel (ha : Alike c.histogram d.histogram) (hp : Parallel c d a c' e d' e') :
    Alike c'.histogram d'.histogram := by
  cases hp with
  | idle a b b' =>
    refine ⟨ha.same, ?_⟩
    cases a with
    | observe now v tag => exact ha.samplers
    | collect => exact ha.samplers.handOver.2
  | recorded now v tag b b' => exact ((ha.record now v).withBuffer b b').offer v tag

omit [Sampler σ] in
theorem snapshot_of_bare (hbare : h.bare = g.bare) (exemplars : List Exemplar) :
    h.snapshot exemplars = g.snapshot exemplars := by
  change h.bare.snapshot exemplars = g.bare.snapshot exemplars
  rw [hbare]

omit [Sampler σ] in
theorem untraced_of_bare (hbare : h.bare = g.bare) (exemplars exemplars' : List Exemplar) :
    (h.snapshot exemplars).untraced = (g.snapshot exemplars').untraced :=
  snapshot_of_bare hbare []

theorem Alike.snapshot (ha : Alike h g) :
    h.snapshot (Sampler.handOver h.sampler).1 = g.snapshot (Sampler.handOver g.sampler).1 := by
  rw [ha.samplers.handOver.1]
  exact snapshot_of_bare ha.same _

theorem related_run {R : Histogram σ → Histogram σ → Prop}
    (hstep : ∀ {c d c' d' : Course σ} {a e e'}, Parallel c d a c' e d' e' → R c.histogram d.histogram →
      R c'.histogram d'.histogram)
    {config config' : HistogramConfig} {created created' : Time} {sampler sampler' : Option σ} {pre pre' rest : List Act}
    (hroom : (pre ++ rest).countP Act.counts < 2 ^ 63) (hroom' : (pre' ++ rest).countP Act.counts < 2 ^ 63)
    (h : R (Course.run config created sampler pre).histogram (Course.run config' created' sampler' pre').histogram) :
    R (Course.run config created sampler (pre ++ rest)).histogram
      (Course.run config' created' sampler' (pre' ++ rest)).histogram := by
  induction rest using List.reverseRecOn with
  | nil =>
    rw [List.append_nil, List.append_nil]
    exact h
  | append_singleton rest a ih =>
    rw [← List.append_assoc] at hroom hroom' ⊢
    rw [← List.append_assoc]
    have hc := Course.stepped_run config created sampler hroom
    have hd := Course.stepped_run config' created' sampler' hroom'
    exact hstep (hc.parallel hd) (ih (Course.room_left hroom) (Course.room_left hroom'))

/-- A reset leaves what a new histogram of the same configuration starts with. -/
theorem bare_reset (hcfg : h.config = config) (hsize : h.classic.size = config.bounds.size) (now : Time)
    (sampler : Option σ) : (h.reset now).bare = (new config now sampler).bare := by
  subst hcfg
  have hzero : h.classic.map (fun _ => 0) = h.config.bounds.map fun _ => 0 := by
    apply Array.ext
    · rw [Array.size_map, Array.size_map, hsize]
    · intro i hi hi'
      rw [Array.getElem_map, Array.getElem_map]
  rw [bare, bare, Histogram.reset, new, hzero]

theorem not_crowded_fresh (created : Bool) (c : NativeConfig) (v : Float) : ¬ Crowded created c (c.fresh.observe v).1 := by
  rintro ⟨_,_,ho⟩
  obtain ⟨hne,hlt⟩ := overBudget_iff.mp ho
  have hnum := Native.State.bucketNumber_observe v c.fresh
  have hzero : c.fresh.bucketNumber = 0 := rfl
  split at hnum <;> omega

omit [Sampler σ] in
/-- As long as the native state is as new, a value calls for no upkeep. -/
theorem upkeep?_fresh (hn : h.native = h.config.native.map NativeConfig.fresh) (now : Time) (v : Float) :
    (h.apply v).1.upkeep? now (h.apply v).2 = none := by
  cases hu : (h.apply v).1.upkeep? now (h.apply v).2 with
  | none => rfl
  | some u =>
    obtain ⟨n,c,hp,_⟩ := upkeep?_eq_some hu
    obtain ⟨hn',hc⟩ := nativePart?_eq_some.mp hp
    have hcfg : h.config.native = some c := hc
    rw [hcfg, Option.map_some] at hn
    rw [(native_apply hn).1] at hn'
    cases hn'
    cases u with
    | reset =>
      rcases ((upkeep?_eq_reset_iff hp).mp hu).2 with hlt | hcrowded
      · rw [Native.State.schema_observe] at hlt
        exact absurd hlt (Int.lt_irrefl _)
      · exact absurd hcrowded (not_crowded_fresh _ c v)
    | shrink => exact absurd ((upkeep?_eq_shrink_iff hp).mp hu).2 (not_crowded_fresh _ c v)

theorem Stepped.sampler_became {sampler : Option σ} (hc : Stepped c a c' e)
    (h : Sampler.Became sampler c.histogram.sampler) : Sampler.Became sampler c'.histogram.sampler := by
  cases hc with
  | @idle _ _ s _ _ _ hs =>
    change Sampler.Became sampler s
    rw [hs]
    cases a with
    | observe now v tag => exact h
    | collect => exact h.handOver
  | @recorded now v b tag _ _ _ =>
    change Sampler.Became sampler ((c.histogram.record now v).1.sampler.map _)
    rw [sampler_record]
    split
    · exact (h.after_call .reset).after_call (.offer v _ tag)
    · exact h.after_call (.offer v _ tag)

theorem sampler_run (config : HistogramConfig) (created : Time) (sampler : Option σ) {acts : List Act}
    (hroom : acts.countP Act.counts < 2 ^ 63) :
    Sampler.Became sampler (Course.run config created sampler acts).histogram.sampler :=
  Course.run_preserves (P := fun c => Sampler.Became sampler c.histogram.sampler) hroom (.refl sampler)
    fun _ _ _ _ _ hstep hs => hstep.sampler_became hs

/-- The value that resets a histogram, and a new one that observes this value. -/
theorem observed_reset {tag : Option Tag} {sampler : Option σ} (hc : Stepped c (.observe now v tag) c' e)
    (hreset : .reset ∈ e) (hd : Stepped { histogram := new config now sampler } (.observe now v tag) d' e') :
    ∃ b b', c'.histogram = ((((c.histogram.apply v).1.reset now).apply v).1.withBuffer b).offer v tag ∧
      d'.histogram = (((new config now sampler).apply v).1.withBuffer b').offer v tag := by
  cases hc.parallel hd with
  | idle => cases hreset
  | recorded _ _ _ b b' =>
    have hu := any_isReset_record.mp (List.any_eq_true.mpr ⟨_, hreset, rfl⟩)
    -- The first value of a new histogram calls for no upkeep.
    rw [record_of_reset hu, record_of_none (upkeep?_fresh (h := new config now sampler) rfl now v)]
    exact ⟨b, b', rfl, rfl⟩

theorem bare_of_reset {tag : Option Tag} {sampler : Option σ} (hcfg : c.histogram.config = config)
    (hsize : c.histogram.classic.size = config.bounds.size) (hc : Stepped c (.observe now v tag) c' e)
    (hreset : .reset ∈ e) (hd : Stepped { histogram := new config now sampler } (.observe now v tag) d' e') :
    c'.histogram.bare = d'.histogram.bare := by
  obtain ⟨b,b',hleft,hright⟩ := observed_reset hc hreset hd
  rw [hleft, hright]
  have hsame := bare_reset (h := (c.histogram.apply v).1) hcfg ((size_classic_apply v c.histogram).trans hsize) now
    sampler
  exact congrArg (fun g => (g.apply v).1.bare) hsame

theorem alike_of_reset {tag : Option Tag} {sampler : Option σ} (hrenew : ∀ s ∈ sampler, Sampler.Renewable s)
    (hbecame : Sampler.Became sampler c.histogram.sampler) (hc : Stepped c (.observe now v tag) c' e)
    (hreset : .reset ∈ e) (hd : Stepped { histogram := new config now sampler } (.observe now v tag) d' e')
    (hbare : c'.histogram.bare = d'.histogram.bare) : Alike c'.histogram d'.histogram := by
  obtain ⟨b,b',hleft,hright⟩ := observed_reset hc hreset hd
  rw [hleft, hright] at hbare ⊢
  exact Alike.offer (h := (((c.histogram.apply v).1.reset now).apply v).1.withBuffer b)
    (g := ((new config now sampler).apply v).1.withBuffer b') ⟨hbare, hbecame.matched_reset hrenew⟩ v tag

/-- After a reset every report is that of a histogram created at the time of the reset that observed the value
of the reset first. For the exemplars a reset of the sampler has to make it as good as it was at first. -/
theorem report_after_reset {o : HistogramOptions} (ho : o.config = .ok config) (created : Time) (sampler : Option σ)
    {pre rest : List Act} {tag : Option Tag} (hroom : (pre ++ .observe now v tag :: rest).countP Act.counts < 2 ^ 63)
    (hreset : .reset ∈ (Course.run config created sampler pre).events (.observe now v tag)) :
    let r := (Course.run config created sampler (pre ++ .observe now v tag :: rest)).report
    let r' := (Course.run config now sampler (.observe now v tag :: rest)).report
    r.untraced = r'.untraced ∧ ((∀ s ∈ sampler, Sampler.Renewable s) → r = r') := by
  have hacc := HistogramOptions.config_accepted ho
  have hafter := Course.room_right hroom
  have hsplit : pre ++ .observe now v tag :: rest = (pre ++ [.observe now v tag]) ++ rest := List.append_cons pre _ rest
  rw [hsplit] at hroom ⊢
  intro r r'
  have hr : r = _ := Course.report_run config created sampler hroom
  have hr' : r' = _ := Course.report_run config now sampler hafter
  -- The new histogram has seen nothing before the value.
  have hafter' : (([] ++ [Act.observe now v tag]) ++ rest).countP Act.counts < 2 ^ 63 := hafter
  obtain ⟨_,h0⟩ := accurate_run hacc created sampler (Course.room_left (Course.room_left hroom))
  have hc := Course.stepped_run config created sampler (Course.room_left hroom)
  have hd := Course.stepped_run config now sampler (Course.room_left hafter')
  have hbare := bare_of_reset h0.configured h0.sized hc hreset hd
  constructor
  · have hlater := related_run (R := fun h g => h.bare = g.bare) (fun hp h => (hp.bare h).1) hroom hafter' hbare
    rw [hr, hr']
    exact untraced_of_bare hlater _ _
  · intro hrenew
    have hbecame := sampler_run config created sampler (Course.room_left (Course.room_left hroom))
    have hlater := related_run (fun hp h => h.parallel hp) hroom hafter' (alike_of_reset hrenew hbecame hc hreset hd hbare)
    exact hr.trans (hlater.snapshot.trans hr'.symm)

def taggedActs : List Act :=
  [.observe 0 1 (some ⟨⟨[("trace", "b")]⟩, some 0⟩), .observe 1 4 none]

def renewedActs : List Act :=
  [.observe 20 6 none, .collect, .observe 21 3 (some ⟨⟨[("trace", "a")]⟩, some 21⟩)]

theorem report_after_reset_restless :
    (Course.run restlessConfig 0 (some ({} : Recorder)) (taggedActs ++ renewedActs)).report =
      (Course.run restlessConfig 20 (some ({} : Recorder)) renewedActs).report := by
  have hroom : (taggedActs ++ renewedActs).countP Act.counts < 2 ^ 63 := by decide +kernel
  have hevents : (Course.run restlessConfig 0 (some ({} : Recorder)) taggedActs).events (.observe 20 6 none) = [.reset] := by
    decide +kernel
  obtain ⟨_,hsame⟩ := report_after_reset config_restless 0 (some ({} : Recorder)) hroom
    (by rw [hevents]; exact List.mem_singleton_self _)
  refine hsame ?_
  rintro _ ⟨⟩
  exact Recorder.renewable_new

end Histogram
end Metering
