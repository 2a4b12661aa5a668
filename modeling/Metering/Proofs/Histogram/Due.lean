import Metering.Proofs.Histogram.Budget
import Metering.Proofs.Histogram.OneWay

/-! # Resets that are due

Above the lowest schema a histogram that was shrunk, or that a value takes past its limit, starts over
with that value as soon as the reset duration has passed. A histogram that is configured at the lowest
schema cannot shrink, and does not start over either.
-/
namespace Metering.Histogram
open Native (minSchema)
open HistogramOptions (restlessConfig config_restless coarsestOptions coarsestNative coarsestConfig config_coarsest)

variable {σ : Type} [Sampler σ]
variable {config : HistogramConfig} {c : NativeConfig} {h : Histogram σ} {n : Native.State} {now : Time} {v : Float}

/-- A state at the initial schema passes the limit only by the bucket that the value creates. -/
theorem crowded_of_over (hfine : minSchema < c.initialSchema) (hb : Budgeted c n)
    (hs : ¬ n.schema < c.initialSchema) (ho : overBudget c (n.observe v).1 = true) :
    Crowded (n.observe v).2 c (n.observe v).1 := by
  have hschema := Native.State.schema_observe v n
  have hnum := Native.State.bucketNumber_observe v n
  have hle := hb.lowered
  have hwithin := hb.within (by omega)
  have hmore := (overBudget_iff.mp ho).2
  refine ⟨?_, by omega, ho⟩
  cases hcreated : (n.observe v).2 with
  | true => rfl
  | false =>
    rw [hcreated, if_neg Bool.false_ne_true] at hnum
    omega

omit [Sampler σ] in
theorem upkeep?_of_due (hfine : minSchema < c.initialSchema) (hcfg : h.config.native = some c) (hn : h.native = some n)
    (hb : c.maxBuckets ≠ 0 → Budgeted c n) (hdue : h.resetDue now c = true)
    (hcause : n.schema < c.initialSchema ∨ overBudget c (n.observe v).1 = true) :
    (h.apply v).1.upkeep? now (h.apply v).2 = some .reset := by
  obtain ⟨hn1,hcreated⟩ := native_apply (v := v) hn
  have hpart : (h.apply v).1.nativePart? = some ((n.observe v).1, c) := nativePart?_eq_some.mpr ⟨hn1, hcfg⟩
  refine (upkeep?_eq_reset_iff hpart).mpr ⟨hdue, ?_⟩
  rw [hcreated, Native.State.schema_observe]
  by_cases hs : n.schema < c.initialSchema
  · exact .inl hs
  · have ho := hcause.resolve_left hs
    exact .inr (crowded_of_over hfine (hb (overBudget_iff.mp ho).1) hs ho)

theorem reset_apply (hcfg : h.config.native = some c) (now : Time) (v : Float) :
    let g := ((h.reset now).apply v).1
    g.count = 1 ∧ g.sum = 0 + v ∧ g.created = now ∧ g.native = some (c.fresh.observe v).1 :=
  ⟨rfl, rfl, rfl, (native_apply (native_reset hcfg now)).1⟩

/-- Unless the initial schema is the lowest, a value that finds the reset duration passed and the
histogram shrunk, or that takes it past its limit, resets it and is all that is counted afterwards. -/
theorem reset_when_due {o : HistogramOptions} (ho : o.config = .ok config) (hc : config.native = some c)
    (hfine : minSchema < c.initialSchema) (hD : c.resetAfter ≠ 0) (created : Time) (sampler : Option σ)
    {acts : List Act} (tag : Option Tag) (hv : v.isNaN = false)
    (hroom : (acts ++ [Act.observe now v tag]).countP Act.counts < 2 ^ 63)
    (hdue : c.resetAfter ≤ now - (Course.runResets config created sampler acts).getLastD created) :
    ∃ n, (Course.run config created sampler acts).histogram.native = some n ∧
      (n.schema < c.initialSchema ∨ c.maxBuckets ≠ 0 ∧ c.maxBuckets < (n.observe v).1.populated →
        (Course.run config created sampler acts).events (.observe now v tag) = [.reset] ∧
        let r := (Course.run config created sampler (acts ++ [.observe now v tag])).report
        r.count = 1 ∧ r.sum = 0 + v ∧ r.created = now ∧
          ∃ s ∈ r.native, s.schema = c.initialSchema ∧ s.zeroThreshold = c.minZeroThreshold) := by
  have hacc := HistogramOptions.config_accepted ho
  have hstep := Course.stepped_run config created sampler hroom
  have hreport := Course.report_run config created sampler hroom
  have hbefore := Course.room_left hroom
  obtain ⟨hcfg,hcreated,_⟩ := Course.timed_run config created sampler hbefore
  obtain ⟨n,hn,hbound,_⟩ := (ranged_run hacc created sampler hbefore).ranged c hc
  have hbudget : c.maxBuckets ≠ 0 → Budgeted c n := by
    intro hm
    obtain ⟨_,m,hm',hb⟩ := onBudget_run (hacc.native c hc) hc hm created sampler hbefore
    rw [hn] at hm'
    cases hm'
    exact hb
  have hdue' := resetDue_iff.mpr ⟨hD, hcreated ▸ hdue⟩
  refine ⟨n, hn, ?_⟩
  intro hcause
  rw [← (hbound.toSound.observe v).bucketNumber_eq_populated, ← overBudget_iff] at hcause
  have hu := upkeep?_of_due hfine ((congrArg HistogramConfig.native hcfg).trans hc) hn hbudget hdue' hcause
  -- From here on it is about the last step alone.
  generalize Course.run config created sampler (acts ++ [.observe now v tag]) = after at hstep hreport ⊢
  generalize Course.run config created sampler acts = before at hstep hu hcfg ⊢
  generalize before.events (.observe now v tag) = events at hstep ⊢
  cases hstep with
  | idle ha hq hb =>
    rw [Act.counts_of_number hv] at ha
    cases ha
  | recorded tag hv hq hb =>
    obtain ⟨hcount,hsum,hnow,hnative⟩ := reset_apply (h := (before.histogram.apply v).1)
      ((congrArg HistogramConfig.native hcfg).trans hc) now v
    rw [hreport, record_of_reset hu]
    refine ⟨rfl, hcount, hsum, hnow, _, Option.mem_map_of_mem nativeSnapshot hnative, ?_⟩
    exact ⟨Native.State.schema_observe v c.fresh, Native.State.zeroThreshold_observe v c.fresh⟩

theorem reset_when_due_restless :
    let r := (Course.run restlessConfig 0 unsampled (wideningRun ++ [.observe 20 6 none])).report
    r.count = 1 ∧ r.sum = 6 ∧ r.created = 20 ∧ ∃ s ∈ r.native, s.schema = 0 := by
  intro r
  have hroom : (wideningRun ++ [Act.observe 20 6 none]).countP Act.counts < 2 ^ 63 := by decide +kernel
  have hresets : Course.runResets restlessConfig 0 unsampled wideningRun = [] := by decide +kernel
  have hover : (Course.run restlessConfig 0 unsampled wideningRun).histogram.native.map
      (fun n => (n.observe 6).1.populated) = some 2 := by decide +kernel
  have hsum : (0 + 6 : Float) = 6 := rfl
  obtain ⟨n,hn,hreset⟩ := reset_when_due config_restless rfl (by decide) (by decide) 0 none none rfl hroom
    (by rw [hresets]; decide)
  rw [hn, Option.map_some, Option.some.injEq] at hover
  obtain ⟨_,hcount,hs,hnow,s,hmem,hschema,_⟩ := hreset (.inr ⟨by decide, by rw [hover]; decide⟩)
  exact ⟨hcount, hs.trans hsum, hnow, s, hmem, hschema⟩

omit [Sampler σ] in
/-- At the lowest schema nothing calls for a reset if that is the initial one. -/
theorem upkeep?_ne_reset_of_coarsest (h0 : Ranged config h) (hc : config.native = some c)
    (hlow : c.initialSchema = minSchema) (now : Time) (created : Bool) : h.upkeep? now created ≠ some .reset := by
  intro hu
  obtain ⟨n,c',hp,_⟩ := upkeep?_eq_some hu
  obtain ⟨hb,hs⟩ := h0.part hp
  have hcfg := (nativePart?_eq_some.mp hp).2
  rw [h0.native_config hc] at hcfg
  cases hcfg
  have hcoarsest := hb.coarsest
  rcases ((upkeep?_eq_reset_iff hp).mp hu).2 with hlt | hcrowded
  · omega
  · have := hcrowded.2.1
    omega

theorem runResets_eq_nil_of_coarsest (hacc : config.Accepted) (hc : config.native = some c)
    (hlow : c.initialSchema = minSchema) (created : Time) (sampler : Option σ) {acts : List Act}
    (hroom : acts.countP Act.counts < 2 ^ 63) : Course.runResets config created sampler acts = [] := by
  induction acts using List.reverseRecOn with
  | nil => rfl
  | append_singleton acts a ih =>
    have hstep := Course.stepped_run config created sampler hroom
    have hbefore := Course.room_left hroom
    have h0 := ranged_run hacc created sampler hbefore
    rw [Course.runResets_append, ih hbefore, Course.resets_singleton, List.nil_append]
    generalize Course.run config created sampler (acts ++ [a]) = after at hstep
    generalize Course.run config created sampler acts = before at hstep h0 ⊢
    generalize before.events a = events at hstep ⊢
    cases hstep with
    | idle ha hq hb =>
      rw [Act.reset?_nil]
      rfl
    | @recorded now v b tag hv hq hb =>
      have hne := upkeep?_ne_reset_of_coarsest (ranged_apply v h0) hc hlow now
      rw [Act.reset?, if_neg (mt any_isReset_record.mp (hne _))]
      rfl

/-- Long after the reset duration the second value takes a histogram at the lowest schema past its
limit, and both values stay. -/
theorem not_reset_when_due_coarsest :
    coarsestOptions.config = .ok coarsestConfig ∧
      coarsestNative.resetAfter ≤ 20 - (Course.runResets coarsestConfig 0 unsampled [.observe 0 1 none]).getLastD 0 ∧
      (∃ n, (Course.run coarsestConfig 0 unsampled [.observe 0 1 none]).histogram.native = some n ∧
        coarsestNative.maxBuckets < (n.observe 4).1.populated) ∧
      (Course.run coarsestConfig 0 unsampled [.observe 0 1 none]).events (.observe 20 4 none) = [] ∧
      (Course.run coarsestConfig 0 unsampled [.observe 0 1 none, .observe 20 4 none]).report.count = 2 := by
  have hover : (Course.run coarsestConfig 0 unsampled [.observe 0 1 none]).histogram.native.map
      (fun n => (n.observe 4).1.populated) = some 2 := by decide +kernel
  obtain ⟨n,hn,hpopulated⟩ := Option.map_eq_some_iff.mp hover
  refine ⟨config_coarsest, by decide +kernel, ⟨n, hn, ?_⟩, by decide +kernel, by decide +kernel⟩
  rw [hpopulated]
  decide

end Metering.Histogram
