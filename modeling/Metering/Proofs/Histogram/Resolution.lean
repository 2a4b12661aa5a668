import Metering.Proofs.Histogram.Reclassification
import Metering.Proofs.Native.Threshold

/-! # Resolution over a run

Where the zero bucket cannot be widened only halving shrinks a histogram, and a schema is given up
only while the values occupy more buckets under it than the limit allows. Later values occupy no
fewer, so that this stays true until the histogram starts over.
-/
namespace Metering
open Binary64 Native

/-- The values occupy more buckets than the limit one schema above the present one, if that is
below the initial one. -/
structure Forced (c : NativeConfig) (vs : List Float) (s : State) : Prop extends Filed vs s where
  unmoved : s.zeroThreshold = c.minZeroThreshold
  forced : s.schema < c.initialSchema →
    c.maxBuckets < (classify (s.schema + 1) c.minZeroThreshold vs).bucketNumber

variable {c : NativeConfig} {s s' : State} {v : Float} {vs : List Float}

theorem NativeConfig.Accepted.forced (hc : c.Accepted) : Forced c [] c.fresh where
  toFiled := hc.filed
  unmoved := rfl
  forced := fun hlt => absurd hlt (Int.lt_irrefl _)

/-- A value that is counted adds a bucket or none, under every schema. -/
theorem Forced.observe (h : Forced c vs s) (hv : v.isNaN = false) : Forced c (vs ++ [v]) (s.observe v).1 where
  toFiled := h.toFiled.observe hv
  unmoved := by rw [State.zeroThreshold_observe, h.unmoved]
  forced := by
    intro hlt
    rw [State.schema_observe] at hlt ⊢
    have hmore := bucketNumber_classify_le (s.schema + 1) c.minZeroThreshold (List.subset_append_left vs [v])
    exact (h.forced hlt).trans_le hmore

/-- What is past the limit before a halving is past it one schema above the halved one. -/
theorem Forced.halve (h : Forced c vs s) (hover : Histogram.overBudget c s = true) (hh : s.halve? = some s') :
    Forced c vs s' := by
  have hfiled := h.toFiled.halve hh
  have hnum := h.toFiled.bucketNumber_eq
  have hmore := (Histogram.overBudget_iff.mp hover).2
  rw [hnum, h.unmoved] at hmore
  obtain ⟨_,rfl⟩ := State.halve?_eq_some hh
  refine ⟨hfiled, h.unmoved, ?_⟩
  intro _
  dsimp only
  rwa [Int.sub_add_cancel]

theorem Forced.widen?_eq_none (h : Forced c vs s) (heq : (c.minZeroThreshold == c.maxZeroThreshold) = true) :
    s.widen? c.maxZeroThreshold = none := by
  obtain ⟨hmin,hmax⟩ := isNaN_of_beq heq
  apply State.widen?_eq_none
  rw [h.unmoved, le_iff_rank hmax hmin]
  exact ((beq_iff_rank hmin hmax).mp heq).ge

namespace Histogram

variable {σ : Type} [Sampler σ]
variable {h : Histogram σ}

def Unwasted (c : NativeConfig) (h : Histogram σ) (vs : List Float) : Prop :=
  h.config.native = some c ∧ ∃ n, h.native = some n ∧ Forced c vs n

theorem unwasted_record (hc : c.Accepted) (heq : (c.minZeroThreshold == c.maxZeroThreshold) = true)
    (now : Time) (hv : v.isNaN = false) (h0 : Unwasted c h vs) :
    Unwasted c (h.record now v).1 (remember vs v (h.record now v).2) := by
  obtain ⟨hcfg,n,hn,hf⟩ := h0
  obtain ⟨hn1,_⟩ := native_apply (v := v) hn
  have hpart : (h.apply v).1.nativePart? = some ((n.observe v).1, c) := nativePart?_eq_some.mpr ⟨hn1, hcfg⟩
  have hfv := hf.observe hv
  cases hu : (h.apply v).1.upkeep? now (h.apply v).2 with
  | none =>
    rw [remember_of_ne_reset (by simp [hu]), record_of_none hu]
    exact ⟨hcfg, _, hn1, hfv⟩
  | some u =>
    cases u with
    | shrink =>
      obtain ⟨_,_,hs,hover⟩ := (upkeep?_eq_shrink_iff hpart).mp hu
      rcases shrink_cases hpart hs [] with ⟨m,hw,_⟩ | ⟨m,_,_,hh,_,hrec⟩
      · rw [hfv.widen?_eq_none heq] at hw
        cases hw
      · rw [remember_of_ne_reset (by simp [hu]), record_of_shrink hu, hrec]
        exact ⟨hcfg, m, rfl, hfv.halve hover hh⟩
    | reset =>
      have hfresh := native_reset (h := (h.apply v).1) hcfg now
      rw [remember_of_reset hu, record_of_reset hu]
      exact ⟨hcfg, _, (native_apply hfresh).1, hc.forced.observe hv⟩

/-- With equal thresholds a run leaves the resolution below the initial one only if the values since
the last reset exceed the limit one step finer. -/
theorem maxBuckets_lt_of_coarsened {o : HistogramOptions} {config : HistogramConfig} (ho : o.config = .ok config)
    (hc : config.native = some c) (heq : (c.minZeroThreshold == c.maxZeroThreshold) = true) (created : Time)
    (sampler : Option σ) {acts : List Act} (hroom : acts.countP Act.counts < 2 ^ 63) :
    ∃ s, (Course.run config created sampler acts).histogram.collect.2.native = some s ∧
      (s.schema < c.initialSchema → c.maxBuckets <
        (classify (s.schema + 1) c.minZeroThreshold (Course.run config created sampler acts).since).bucketNumber) := by
  have hacc := (HistogramOptions.config_accepted ho).native c hc
  obtain ⟨hs,_,n,hn,hf⟩ := Course.run_invariant (Unwasted c) config created sampler (fun _ _ _ _ hi => hi)
    ⟨hc, c.fresh, native_new hc created sampler, hacc.forced⟩
    (fun _ _ now _ hi hv _ => unwasted_record hacc heq now hv hi) hroom (fun _ _ _ _ _ => trivial)
  obtain ⟨b,_,_,hcollect⟩ := collect_settled hs
  refine ⟨nativeSnapshot n, ?_, hf.forced⟩
  rw [hcollect]
  exact congrArg (Option.map nativeSnapshot) hn

/-- The three values of the run need two halvings, and still occupy two buckets before the second. -/
theorem maxBuckets_lt_of_coarsened_tight :
    (Course.run HistogramOptions.tightConfig 0 unsampled tightRun).histogram.collect.2.native.map
        NativeSnapshot.schema = some (-2) ∧
      1 < (classify (-1) defaultZeroThreshold
        (Course.run HistogramOptions.tightConfig 0 unsampled tightRun).since).bucketNumber := by
  have hschema : (Course.run HistogramOptions.tightConfig 0 unsampled tightRun).histogram.collect.2.native.map
      NativeSnapshot.schema = some (-2) := by decide +kernel
  have heq : (defaultZeroThreshold == defaultZeroThreshold) = true := rfl
  refine ⟨hschema, ?_⟩
  obtain ⟨s,hs,hlt⟩ := maxBuckets_lt_of_coarsened HistogramOptions.config_tight rfl heq 0 unsampled room_tightRun
  rw [hs, Option.map_some, Option.some.injEq] at hschema
  have hcoarse : s.schema < HistogramOptions.tightNative.initialSchema := by
    rw [hschema]
    decide
  have hmore := hlt hcoarse
  rwa [hschema] at hmore

end Histogram
end Metering
