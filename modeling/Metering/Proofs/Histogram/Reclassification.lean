import Metering.Proofs.Histogram.Accepted
import Metering.Proofs.Histogram.Course
import Metering.Proofs.Native.Classification

/-! # Native buckets over a run

Whatever shrinking and starting over a run brings about, the native state of a histogram is the
classification of the values since the last reset.
-/
namespace Metering
open Binary64 Native

theorem NativeConfig.Accepted.sound {c : NativeConfig} (h : c.Accepted) : c.fresh.Sound where
  coarsest := h.coarsest
  finest := h.finest
  threshold := h.nonneg
  positive := Buckets.tidy_nil
  negative := Buckets.tidy_nil
  number := rfl
  positive_keys := fun _ hk => nomatch hk
  negative_keys := fun _ hk => nomatch hk

theorem NativeConfig.Accepted.filed {c : NativeConfig} (h : c.Accepted) : Filed [] c.fresh where
  toSound := h.sound
  threshold_number := h.number
  numbers := fun _ hv => nomatch hv
  positive_counts := List.Perm.refl _
  negative_counts := List.Perm.refl _

theorem NativeConfig.Accepted.classified {c : NativeConfig} (h : c.Accepted) :
    Classified c.minZeroThreshold [] c.fresh where
  toFiled := h.filed
  least_number := h.number
  raised := le_refl _
  values := fun _ hv => nomatch hv
  counted := rfl

namespace Histogram

variable {σ : Type} [Sampler σ]
variable {h : Histogram σ} {c : NativeConfig} {v : Float}

def Reclassified (c : NativeConfig) (h : Histogram σ) (vs : List Float) : Prop :=
  h.config.native = some c ∧ ∃ n, h.native = some n ∧ Classified c.minZeroThreshold vs n

theorem reclassified_record {vs : List Float} (hc : c.Accepted) (now : Time)
    (h0 : Reclassified c h vs) (hv : Plain c.minZeroThreshold v) :
    Reclassified c (h.record now v).1 (remember vs v (h.record now v).2) := by
  refine record_invariant now ?_ ?_ ?_ h0
  · rintro h vs ⟨hcfg,n,hn,hcl⟩
    exact ⟨hcfg, _, (native_apply hn).1, hcl.observe hv⟩
  · rintro h vs m m' c' ⟨hcfg,n,hn,hcl⟩ hpart hw
    rw [nativePart?_eq_some.mpr ⟨hn, hcfg⟩] at hpart
    cases hpart
    refine ⟨hcfg, m', rfl, ?_⟩
    rcases hw with hw | hh
    · exact hcl.widen hw
    · exact hcl.halve hh
  · rintro h vs ⟨hcfg,n,hn,hcl⟩
    exact ⟨hcfg, c.fresh, native_reset hcfg now, hc.classified⟩

theorem reclassified_run {config : HistogramConfig} (hacc : c.Accepted) (hc : config.native = some c) (created : Time)
    (sampler : Option σ) {acts : List Act} (hroom : acts.countP Act.counts < 2 ^ 63)
    (hval : ∀ now v tag, Act.observe now v tag ∈ acts → v.isNaN = false → Plain c.minZeroThreshold v) :
    Settled (Course.run config created sampler acts).histogram ∧
      Reclassified c (Course.run config created sampler acts).histogram (Course.run config created sampler acts).since :=
  Course.run_invariant (Reclassified c) config created sampler (fun _ _ _ _ hi => hi)
    ⟨hc, c.fresh, native_new hc created sampler, hacc.classified⟩
    (fun _ _ now _ hi _ hv => reclassified_record hacc now hi hv) hroom hval

/-- After any run the native buckets are the classification of the values since the last reset
under the present schema and threshold, and their number is kept right. -/
theorem native_eq_classify {o : HistogramOptions} {config : HistogramConfig} {c : NativeConfig}
    (ho : o.config = .ok config) (hc : config.native = some c) (created : Time)
    (sampler : Option σ) {acts : List Act} (hroom : acts.countP Act.counts < 2 ^ 63)
    (hval : ∀ now v tag, Act.observe now v tag ∈ acts → v.isNaN = false → Plain c.minZeroThreshold v) :
    ∃ s, (Course.run config created sampler acts).histogram.collect.2.native = some s ∧
      s = classify s.schema s.zeroThreshold (Course.run config created sampler acts).since ∧
      (Course.run config created sampler acts).histogram.native.map Native.State.bucketNumber =
        some s.bucketNumber := by
  have hacc := (HistogramOptions.config_accepted ho).native c hc
  obtain ⟨hs,_,n,hn,hcl⟩ := reclassified_run hacc hc created sampler hroom hval
  obtain ⟨b,_,_,heq⟩ := collect_settled hs
  refine ⟨nativeSnapshot n, ?_, hcl.eq_classify, ?_⟩
  · rw [heq]
    exact congrArg (Option.map nativeSnapshot) hn
  · rw [hn]
    exact congrArg some hcl.number

/-- Three values on both sides, each in a bucket of its own until the resolution is halved twice. -/
def tightRun : List Act :=
  [.observe 0 1 none, .observe 1 4 none, .collect, .observe 2 (-3) none]

theorem plain_tightRun : ∀ now v tag, Act.observe now v tag ∈ tightRun → v.isNaN = false →
    Plain HistogramOptions.tightNative.minZeroThreshold v := by
  intro now v tag hm hv
  refine ⟨hv, .inr ?_⟩
  simp only [tightRun, List.mem_cons, Act.observe.injEq, reduceCtorEq, List.not_mem_nil, or_false,
    false_or] at hm
  rcases hm with ⟨_, rfl, _⟩ | ⟨_, rfl, _⟩ | ⟨_, rfl, _⟩ <;> rfl

theorem room_tightRun : tightRun.countP Act.counts < 2 ^ 63 := by decide +kernel

theorem native_eq_classify_tight :
    (Course.run HistogramOptions.tightConfig 0 unsampled tightRun).since = [1, 4, -3] ∧
      ∃ s, (Course.run HistogramOptions.tightConfig 0 unsampled tightRun).histogram.collect.2.native = some s ∧
        s = classify s.schema s.zeroThreshold
          (Course.run HistogramOptions.tightConfig 0 unsampled tightRun).since ∧
        (Course.run HistogramOptions.tightConfig 0 unsampled tightRun).histogram.native.map
          Native.State.bucketNumber = some s.bucketNumber :=
  ⟨rfl,
    native_eq_classify HistogramOptions.config_tight rfl 0 unsampled room_tightRun plain_tightRun⟩

end Histogram
end Metering
