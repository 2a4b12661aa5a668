import Metering.Proofs.Histogram.Core
import Metering.Proofs.Histogram.Lasting

/-! # Hybrid histograms

A hybrid histogram reports what a native one with the same options would and, where it never starts
over, what a classic one with the same bounds would.
-/
namespace Metering
namespace HistogramOptions

variable {o : HistogramOptions} {config : HistogramConfig}

theorem config_nativeOnly (ho : o.config = .ok config) (hc : o.classicOnly = false) :
    { o with nativeOnly := true }.config = .ok config.core := by
  obtain ⟨_,_,hnative⟩ := parts_of_config ho
  exact config_of_parts (by simp [hc]) rfl hnative

theorem classicBounds_of_given {bounds : List Float} (hn : o.nativeOnly = false) (hb : o.classicBounds = .ok bounds)
    (hne : bounds ≠ [] ∨ o.classicOnly = true) : bounds = complete (o.buckets.getD defaultBounds) := by
  rw [classicBounds, hn, if_neg Bool.false_ne_true] at hb
  dsimp only at hb
  split at hb
  next hempty =>
    cases hb
    simp_all
  next =>
    split at hb
    · cases hb
    · cases hb
      rfl

/-- What the hybrid kind accepts the classic kind accepts. -/
theorem config_classicOnly (ho : o.config = .ok config) (hn : o.nativeOnly = false) :
    ∃ classic, { o with classicOnly := true }.config = .ok classic := by
  obtain ⟨_,hb,_⟩ := parts_of_config ho
  have hnan : (o.buckets.getD defaultBounds).any Float.isNaN = false := by
    rw [classicBounds, hn, if_neg Bool.false_ne_true] at hb
    dsimp only at hb
    split at hb
    next hempty => simp_all
    next =>
      split at hb
      · cases hb
      next hany => exact Bool.eq_false_of_not_eq_true hany
  have hclassic : ({ o with classicOnly := true } : HistogramOptions).classicBounds =
      .ok (complete (o.buckets.getD defaultBounds)) := by
    simp [classicBounds, hn, hnan]
  exact ⟨_, config_of_parts (by simp [hn]) hclassic rfl⟩

end HistogramOptions

namespace Histogram
open Binary64
open HistogramOptions (tightOptions tightConfig config_tight restlessOptions restlessConfig config_restless
  parts_of_config config_nativeOnly config_classicOnly classicBounds_of_given lasting_of_resetAfter)

variable {σ : Type} [Sampler σ]

/-- The native part, the count, the sum and the time of creation of a hybrid histogram are those of the
native one. Unless it may start over its count and sum are those of every classic histogram, and its
classic buckets those of the classic histograms with the same bounds. -/
theorem hybrid_agrees {o : HistogramOptions} {config : HistogramConfig} (ho : o.config = .ok config)
    (hc : o.classicOnly = false) (hn : o.nativeOnly = false) (created : Time) (sampler sampler' : Option σ)
    (acts : List Act) :
    let r := (Course.run config created sampler acts).report
    (∃ native, { o with nativeOnly := true }.config = .ok native ∧
      let r' := (Course.run native created sampler' acts).report
      r.count = r'.count ∧ r.sum = r'.sum ∧ r.created = r'.created ∧ r.native = r'.native) ∧
    (∃ classic, { o with classicOnly := true }.config = .ok classic) ∧
    (o.resetAfter = 0 → acts.countP Act.counts < 2 ^ 63 →
      ∀ (p : HistogramOptions) (classic : HistogramConfig), p.classicOnly = true → p.config = .ok classic →
        let r' := (Course.run classic created sampler' acts).report
        r.count = r'.count ∧ r.sum = r'.sum ∧
          (config.bounds ≠ #[] → p.buckets = o.buckets → r.classic = r'.classic)) := by
  intro r
  obtain ⟨_,hbounds,_⟩ := parts_of_config ho
  refine ⟨⟨config.core, config_nativeOnly ho hc, ?_⟩, config_classicOnly ho hn, ?_⟩
  · intro r'
    have hcore : r.core = r'.core :=
      (report_core config created sampler acts).symm.trans (report_core config.core created sampler' acts)
    simp only [HistogramSnapshot.core, HistogramSnapshot.mk.injEq] at hcore
    obtain ⟨hcount,hsum,_,hnative,_,hcreated⟩ := hcore
    exact ⟨hcount, hsum, hcreated, hnative⟩
  · intro hzero hroom p classic hp hclassic r'
    -- Other options may give other bounds: count and sum are compared through the values of the run.
    obtain ⟨hkinds,hbounds',hnative'⟩ := parts_of_config hclassic
    have hlasting' : Lasting classic := by
      rw [HistogramOptions.nativeConfig_eq, hp, if_pos rfl, Except.ok.injEq] at hnative'
      simp [Lasting, ← hnative']
    obtain ⟨hcount,hsum,hbuckets⟩ := (lasting_of_resetAfter ho hzero).report_run
      (HistogramOptions.config_accepted ho) created sampler hroom
    obtain ⟨hcount',hsum',hbuckets'⟩ := hlasting'.report_run
      (HistogramOptions.config_accepted hclassic) created sampler' hroom
    refine ⟨hcount.trans hcount'.symm, hsum.trans hsum'.symm, ?_⟩
    intro hne hsame
    have hgiven := classicBounds_of_given hn hbounds (.inl (by simpa using hne))
    have hgiven' := classicBounds_of_given (by simpa [hp] using hkinds) hbounds' (.inr hp)
    rw [hsame, ← hgiven] at hgiven'
    exact hbuckets.trans (hgiven' ▸ hbuckets'.symm)

/-- The third value resets the histogram that may start over. -/
theorem hybrid_agrees_restless :
    let sampled : Option Recorder := some {}
    (∃ native, { restlessOptions with nativeOnly := true }.config = .ok native ∧
      (Course.run restlessConfig 0 sampled restlessRun).report.native =
        (Course.run native 0 unsampled restlessRun).report.native) ∧
    (∃ classic, { tightOptions with classicOnly := true }.config = .ok classic ∧
      (Course.run tightConfig 0 sampled tightRun).report.count = (Course.run classic 0 unsampled tightRun).report.count ∧
      (Course.run tightConfig 0 sampled tightRun).report.sum = (Course.run classic 0 unsampled tightRun).report.sum ∧
      (Course.run tightConfig 0 sampled tightRun).report.classic =
        (Course.run classic 0 unsampled tightRun).report.classic) := by
  intro sampled
  obtain ⟨⟨native,hnative,_,_,_,hsame⟩,_,_⟩ := hybrid_agrees config_restless rfl rfl 0 sampled none restlessRun
  obtain ⟨_,⟨classic,hclassic⟩,hagree⟩ := hybrid_agrees config_tight rfl rfl 0 sampled none tightRun
  obtain ⟨hcount,hsum,hbuckets⟩ :=
    hagree rfl room_tightRun { tightOptions with classicOnly := true } classic rfl hclassic
  have hbounds : tightConfig.bounds ≠ #[] := by simp [tightConfig]
  exact ⟨⟨native, hnative, hsame⟩, classic, hclassic, hcount, hsum, hbuckets hbounds rfl⟩

end Histogram
end Metering
