import Metering.Proofs.Histogram.Lasting
import Metering.Proofs.Summary.Queries
import Metering.Ranked

/-! # Summaries beside histograms

A summary and a histogram that never starts over keep the same count and sum of the same values, though
only one of them has upkeep. The estimator of a summary hears of every number and answers last.
-/
namespace Metering
open Binary64 (infinity nan)

namespace SummaryOptions

theorem check_eq_ok {q checked : Quantile} (h : q.check = .ok checked) : checked = q := by
  unfold Quantile.check at h
  split at h
  · cases h
  · split at h
    · cases h
    · exact (Except.ok.inj h).symm

theorem mapM_check {qs checked : List Quantile} (h : qs.mapM Quantile.check = .ok checked) : checked = qs := by
  induction qs generalizing checked with
  | nil => exact (Except.ok.inj h).symm
  | cons q qs ih =>
    rw [List.mapM_cons] at h
    cases hq : q.check with
    | error e =>
      rw [hq] at h
      cases h
    | ok first =>
      cases hqs : qs.mapM Quantile.check with
      | error e =>
        rw [hq, hqs] at h
        cases h
      | ok rest =>
        rw [hq, hqs] at h
        rw [← Except.ok.inj h, check_eq_ok hq, ih hqs]

theorem quantiles_of_checked {o : SummaryOptions} {hasEstimator : Bool} {quantiles : List Quantile}
    (h : o.checked hasEstimator = .ok quantiles) :
    quantiles = o.quantiles ∧ (o.quantiles ≠ [] → hasEstimator = true) := by
  unfold checked at h
  cases hqs : o.quantiles.mapM Quantile.check with
  | error e =>
    rw [hqs] at h
    cases h
  | ok found =>
    have hfound := mapM_check hqs
    subst hfound
    simp only [hqs, bind, Except.bind, pure, Except.pure, throw, throwThe, MonadExceptOf.throw] at h
    split at h
    · cases h
    · rename_i hneeded
      refine ⟨(Except.ok.inj h).symm, fun hne => ?_⟩
      simpa [hne] using hneeded

end SummaryOptions

def Histogram.Act.plain : Histogram.Act → Summary.Act
  | .observe _ v _ => .observe v
  | .collect => .collect

theorem values_plain (acts : List Histogram.Act) :
    Summary.values (acts.map Histogram.Act.plain) = Histogram.values acts := by
  rw [Summary.values, List.filterMap_map]
  refine List.filterMap_congr fun a _ => ?_
  cases a <;> rfl

theorem countP_plain (acts : List Histogram.Act) :
    (acts.map Histogram.Act.plain).countP Summary.Act.counts = acts.countP Histogram.Act.counts := by
  rw [List.countP_map]
  refine List.countP_congr fun a _ => ?_
  cases a <;> rfl

open Summary (Query serve asking queries values)

/-- A summary reports the count and sum of any histogram that never starts over and observed the same
values. Its estimator was given every number among them, once and in order, and answers for each
configured quantile in turn. -/
theorem accounts_alike (ε : Type) [Estimator ε] {o : SummaryOptions} {hasEstimator : Bool} {quantiles : List Quantile}
    (ho : o.checked hasEstimator = .ok quantiles) (created : Time) {acts : List Summary.Act}
    (hroom : acts.countP Summary.Act.counts < 2 ^ 63) :
    let s : Summary ε := reached Summary.call acts (Summary.new quantiles hasEstimator created)
    ∃ snapshot, s.collect.2 = .ok snapshot ∧
      (∀ (p : HistogramOptions) (config : HistogramConfig), p.resetAfter = 0 → p.config = .ok config →
        ∀ (σ : Type) [Sampler σ] (made : Time) (sampler : Option σ) (calls : List Histogram.Act), calls.map Histogram.Act.plain = acts →
          let r := (Histogram.Course.run config made sampler calls).report
          r.count = snapshot.count ∧ r.sum = snapshot.sum) ∧
      (queries o.quantiles acts).filterMap Query.inserted? = values acts ∧
      (o.quantiles ≠ [] →
        s.estimator = some (reached serve (queries o.quantiles acts) (Estimator.make o.quantiles))) ∧
      ∀ i : Nat, snapshot.quantiles[i]? = o.quantiles[i]?.map fun q =>
        ⟨q.quantile, (Estimator.get q.quantile (reached serve
          (queries o.quantiles acts ++ asking (o.quantiles.take i)) (Estimator.make o.quantiles : ε))).1⟩ := by
  intro s
  obtain ⟨rfl,hneeded⟩ := SummaryOptions.quantiles_of_checked ho
  have hnew : Summary.Settled (Summary.new o.quantiles hasEstimator created : Summary ε) :=
    Summary.settled_new o.quantiles hasEstimator created
  have hroom' : 0 + acts.countP Summary.Act.counts < 2 ^ 63 := (Nat.zero_add _).symm ▸ hroom
  have htold : Summary.Told acts (Summary.new o.quantiles hasEstimator created) s := Summary.told_run hnew hroom'
  obtain ⟨_,_,_,hcollect⟩ := Summary.collect_settled (Summary.settled_run hnew hroom').1
  have hestimator (hne : o.quantiles ≠ []) :
      s.estimator = some (reached serve (queries o.quantiles acts) (Estimator.make o.quantiles)) := by
    rw [htold.estimator]
    simp [Summary.new, hneeded hne, hne]
  refine ⟨s.snapshot, congrArg Prod.snd hcollect, ?_, Summary.inserted_queries o.quantiles acts, hestimator, ?_⟩
  · intro p config hzero hp σ _ made sampler calls hcalls
    subst hcalls
    rw [countP_plain] at hroom
    obtain ⟨hcount,hsum,_⟩ := (HistogramOptions.lasting_of_resetAfter hp hzero).report_run
      (HistogramOptions.config_accepted hp) made sampler hroom
    have hcount' := htold.count
    have hsum' := htold.sum
    rw [values_plain] at hcount' hsum'
    exact ⟨hcount.trans (hcount'.trans (Nat.zero_add _)).symm, hsum.trans hsum'.symm⟩
  · intro i
    -- Without quantiles there is no estimator, and nothing is asked.
    by_cases hne : o.quantiles = []
    · have hnone : s.estimator = none := by
        rw [htold.estimator]
        simp [Summary.new, hne]
      simp [Summary.snapshot, Summary.asked, hnone, hne]
    · have hasked := Summary.getElem?_ask o.quantiles
        (reached serve (queries o.quantiles acts) (Estimator.make o.quantiles) : ε) i
      rw [Summary.snapshot, Summary.asked, hestimator hne, htold.quantiles, reached_append]
      exact hasked

def medianOptions : SummaryOptions :=
  { quantiles := [⟨0.5, 0.05⟩, ⟨1, 0⟩] }

def watchedValues : List Histogram.Act :=
  [.observe 0 1 none, .observe 1 nan none, .collect, .observe 2 infinity none, .observe 3 4 none]

theorem accounts_alike_median :
    let s : Summary Ranked := reached Summary.call (watchedValues.map Histogram.Act.plain)
      (Summary.new medianOptions.quantiles true 0)
    let r := (Histogram.Course.run HistogramOptions.tightConfig 0 Histogram.unsampled watchedValues).report
    ∃ snapshot, s.collect.2 = .ok snapshot ∧ r.count = snapshot.count ∧ r.sum = snapshot.sum ∧
      s.estimator = some { values := #[1, infinity, 4] } ∧
      snapshot.quantiles[1]?.map QuantileValue.quantile = some 1 ∧ snapshot.quantiles[2]? = none := by
  intro s r
  have ho : medianOptions.checked true = .ok medianOptions.quantiles := rfl
  have hroom : (watchedValues.map Histogram.Act.plain).countP Summary.Act.counts < 2 ^ 63 := by decide +kernel
  obtain ⟨snapshot,hcollect,halike,_,hestimator,hquantiles⟩ := accounts_alike Ranked ho 0 hroom
  obtain ⟨hcount,hsum⟩ := halike HistogramOptions.tightOptions HistogramOptions.tightConfig rfl
    HistogramOptions.config_tight Recorder 0 Histogram.unsampled watchedValues rfl
  refine ⟨snapshot, hcollect, hcount, hsum, (hestimator (by simp [medianOptions])).trans rfl, ?_, hquantiles 2⟩
  rw [hquantiles 1]
  rfl

end Metering
