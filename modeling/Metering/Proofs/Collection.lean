import Metering.Proofs.Histogram.Calls
import Metering.Proofs.Summary.Calls
import Metering.Ranked

/-! # Collections in sequential runs

Whatever was called before, the buffer of a histogram or summary is quiet and its count is the number
of applied values, as long as that has room. No wait of the next call takes a second look, so that
every call comes to its end, and a collection does not show in any other answer.
-/
namespace Metering

/-- Between any two calls the buffer is as good as new and every wait is over at once. Inserted collections
change no other answer; the exemplars of a report are those of before where handing them over does not
show in the sampler. -/
theorem collections_unseen (ε : Type) [Estimator ε] {σ : Type} [Sampler σ] (config : HistogramConfig) (sampler : Option σ)
    (hasEstimator : Bool) (created : Time) :
    (∀ acts a, (acts ++ [a]).countP Histogram.Act.counts < 2 ^ 63 →
      let h := reached Histogram.call acts (Histogram.new config created sampler)
      h.buffer.Quiet ∧ h.buffer.appended.toNat = h.count ∧ h.prompt a = true) ∧
    (∀ marked : Marked Histogram.Act, marked.own.countP Histogram.Act.counts < 2 ^ 63 →
      let h := Histogram.new config created sampler
      let full := marked.ownAnswers (answers Histogram.call (marked.full .collect) h)
      let own := answers Histogram.call marked.own h
      full.map Histogram.Answer.untraced = own.map Histogram.Answer.untraced ∧
        ((∀ s ∈ sampler, Sampler.Steady s) → full = own)) ∧
    (∀ acts a, (acts ++ [a]).countP Summary.Act.counts < 2 ^ 63 →
      let s := reached Summary.call acts (Summary.new [] hasEstimator created : Summary ε)
      s.buffer.Quiet ∧ s.buffer.appended.toNat = s.count ∧ s.prompt a = true) ∧
    (∀ marked : Marked Summary.Act, marked.own.countP Summary.Act.counts < 2 ^ 63 →
      let s : Summary ε := Summary.new [] hasEstimator created
      marked.ownAnswers (answers Summary.call (marked.full .collect) s) = answers Summary.call marked.own s) := by
  have hsettled : Summary.Settled (Summary.new [] hasEstimator created : Summary ε) :=
    Summary.settled_new [] hasEstimator created
  refine ⟨?_, ?_, ?_, ?_⟩
  · intro acts a hroom
    rw [List.countP_append] at hroom
    have hbefore : acts.countP Histogram.Act.counts < 2 ^ 63 := by omega
    obtain ⟨hs,hc⟩ := Histogram.Course.settled_run config created sampler hbefore
    rw [Histogram.histogram_run] at hs hc
    exact ⟨hs.quiet, hs.announced, hs.prompt (by omega)⟩
  · intro marked hroom h full own
    have hs := Histogram.settled_new config created sampler
    have hsame : Histogram.Same marked.own h h := ⟨hs, hs, rfl, (Nat.zero_add _).symm ▸ hroom⟩
    refine ⟨?_, fun hsteady => ?_⟩
    · exact map_ownAnswers_full Histogram.Answer.untraced (fun _ _ _ _ => Histogram.Same.call)
        (fun _ _ _ => Histogram.Same.collect) marked hsame
    · exact ownAnswers_full (fun _ _ _ _ => Histogram.Twin.call) (fun _ _ _ => Histogram.Twin.collect) marked
        ⟨hsame, Sampler.Matched.refl sampler, hsteady⟩
  · intro acts a hroom
    rw [List.countP_append] at hroom
    have hbefore : 0 + acts.countP Summary.Act.counts < 2 ^ 63 := by omega
    obtain ⟨hs,hc⟩ := Summary.settled_run hsettled hbefore
    change _ = 0 + _ at hc
    exact ⟨hs.quiet, hs.announced, hs.prompt (by omega)⟩
  · intro marked hroom
    have hsilent : (Summary.new [] hasEstimator created : Summary ε).estimator = none := by
      simp [Summary.new]
    exact ownAnswers_full (fun _ _ _ _ => Summary.Same.call) (fun _ _ _ => Summary.Same.collect) marked
      ⟨hsettled, hsettled, rfl, hsilent, (Nat.zero_add _).symm ▸ hroom⟩

/-- Collections before, between and after three values that shrink the histogram twice. -/
def watchedRun : Marked Histogram.Act :=
  [none, some (.observe 0 1 none), none, none, some (.observe 1 4 (some ⟨⟨[("trace", "a")]⟩, some 1⟩)), some .collect,
    none, some (.observe 2 (-3) none), some .collect, none]

def watchedSummary : Marked Summary.Act :=
  [some (.observe 1), none, some .collect, some (.observe 2), none, none, some .collect]

theorem collections_unseen_watched :
    let h := Histogram.new HistogramOptions.tightConfig 0 (some ({} : Recorder))
    let s : Summary Ranked := Summary.new [] true 0
    ((reached Histogram.call watchedRun.own h).count = 3 ∧
      (reached Histogram.call watchedRun.own h).prompt (.observe 3 1 none) = true) ∧
    watchedRun.ownAnswers (answers Histogram.call (watchedRun.full .collect) h) =
      answers Histogram.call watchedRun.own h ∧
    ((reached Summary.call watchedSummary.own s).count = 2 ∧
      (reached Summary.call watchedSummary.own s).prompt .collect = true) ∧
    watchedSummary.ownAnswers (answers Summary.call (watchedSummary.full .collect) s) =
      answers Summary.call watchedSummary.own s := by
  intro h s
  obtain ⟨hquiet,hunseen,hquiet',hunseen'⟩ :=
    collections_unseen Ranked HistogramOptions.tightConfig (some ({} : Recorder)) true 0
  have hcalls := hquiet watchedRun.own (.observe 3 1 none) (by decide +kernel)
  have hcalls' := hquiet' watchedSummary.own .collect (by decide +kernel)
  have hsame := (hunseen watchedRun (by decide +kernel)).2 fun r _ => r.steady
  exact ⟨⟨by decide +kernel, hcalls.2.2⟩, hsame, ⟨by decide +kernel, hcalls'.2.2⟩,
    hunseen' watchedSummary (by decide +kernel)⟩

end Metering
