import Metering.Proofs.Histogram.Consistency
import Metering.Proofs.Histogram.Resets

/-! # Histograms that never start over

Without a reset duration a histogram remembers every number that it was ever told, and reports them all
however often it was shrunk.
-/
namespace Metering.Histogram

variable {σ : Type} [Sampler σ]

def Act.value? : Act → Option Float
  | .observe _ v _ => if v.isNaN then none else some v
  | .collect => none

def values (acts : List Act) : List Float :=
  acts.filterMap Act.value?

theorem values_snoc_of_number {v : Float} (hv : v.isNaN = false) (acts : List Act) (now : Time) (tag : Option Tag) :
    values (acts ++ [.observe now v tag]) = values acts ++ [v] := by
  have hvalue : (Act.observe now v tag).value? = some v := if_neg (hv ▸ Bool.false_ne_true)
  simp [values, hvalue]

theorem values_snoc_of_idle {a : Act} (ha : a.counts = false) (acts : List Act) :
    values (acts ++ [a]) = values acts := by
  have hvalue : a.value? = none := by
    cases a with
    | collect => rfl
    | observe now v tag => exact if_pos (Bool.not_eq_eq_eq_not.mp ha)
  simp [values, hvalue]

/-- Nothing calls for a reset without a reset duration. -/
def Lasting (config : HistogramConfig) : Prop :=
  ∀ c ∈ config.native, c.resetAfter = 0

variable {config : HistogramConfig} {acts : List Act}

theorem Lasting.remember {h : Histogram σ} (hl : Lasting h.config) (now : Time) (v : Float) (vs : List Float) :
    remember vs v (h.record now v).2 = vs ++ [v] := by
  refine remember_of_ne_reset (fun hu => ?_) vs
  obtain ⟨c,hc,hne,_⟩ := spaced_of_reset (any_isReset_record.mpr hu)
  exact hne (hl c hc)

theorem Lasting.since_run (hl : Lasting config) (created : Time) (sampler : Option σ)
    (hroom : acts.countP Act.counts < 2 ^ 63) :
    (Course.run config created sampler acts).since = values acts := by
  induction acts using List.reverseRecOn with
  | nil => rfl
  | append_singleton acts a ih =>
    have hbefore := ih (Course.room_left hroom)
    have hcfg := (Course.timed_run config created sampler (Course.room_left hroom)).1
    have hstep := Course.stepped_run config created sampler hroom
    generalize Course.run config created sampler (acts ++ [a]) = after at hstep ⊢
    generalize Course.run config created sampler acts = before at hstep hbefore hcfg
    generalize before.events a = events at hstep
    cases hstep with
    | idle ha hq hb =>
      rw [values_snoc_of_idle ha]
      exact hbefore
    | recorded tag hv hq hb =>
      rw [values_snoc_of_number hv, ← hbefore]
      exact Lasting.remember (hcfg ▸ hl) _ _ _

/-- A report counts and sums everything that the run counted, in all and up to every classic bound. -/
theorem Lasting.report_run (hl : Lasting config) (hc : config.Accepted) (created : Time) (sampler : Option σ)
    (hroom : acts.countP Act.counts < 2 ^ 63) :
    let s := (Course.run config created sampler acts).report
    s.count = (values acts).length ∧ s.sum = (values acts).foldl (· + ·) 0 ∧
      s.classic = config.bounds.toList.map fun b => ⟨b, (values acts).countP fun v => v ≤ b⟩ := by
  obtain ⟨_,h0⟩ := accurate_run hc created sampler hroom
  rw [hl.since_run created sampler hroom] at h0
  rw [Course.report_run config created sampler hroom]
  refine ⟨h0.count, h0.sum, ?_⟩
  rw [snapshot, h0.configured]
  exact h0.classic

end Metering.Histogram

namespace Metering.HistogramOptions

theorem lasting_of_resetAfter {o : HistogramOptions} {config : HistogramConfig} (ho : o.config = .ok config)
    (hzero : o.resetAfter = 0) : Histogram.Lasting config := by
  intro c hc
  obtain ⟨_,_,hnative⟩ := parts_of_config ho
  exact (checks_of_nativeConfig (hnative.trans (congrArg Except.ok hc))).2.2.2.trans hzero

end Metering.HistogramOptions
