import Metering.Proofs.Native.Sound

/-! # Mirrored native states

Exchanging the buckets of the two sides commutes with everything that a native state does: the negated
value is counted on the other side, and widening and halving look at both sides alike.
-/
namespace Metering.Native
open Binary64 Buckets

namespace State

def mirror (s : State) : State :=
  { s with positive := s.negative, negative := s.positive }

variable {s : State} {v : Float}

@[simp] theorem schema_mirror (s : State) : s.mirror.schema = s.schema := rfl

@[simp] theorem zeroThreshold_mirror (s : State) : s.mirror.zeroThreshold = s.zeroThreshold := rfl

@[simp] theorem bucketNumber_mirror (s : State) : s.mirror.bucketNumber = s.bucketNumber := rfl

theorem smallestKey?_mirror (s : State) : s.mirror.smallestKey? = s.smallestKey? := by
  simp only [smallestKey?, mirror]
  cases s.positive.smallest? with
  | none => cases s.negative.smallest? <;> rfl
  | some p =>
    cases s.negative.smallest? with
    | none => rfl
    | some n => simp only [min_comm]

theorem foldIntoZero_mirror (key : Int) (s : State) :
    s.mirror.foldIntoZero key = (s.foldIntoZero key).mirror := by
  simp only [foldIntoZero, mirror, mk.injEq, true_and]
  exact ⟨Nat.add_right_comm _ _ _, congrArg (s.bucketNumber - ·) (Nat.add_comm _ _)⟩

theorem widen?_mirror (limit : Float) (s : State) :
    s.mirror.widen? limit = (s.widen? limit).map mirror := by
  simp only [widen?, smallestKey?_mirror, foldIntoZero_mirror, schema_mirror, zeroThreshold_mirror]
  split
  · rfl
  · cases s.smallestKey? with
    | none => rfl
    | some key =>
      dsimp only
      split <;> rfl

theorem halve?_mirror (s : State) : s.mirror.halve? = s.halve?.map mirror := by
  by_cases hs : s.schema ≤ minSchema
  · simp [halve?, hs]
  · simp [halve?, hs, mirror, Nat.add_comm]

theorem above_iff {t : Float} (ht : t.isNaN = false) (hv : v.isNaN = false) : t < v ↔ -v < -t := by
  rw [below_iff ht (isNaN_neg hv), neg_neg hv]

/-- The negated value is counted on the other side, in the bucket of the same index. -/
theorem Sound.observe_mirror (h : Sound s) (ht : s.zeroThreshold.isNaN = false) (hv : v.isNaN = false) :
    s.mirror.observe (-v) = ((s.observe v).1.mirror, (s.observe v).2) := by
  by_cases ha : s.zeroThreshold < v
  · have hb : ¬ s.zeroThreshold < -v := by
      intro hb
      have hp := (pos_of_above h.threshold ha).2
      have hn := (pos_of_above h.threshold hb).2
      rw [rank_neg hv] at hn
      omega
    rw [observe_above ha, observe_below (s := s.mirror) hb ((above_iff ht hv).mp ha), neg_neg hv]
    rfl
  · by_cases hb : v < -s.zeroThreshold
    · rw [observe_below ha hb, observe_above (s := s.mirror) ((below_iff ht hv).mp hb)]
      rfl
    · rw [observe_within ha hb, observe_within (s := s.mirror) (mt (below_iff ht hv).mpr hb)
        (mt (above_iff ht hv).mpr ha)]
      rfl

end State
end Metering.Native
