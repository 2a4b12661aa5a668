import Metering.Native.State
import Metering.Proofs.Native.Bound
import Metering.Proofs.Native.Buckets

/-! # Sound native states

Observing, widening the zero bucket and halving the resolution keep the buckets of both sides tidy,
their number right and every key the index of a value. Each of them is described by what it does to
the occurrences of the keys, to the number of buckets and to the total count.
-/
namespace Metering.Native
open Binary64 Buckets

def IsIndex (schema key : Int) : Prop :=
  ∃ v : Float, v.isNaN = false ∧ 0 < rank v ∧ bucketIndex v schema = key

namespace State

structure Sound (s : State) : Prop where
  coarsest : minSchema ≤ s.schema
  finest : s.schema ≤ maxSchema
  threshold : 0 ≤ rank s.zeroThreshold
  positive : s.positive.Tidy
  negative : s.negative.Tidy
  number : s.bucketNumber = s.positive.length + s.negative.length
  positive_keys : ∀ key ∈ s.positive.occurrences, IsIndex s.schema key
  negative_keys : ∀ key ∈ s.negative.occurrences, IsIndex s.schema key

def total (s : State) : Nat :=
  s.zeroCount + s.positive.total + s.negative.total

variable {s s' : State} {v limit t : Float} {key : Int}

theorem pos_of_above (h : 0 ≤ rank t) (hv : t < v) : v.isNaN = false ∧ 0 < rank v := by
  obtain ⟨ht,hn⟩ := isNaN_of_lt hv
  have hr := (lt_iff_rank ht hn).mp hv
  exact ⟨hn, by omega⟩

theorem below_iff (ht : t.isNaN = false) (hv : v.isNaN = false) : v < -t ↔ t < -v := by
  rw [lt_iff_rank hv (isNaN_neg ht), lt_iff_rank ht (isNaN_neg hv), rank_neg ht, rank_neg hv]
  omega

theorem pos_of_below (h : 0 ≤ rank t) (hv : v < -t) : (-v).isNaN = false ∧ 0 < rank (-v) := by
  obtain ⟨hn,ht⟩ := isNaN_of_lt hv
  exact pos_of_above h ((below_iff (isNaN_of_neg ht) hn).mp hv)

theorem observe_above (h : s.zeroThreshold < v) :
    s.observe v =
      ({ s with
         positive := s.positive.add (bucketIndex v s.schema) 1
         bucketNumber :=
          if !s.positive.contains (bucketIndex v s.schema) then s.bucketNumber + 1 else s.bucketNumber },
        !s.positive.contains (bucketIndex v s.schema)) := by
  rw [observe, if_pos h]

theorem observe_below (h : ¬ s.zeroThreshold < v) (h' : v < -s.zeroThreshold) :
    s.observe v =
      ({ s with
         negative := s.negative.add (bucketIndex (-v) s.schema) 1
         bucketNumber :=
          if !s.negative.contains (bucketIndex (-v) s.schema) then s.bucketNumber + 1 else s.bucketNumber },
        !s.negative.contains (bucketIndex (-v) s.schema)) := by
  rw [observe, if_neg h, if_pos h']

theorem observe_within (h : ¬ s.zeroThreshold < v) (h' : ¬ v < -s.zeroThreshold) :
    s.observe v = ({ s with zeroCount := s.zeroCount + 1 }, false) := by
  rw [observe, if_neg h, if_neg h']

@[simp] theorem schema_observe (v : Float) (s : State) : (s.observe v).1.schema = s.schema := by
  unfold observe
  split
  · rfl
  · split <;> rfl

@[simp] theorem zeroThreshold_observe (v : Float) (s : State) :
    (s.observe v).1.zeroThreshold = s.zeroThreshold := by
  unfold observe
  split
  · rfl
  · split <;> rfl

theorem bucketNumber_observe (v : Float) (s : State) :
    (s.observe v).1.bucketNumber = s.bucketNumber + if (s.observe v).2 then 1 else 0 := by
  unfold observe
  split
  · dsimp only
    split <;> rfl
  · split
    · dsimp only
      split <;> rfl
    · rfl

theorem total_observe (v : Float) (s : State) : (s.observe v).1.total = s.total + 1 := by
  unfold observe total
  split
  · dsimp only
    rw [total_add]
    omega
  · split <;> dsimp only
    · rw [total_add]
      omega
    · omega

theorem isIndex_add {b : Buckets} {schema : Int} (h : ∀ key ∈ b.occurrences, IsIndex schema key)
    (hk : IsIndex schema key) : ∀ k ∈ (b.add key 1).occurrences, IsIndex schema k := by
  intro k hm
  have hp := (occurrences_add key 1 b).mem_iff.mp hm
  rcases List.mem_append.mp hp with hr | hm
  · rw [(List.mem_replicate.mp hr).2]
    exact hk
  · exact h k hm

theorem length_add_one {b : Buckets} (h : b.Tidy) (key : Int) (n : Nat) :
    (if !b.contains key then n + 1 else n) + b.length = n + (b.add key 1).length := by
  rw [length_add h]
  cases b.contains key with
  | false =>
    simp only [Bool.not_false, if_true, Bool.false_eq_true, if_false]
    omega
  | true =>
    simp only [Bool.not_true, Bool.false_eq_true, if_false, if_true]
    omega

theorem Sound.observe (h : Sound s) (v : Float) : Sound (s.observe v).1 := by
  by_cases ha : s.zeroThreshold < v
  · obtain ⟨hn,hp⟩ := pos_of_above h.threshold ha
    have hl := length_add_one h.positive (bucketIndex v s.schema) s.bucketNumber
    have hnum := h.number
    rw [observe_above ha]
    exact {
      coarsest := h.coarsest
      finest := h.finest
      threshold := h.threshold
      positive := h.positive.add _ Nat.one_pos
      negative := h.negative
      number := by dsimp only; omega
      positive_keys := isIndex_add h.positive_keys ⟨v, hn, hp, rfl⟩
      negative_keys := h.negative_keys }
  · by_cases hb : v < -s.zeroThreshold
    · obtain ⟨hn,hp⟩ := pos_of_below h.threshold hb
      have hl := length_add_one h.negative (bucketIndex (-v) s.schema) s.bucketNumber
      have hnum := h.number
      rw [observe_below ha hb]
      exact {
        coarsest := h.coarsest
        finest := h.finest
        threshold := h.threshold
        positive := h.positive
        negative := h.negative.add _ Nat.one_pos
        number := by dsimp only; omega
        positive_keys := h.positive_keys
        negative_keys := isIndex_add h.negative_keys ⟨-v, hn, hp, rfl⟩ }
    · rw [observe_within ha hb]
      exact { h with }

/-- The smallest key is counted on one side, and none below it on either. -/
theorem Sound.smallestKey (h : Sound s) (hk : s.smallestKey? = some key) :
    (key ∈ s.positive.occurrences ∨ key ∈ s.negative.occurrences) ∧
      (∀ k ∈ s.positive.occurrences, key ≤ k) ∧ ∀ k ∈ s.negative.occurrences, key ≤ k := by
  rw [smallestKey?] at hk
  cases hp : s.positive.smallest? with
  | some p =>
    obtain ⟨mp,lp⟩ := smallest?_eq_some h.positive hp
    cases hn : s.negative.smallest? with
    | some n =>
      obtain ⟨mn,ln⟩ := smallest?_eq_some h.negative hn
      rw [hp, hn] at hk
      obtain rfl : min p n = key := Option.some.inj hk
      refine ⟨?_, fun k hm => ?_, fun k hm => ?_⟩
      · rcases min_choice p n with he | he
        · rw [he]
          exact .inl mp
        · rw [he]
          exact .inr mn
      · have := lp k hm
        omega
      · have := ln k hm
        omega
    | none =>
      rw [hp, hn] at hk
      obtain rfl : p = key := Option.some.inj hk
      rw [smallest?_eq_none hn]
      exact ⟨.inl mp, lp, fun k hm => nomatch hm⟩
  | none =>
    cases hn : s.negative.smallest? with
    | some n =>
      obtain ⟨mn,ln⟩ := smallest?_eq_some h.negative hn
      rw [hp, hn] at hk
      obtain rfl : n = key := Option.some.inj hk
      rw [smallest?_eq_none hp]
      exact ⟨.inr mn, fun k hm => (nomatch hm), ln⟩
    | none =>
      rw [hp, hn] at hk
      cases hk

theorem Sound.smallestKey_isIndex (h : Sound s) (hk : s.smallestKey? = some key) :
    IsIndex s.schema key := by
  rcases (h.smallestKey hk).1 with hm | hm
  · exact h.positive_keys key hm
  · exact h.negative_keys key hm

/-- The number of sides on which a key has a bucket. -/
def sides (key : Int) (s : State) : Nat :=
  (if s.positive.contains key then 1 else 0) + if s.negative.contains key then 1 else 0

theorem Sound.sides_le (h : Sound s) (key : Int) : s.sides key ≤ s.bucketNumber := by
  have hp := length_erase h.positive key
  have hn := length_erase h.negative key
  rw [h.number, sides]
  omega

theorem bucketNumber_foldIntoZero (key : Int) (s : State) :
    (s.foldIntoZero key).bucketNumber = s.bucketNumber - s.sides key := rfl

theorem Sound.foldIntoZero (h : Sound s) (key : Int) : Sound (s.foldIntoZero key) where
  coarsest := h.coarsest
  finest := h.finest
  threshold := h.threshold
  positive := h.positive.erase key
  negative := h.negative.erase key
  number := by
    have hp := length_erase h.positive key
    have hn := length_erase h.negative key
    rw [bucketNumber_foldIntoZero, h.number, sides]
    change _ = (s.positive.erase key).length + (s.negative.erase key).length
    omega
  positive_keys := by
    intro k hm
    change k ∈ (s.positive.erase key).occurrences at hm
    rw [occurrences_erase] at hm
    exact h.positive_keys k (List.mem_of_mem_filter hm)
  negative_keys := by
    intro k hm
    change k ∈ (s.negative.erase key).occurrences at hm
    rw [occurrences_erase] at hm
    exact h.negative_keys k (List.mem_of_mem_filter hm)

theorem Sound.total_foldIntoZero (h : Sound s) (key : Int) : (s.foldIntoZero key).total = s.total := by
  have hp := total_erase h.positive key
  have hn := total_erase h.negative key
  rw [total, total, State.foldIntoZero]
  dsimp only
  omega

/-- What widening does: the bucket closest to zero is folded and its bound becomes the threshold. -/
theorem widen?_eq_some (h : s.widen? limit = some s') :
    ∃ key, s.smallestKey? = some key ∧
      s' = { s.foldIntoZero key with zeroThreshold := upperBound key s.schema } := by
  unfold widen? at h
  split at h
  · cases h
  · split at h
    · cases h
    · rename_i key hk
      dsimp only at h
      split at h
      · cases h
      · exact ⟨key, hk, (Option.some.inj h).symm⟩

theorem Sound.widen (h : Sound s) (hw : s.widen? limit = some s') : Sound s' := by
  obtain ⟨key,hk,rfl⟩ := widen?_eq_some hw
  obtain ⟨v,hn,hp,hi⟩ := h.smallestKey_isIndex hk
  have hr := rank_upperBound_nonneg hn hp h.coarsest h.finest
  rw [hi] at hr
  exact { h.foldIntoZero key with threshold := hr }

theorem Sound.bucketNumber_widen (h : Sound s) (hw : s.widen? limit = some s') :
    s'.bucketNumber < s.bucketNumber := by
  obtain ⟨key,hk,rfl⟩ := widen?_eq_some hw
  have hle := h.sides_le key
  have hpos : 0 < s.sides key := by
    rw [sides]
    rcases (h.smallestKey hk).1 with hm | hm
    · rw [(contains_iff h.positive).mpr hm, if_pos rfl]
      omega
    · rw [(contains_iff h.negative).mpr hm, if_pos rfl]
      omega
  change (s.foldIntoZero key).bucketNumber < _
  rw [bucketNumber_foldIntoZero]
  omega

theorem Sound.total_widen (h : Sound s) (hw : s.widen? limit = some s') : s'.total = s.total := by
  obtain ⟨key,_,rfl⟩ := widen?_eq_some hw
  exact h.total_foldIntoZero key

theorem schema_widen (hw : s.widen? limit = some s') : s'.schema = s.schema := by
  obtain ⟨key,_,rfl⟩ := widen?_eq_some hw
  rfl

theorem halve?_eq_some (h : s.halve? = some s') :
    minSchema < s.schema ∧
      s' = { s with
        positive := s.positive.halve
        negative := s.negative.halve
        schema := s.schema - 1
        bucketNumber := s.positive.halve.length + s.negative.halve.length } := by
  unfold halve? at h
  split at h
  · cases h
  · rename_i hs
    exact ⟨by omega, (Option.some.inj h).symm⟩

theorem isIndex_halve {b : Buckets} {schema : Int} (h4 : minSchema < schema) (h8 : schema ≤ maxSchema)
    (h : ∀ key ∈ b.occurrences, IsIndex schema key) :
    ∀ key ∈ b.halve.occurrences, IsIndex (schema - 1) key := by
  intro key hm
  obtain ⟨k,hk,rfl⟩ := List.mem_map.mp ((occurrences_halve b).mem_iff.mp hm)
  obtain ⟨v,hn,hp,rfl⟩ := h k hk
  exact ⟨v, hn, hp, (halvedIndex_bucketIndex hn hp h4 h8).symm⟩

theorem Sound.halve (h : Sound s) (hh : s.halve? = some s') : Sound s' := by
  have hf := h.finest
  obtain ⟨hs,rfl⟩ := halve?_eq_some hh
  exact {
    coarsest := by dsimp only; omega
    finest := by dsimp only; omega
    threshold := h.threshold
    positive := h.positive.halve
    negative := h.negative.halve
    number := rfl
    positive_keys := isIndex_halve hs hf h.positive_keys
    negative_keys := isIndex_halve hs hf h.negative_keys }

theorem Sound.bucketNumber_halve (h : Sound s) (hh : s.halve? = some s') :
    s'.bucketNumber ≤ s.bucketNumber := by
  obtain ⟨_,rfl⟩ := halve?_eq_some hh
  rw [h.number]
  exact Nat.add_le_add (length_halve_le h.positive) (length_halve_le h.negative)

theorem total_halve (hh : s.halve? = some s') : s'.total = s.total := by
  obtain ⟨_,rfl⟩ := halve?_eq_some hh
  rw [total, total, Buckets.total_halve, Buckets.total_halve]

theorem schema_halve (hh : s.halve? = some s') : s'.schema = s.schema - 1 := by
  obtain ⟨_,rfl⟩ := halve?_eq_some hh
  rfl

end State
end Metering.Native
