import Metering.Proofs.Native.Classification

/-! # The zero threshold

Every bucket of a native state ends at the zero threshold or above. Widening takes the bound of the
bucket closest to zero and so never lowers the threshold, also where bounds are rounded to subnormal
doubles; it raises it as long as no subnormal value was counted above the smallest threshold.
-/
namespace Metering.Native
open Binary64 Buckets

variable {schema key other : Int}

theorem IsIndex.isNaN_upperBound (h : IsIndex schema key) (h4 : minSchema ≤ schema)
    (h8 : schema ≤ maxSchema) : (upperBound key schema).isNaN = false := by
  obtain ⟨v,hn,hp,rfl⟩ := h
  exact (rank_upperBound_bucketIndex hn hp h4 h8).1

theorem boundRank_mono (h8 : schema ≤ maxSchema) (h : key ≤ other) :
    boundRank key schema ≤ boundRank other schema := by
  rcases Int.lt_or_eq_of_le h with hlt | rfl
  · exact (boundRank_lt h8 hlt).le
  · exact le_refl _

/-- The bounds of buckets that hold values ascend, if not strictly. -/
theorem rank_upperBound_mono (h : IsIndex schema key) (h' : IsIndex schema other)
    (h4 : minSchema ≤ schema) (h8 : schema ≤ maxSchema) (hle : key ≤ other) :
    rank (upperBound key schema) ≤ rank (upperBound other schema) := by
  obtain ⟨v,hn,hp,rfl⟩ := h
  obtain ⟨w,hn',hp',rfl⟩ := h'
  rw [(rank_upperBound_bucketIndex hn hp h4 h8).2, (rank_upperBound_bucketIndex hn' hp' h4 h8).2]
  exact representable_mono (rounded_mono (boundRank_mono h8 hle))

/-- A bucket does not end below the buckets that were merged into it. -/
theorem rank_upperBound_halvedIndex (h : IsIndex schema key) (h4 : minSchema < schema)
    (h8 : schema ≤ maxSchema) :
    rank (upperBound key schema) ≤ rank (upperBound (halvedIndex key) (schema - 1)) := by
  obtain ⟨v,hn,hp,rfl⟩ := h
  have h4' : minSchema ≤ schema - 1 := by omega
  have h8' : schema - 1 ≤ maxSchema := by omega
  have hle : boundRank (bucketIndex v schema) schema ≤
      boundRank (bucketIndex v (schema - 1)) (schema - 1) := by
    rw [← boundRank_double h8, ← halvedIndex_bucketIndex hn hp h4 h8]
    apply boundRank_mono h8
    rw [halvedIndex]
    omega
  rw [halvedIndex_bucketIndex hn hp h4 h8, (rank_upperBound_bucketIndex hn hp h4.le h8).2,
    (rank_upperBound_bucketIndex hn hp h4' h8').2]
  exact representable_mono (rounded_mono hle)

namespace State

variable {s s' : State} {low high v limit : Float}

theorem widen?_le (h : s.widen? limit = some s') : ¬ limit < s'.zeroThreshold := by
  unfold widen? at h
  split at h
  · cases h
  · split at h
    · cases h
    · dsimp only at h
      split at h
      · cases h
      · rename_i hlt
        rw [← Option.some.inj h]
        exact hlt

theorem widen?_eq_none (h : limit ≤ s.zeroThreshold) : s.widen? limit = none := by
  rw [widen?, if_pos h]

/-- The threshold keeps within its limits and below the bounds of all buckets. -/
structure Bounded (low high : Float) (s : State) : Prop extends s.Sound where
  least : low ≤ s.zeroThreshold
  most : s.zeroThreshold ≤ high
  above : ∀ key ∈ s.positive.occurrences ++ s.negative.occurrences,
    rank s.zeroThreshold ≤ rank (upperBound key s.schema)

theorem Bounded.threshold_number (h : Bounded low high s) : s.zeroThreshold.isNaN = false :=
  (isNaN_of_le h.least).2

theorem Sound.isIndex (h : Sound s) (hm : key ∈ s.positive.occurrences ++ s.negative.occurrences) :
    IsIndex s.schema key :=
  (List.mem_append.mp hm).elim (h.positive_keys key) (h.negative_keys key)

/-- The keys after counting a value: those before, and the index of a magnitude above the threshold. -/
theorem mem_occurrences_observe
    (hm : key ∈ (s.observe v).1.positive.occurrences ++ (s.observe v).1.negative.occurrences) :
    key ∈ s.positive.occurrences ++ s.negative.occurrences ∨
      ∃ u, s.zeroThreshold < u ∧ bucketIndex u s.schema = key := by
  rw [List.mem_append] at hm ⊢
  by_cases ha : s.zeroThreshold < v
  · rw [observe_above ha] at hm
    rcases hm with hm | hm
    · rcases List.mem_append.mp ((occurrences_add_one _ _).mem_iff.mp hm) with hm | hm
      · exact .inl (.inl hm)
      · exact .inr ⟨v, ha, (List.mem_singleton.mp hm).symm⟩
    · exact .inl (.inr hm)
  · by_cases hb : v < -s.zeroThreshold
    · rw [observe_below ha hb] at hm
      rcases hm with hm | hm
      · exact .inl (.inl hm)
      · rcases List.mem_append.mp ((occurrences_add_one _ _).mem_iff.mp hm) with hm | hm
        · exact .inl (.inr hm)
        · obtain ⟨hn,ht⟩ := isNaN_of_lt hb
          exact .inr ⟨-v, (below_iff (isNaN_of_neg ht) hn).mp hb, (List.mem_singleton.mp hm).symm⟩
    · rw [observe_within ha hb] at hm
      exact .inl hm

theorem Bounded.observe (h : Bounded low high s) (v : Float) : Bounded low high (s.observe v).1 where
  toSound := h.toSound.observe v
  least := by rw [zeroThreshold_observe]; exact h.least
  most := by rw [zeroThreshold_observe]; exact h.most
  above := by
    intro key hm
    rw [schema_observe, zeroThreshold_observe]
    rcases mem_occurrences_observe hm with hm | ⟨u,hu,rfl⟩
    · exact h.above key hm
    · obtain ⟨hn,hp⟩ := pos_of_above h.threshold hu
      have hlt := (lt_iff_rank h.threshold_number hn).mp hu
      exact hlt.le.trans (rank_le_upperBound hn hp h.coarsest h.finest)

theorem Bounded.zeroThreshold_le_widen (h : Bounded low high s) (hw : s.widen? limit = some s') :
    s.zeroThreshold ≤ s'.zeroThreshold := by
  obtain ⟨key,hk,rfl⟩ := widen?_eq_some hw
  have hm := List.mem_append.mpr (h.smallestKey hk).1
  exact (le_iff_rank h.threshold_number ((h.isIndex hm).isNaN_upperBound h.coarsest h.finest)).mpr (h.above key hm)

theorem Bounded.widen (h : Bounded low high s) (hw : s.widen? high = some s') : Bounded low high s' := by
  have hs := h.toSound.widen hw
  have hle := h.zeroThreshold_le_widen hw
  have hnot := widen?_le hw
  have hlow := (isNaN_of_le h.least).1
  have hhigh := (isNaN_of_le h.most).2
  have hnum := (isNaN_of_le hle).2
  refine {
    toSound := hs
    least := ?_
    most := ?_
    above := ?_ }
  · have hleast := h.least
    rw [le_iff_rank hlow h.threshold_number] at hleast
    rw [le_iff_rank h.threshold_number hnum] at hle
    rw [le_iff_rank hlow hnum]
    exact hleast.trans hle
  · rw [lt_iff_rank hhigh hnum] at hnot
    rw [le_iff_rank hnum hhigh]
    omega
  · intro other hm
    obtain ⟨key,hk,rfl⟩ := widen?_eq_some hw
    obtain ⟨hmem,hpos,hneg⟩ := h.smallestKey hk
    have hindex := h.isIndex (List.mem_append.mpr hmem)
    refine rank_upperBound_mono hindex (hs.isIndex hm) h.coarsest h.finest ?_
    change other ∈ (erase key s.positive).occurrences ++ (erase key s.negative).occurrences at hm
    rw [occurrences_erase, occurrences_erase] at hm
    -- No key that is left lies below the one that was folded.
    rcases List.mem_append.mp hm with hm | hm
    · exact hpos other (List.mem_of_mem_filter hm)
    · exact hneg other (List.mem_of_mem_filter hm)

theorem Bounded.halve (h : Bounded low high s) (hh : s.halve? = some s') : Bounded low high s' := by
  have hs := h.toSound.halve hh
  obtain ⟨h4,rfl⟩ := halve?_eq_some hh
  refine {
    toSound := hs
    least := h.least
    most := h.most
    above := ?_ }
  intro key hm
  change key ∈ (Buckets.halve s.positive).occurrences ++ (Buckets.halve s.negative).occurrences at hm
  rw [((occurrences_halve _).append (occurrences_halve _)).mem_iff, ← List.map_append] at hm
  obtain ⟨k,hk,rfl⟩ := List.mem_map.mp hm
  exact (h.above k hk).trans (rank_upperBound_halvedIndex (h.isIndex hk) h4 h.finest)

end State

/-- Where values are plain the bucket that is folded holds one above the threshold. -/
theorem Classified.zeroThreshold_lt_widen {least limit : Float} {vs : List Float} {s s' : State}
    (h : Classified least vs s) (hw : s.widen? limit = some s') : s.zeroThreshold < s'.zeroThreshold := by
  obtain ⟨key,hk,rfl⟩ := State.widen?_eq_some hw
  obtain ⟨u,hu,htu,rfl⟩ := h.smallest_value hk
  have hub := hu.rank_le_upperBound h.coarsest h.finest
  rw [lt_iff_rank h.threshold_number hu.1] at htu
  exact (lt_iff_rank h.threshold_number (hu.isNaN_upperBound h.coarsest h.finest)).mpr (htu.trans_le hub)

end Metering.Native
