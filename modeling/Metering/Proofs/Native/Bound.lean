import Metering.Proofs.Binary64.Rounding
import Metering.Proofs.Native.Index

/-! # Values against bucket bounds

A positive value is in a bucket up to `k` just when it is at most the upper bound of `k`, infinity
being one bucket above all finite values. Halving a key gives the bucket of its values one schema
lower.
-/
namespace Metering.Native
open Binary64

theorem bucketIndex_of_finite {v : Float} (schema : Int) (hp : 0 < rank v) (hf : field v ≠ 2047) :
    bucketIndex v schema = finiteIndex v schema := by
  have hn := isNaN_of_field hf
  have hlt := (rank_lt_top_iff hp).mp hf
  rw [bucketIndex, if_neg]
  rw [beq_iff_rank hn isNaN_infinity, rank_infinity]
  omega

theorem finiteIndex_largest {schema : Int} (h4 : minSchema ≤ schema) (h8 : schema ≤ 8) :
    finiteIndex largest schema = topKey schema := by
  have hp : 0 < rank largest := by rw [rank_largest]; decide
  have hf : field largest ≠ 2047 := by rw [field_largest]; decide
  have hpl : place largest = 2047 * 2 ^ 52 - 1 := by
    rw [place_of_normal hp hf (by rw [field_largest]; decide), rank_largest]
  have htop := boundRank_topKey h4 h8
  have hle : finiteIndex largest schema ≤ topKey schema := by
    rw [finiteIndex_le_iff h8 hp hf, hpl, htop]
    decide
  have hge : ¬ finiteIndex largest schema ≤ topKey schema - 1 := by
    have hlt := boundRank_lt h8 (by omega : topKey schema - 1 < topKey schema)
    have hne := boundRank_add_one h8 (topKey schema - 1)
    rw [finiteIndex_le_iff h8 hp hf, hpl]
    omega
  omega

theorem bucketIndex_of_top {v : Float} {schema : Int} (hn : v.isNaN = false) (hp : 0 < rank v)
    (hf : field v = 2047) (h4 : minSchema ≤ schema) (h8 : schema ≤ 8) :
    bucketIndex v schema = topKey schema + 1 := by
  have hlt := rank_lt_top_iff hp
  have hle := rank_le_top hn hp
  rw [bucketIndex, if_pos, finiteIndex_largest h4 h8]
  rw [beq_iff_rank hn isNaN_infinity, rank_infinity]
  omega

theorem topKey_sub_one {schema : Int} (h4 : minSchema < schema) (h8 : schema ≤ 8) :
    topKey schema = 2 * topKey (schema - 1) := by
  have h1 := boundRank_topKey h4.le h8
  have h2 : boundRank (topKey (schema - 1)) (schema - 1) = _ :=
    boundRank_topKey (by omega) (by omega)
  rw [← boundRank_double h8] at h2
  rcases lt_trichotomy (topKey schema) (2 * topKey (schema - 1)) with h | h | h
  · have := boundRank_lt h8 h
    omega
  · exact h
  · have := boundRank_lt h8 h
    omega

/-- Halving the key of a value gives its key one schema lower. -/
theorem halvedIndex_bucketIndex {v : Float} {schema : Int} (hn : v.isNaN = false) (hp : 0 < rank v)
    (h4 : minSchema < schema) (h8 : schema ≤ 8) :
    halvedIndex (bucketIndex v schema) = bucketIndex v (schema - 1) := by
  rw [halvedIndex]
  by_cases hf : field v = 2047
  · have ht := topKey_sub_one h4 h8
    rw [bucketIndex_of_top hn hp hf h4.le h8,
      bucketIndex_of_top hn hp hf (by omega) (by omega)]
    omega
  · -- Both sides lie below the same keys.
    have hiff : ∀ key, bucketIndex v (schema - 1) ≤ key ↔ bucketIndex v schema ≤ 2 * key := by
      intro key
      rw [bucketIndex_of_finite _ hp hf, bucketIndex_of_finite _ hp hf,
        finiteIndex_le_iff (by omega) hp hf, finiteIndex_le_iff h8 hp hf, boundRank_double h8]
    have h1 := (hiff (bucketIndex v (schema - 1))).mp (le_refl _)
    have h2 := (hiff ((bucketIndex v schema + 1) / 2)).mpr (by omega)
    omega

/-- Positive and not subnormal. -/
def Regular (v : Float) : Prop :=
  v.isNaN = false ∧ 2 ^ 52 ≤ rank v

theorem Regular.pos {v : Float} (h : Regular v) : 0 < rank v := by
  have := h.2
  omega

theorem Regular.field_ne_zero {v : Float} (h : Regular v) : field v ≠ 0 := by
  have hk := rank_eq v
  have hr := fraction_lt v
  have h2 := h.2
  rw [sign_of_rank_pos h.pos, Float.Model.UnpackedFloat.Sign.apply] at hk
  omega

theorem Regular.index_le_iff {v : Float} {schema key : Int} (h : Regular v) (hf : field v ≠ 2047)
    (h8 : schema ≤ 8) : bucketIndex v schema ≤ key ↔ rank v ≤ boundRank key schema := by
  rw [bucketIndex_of_finite _ h.pos hf, finiteIndex_le_iff h8 h.pos hf,
    place_of_normal h.pos hf h.field_ne_zero]

theorem parts_one : sign 1 = .positive ∧ field 1 = 1023 ∧ rank 1 = 1023 * 2 ^ 52 := by
  have hr : rank 1 = 1023 * 2 ^ 52 := rfl
  have hf : field 1 = 1023 := rfl
  exact ⟨sign_of_rank_pos (by rw [hr]; decide), hf, hr⟩

/-- The place of a bound among the doubles: `2 ^ 1024` gives way to the largest double, and what
lies beyond is infinity. -/
def representable (bound : Int) : Int :=
  if bound < 2047 * 2 ^ 52 then bound
  else if bound = 2047 * 2 ^ 52 then 2047 * 2 ^ 52 - 1
  else 2047 * 2 ^ 52

theorem representable_mono {b c : Int} (h : b ≤ c) : representable b ≤ representable c := by
  rw [representable, representable]
  split <;> split <;> (try split) <;> omega

theorem representable_nonneg {b : Int} (h : 0 ≤ b) : 0 ≤ representable b := by
  rw [representable]
  split
  · exact h
  · split <;> omega

theorem representable_rounded {b : Int} (h : b ≠ 2047 * 2 ^ 52) :
    representable (rounded b) = if b < 2047 * 2 ^ 52 then rounded b else 2047 * 2 ^ 52 := by
  rw [representable]
  rcases Int.lt_or_le b (2 ^ 52) with hb | hb
  · have hle := rounded_low_le hb
    rw [if_pos (by omega), if_pos (by omega)]
  · rw [rounded_of_normal hb, if_neg h]

theorem upperBound_of_neg {key : Int} {n : Nat} (hn : 0 < n) (h1 : -2 ^ 31 ≤ key * 2 ^ n)
    (h2 : key * 2 ^ n ≤ 1040) :
    upperBound key (-n) = if key * 2 ^ n = 1024 then largest else scale 1 (key * 2 ^ n) := by
  have he : (-(-(n : Int))).toNat = n := by omega
  have hw : Int.bmod (key * 2 ^ n) UInt32.size = key * 2 ^ n := by
    rw [UInt32.size]
    exact Int.bmod_eq_of_le (by omega) (by omega)
  rw [← hw, upperBound, if_pos (by omega), he]
  rfl

theorem upperBound_of_nonneg (key : Int) (s : Nat) :
    upperBound key s =
      if ((table s).getD (key % 2 ^ s).toNat 0 == 0.5 && key / 2 ^ s + 1 == 1025) = true then largest
      else scale ((table s).getD (key % 2 ^ s).toNat 0) (key / 2 ^ s + 1) := by
  have he : (s : Int).toNat = s := rfl
  rw [upperBound, if_neg (by omega)]
  simp only [he]
  rfl

theorem mul_le_of_le_topKey {key : Int} {n : Nat} (h4 : n ≤ 4) (h : key ≤ topKey (-n) + 1) :
    key * 2 ^ n ≤ 1040 := by
  have hpos : (0 : Int) < 2 ^ n := Int.pow_pos (by decide)
  have h16 : (2 : Int) ^ n ≤ 2 ^ 4 := mod_cast Nat.pow_le_pow_right (by decide : 0 < 2) h4
  have htop := topKey_of_nonpos (n := n) (by omega)
  have hk := Int.mul_le_mul_of_nonneg_right h hpos.le
  rw [Int.add_mul, htop, Int.one_mul] at hk
  omega

theorem ediv_le_of_le_topKey {key : Int} {s : Nat} (h : key ≤ topKey s + 1) : key / 2 ^ s ≤ 1025 := by
  have hpos : (0 : Int) < 2 ^ s := Int.pow_pos (by decide)
  rw [topKey_of_nonneg] at h
  apply Int.le_of_lt_add_one
  rw [Int.ediv_lt_iff_lt_mul hpos]
  omega

theorem rank_upperBound_of_neg {key : Int} {n : Nat} (hn : 0 < n) (h4 : n ≤ 4)
    (hlow : -60 * 2 ^ 52 ≤ boundRank key (-n)) (hhigh : key ≤ topKey (-n) + 1) :
    (upperBound key (-n)).isNaN = false ∧
      rank (upperBound key (-n)) = representable (rounded (boundRank key (-n))) := by
  obtain ⟨os,of',ok⟩ := parts_one
  have hk := mul_le_of_le_topKey h4 hhigh
  rw [boundRank_of_nonpos] at hlow ⊢
  rw [upperBound_of_neg hn (by omega) (by omega)]
  generalize key * 2 ^ n = e at *
  split
  · rename_i he
    rw [rounded_of_normal (by omega), representable, if_neg (by omega), if_pos (by omega)]
    exact ⟨isNaN_of_field (by rw [field_largest]; decide), rank_largest⟩
  · obtain ⟨sn,sr⟩ := rank_scale_rounded (e := e) os (by omega) (by omega) (by omega) (by omega)
    refine ⟨sn, ?_⟩
    have hp : rank 1 + e * 2 ^ 52 = (e + 1023) * 2 ^ 52 := by omega
    rw [sr, of', hp, representable_rounded (by omega)]
    split <;> split <;> first | rfl | omega

theorem rank_upperBound_of_nonneg {key : Int} {s : Nat} (h8 : s ≤ 8)
    (hlow : -60 * 2 ^ 52 ≤ boundRank key s) (hhigh : key ≤ topKey s + 1) :
    (upperBound key s).isNaN = false ∧
      rank (upperBound key s) = representable (rounded (boundRank key s)) := by
  have hr := toNat_emod_lt key s
  have hq := ediv_le_of_le_topKey hhigh
  obtain ⟨tn,t1,t2⟩ := rank_table h8 hr
  obtain ⟨he,hm⟩ := getD_table h8 (i := (key % 2 ^ s).toNat) (by rw [size_table h8]; exact hr)
  obtain ⟨ts,tf⟩ := parts_of_mem_bounds h8 hm
  rw [← he] at ts tf
  have hhalf := beq_iff_rank tn isNaN_half
  rw [rank_half] at hhalf
  rw [boundRank_of_nonneg] at hlow ⊢
  rw [upperBound_of_nonneg]
  generalize (table s).getD (key % 2 ^ s).toNat 0 = f at *
  generalize key / 2 ^ s = q at *
  split <;> rename_i hc <;> rw [Bool.and_eq_true, hhalf, beq_iff_eq] at hc
  · rw [rounded_of_normal (by omega), representable, if_neg (by omega), if_pos (by omega)]
    exact ⟨isNaN_of_field (by rw [field_largest]; decide), rank_largest⟩
  · obtain ⟨sn,sr⟩ := rank_scale_rounded (e := q + 1) ts (by omega) (by omega) (by omega) (by omega)
    refine ⟨sn, ?_⟩
    rw [sr, tf, representable_rounded (by omega)]
    split <;> split <;> first | rfl | omega

theorem rank_upperBound {key schema : Int} (h4 : minSchema ≤ schema) (h8 : schema ≤ 8)
    (hlow : -60 * 2 ^ 52 ≤ boundRank key schema) (hhigh : key ≤ topKey schema + 1) :
    (upperBound key schema).isNaN = false ∧
      rank (upperBound key schema) = representable (rounded (boundRank key schema)) := by
  rcases Int.lt_or_le schema 0 with h | h
  · obtain ⟨n,hn⟩ := Int.eq_ofNat_of_zero_le (a := -schema) (by omega)
    obtain rfl : schema = -n := by omega
    change -4 ≤ _ at h4
    exact rank_upperBound_of_neg (by omega) (by omega) hlow hhigh
  · obtain ⟨s,rfl⟩ := Int.eq_ofNat_of_zero_le h
    exact rank_upperBound_of_nonneg (by omega) hlow hhigh

theorem bucketIndex_le_top {v : Float} {schema : Int} (hn : v.isNaN = false) (hp : 0 < rank v)
    (h4 : minSchema ≤ schema) (h8 : schema ≤ 8) : bucketIndex v schema ≤ topKey schema + 1 := by
  by_cases hf : field v = 2047
  · exact (bucketIndex_of_top hn hp hf h4 h8).le
  · have htop := boundRank_topKey h4 h8
    have hfr := rank_split_fraction hp hf
    have he := (parts_split hp hf).2.2.2
    have hle : finiteIndex v schema ≤ topKey schema := by
      rw [finiteIndex_le_iff h8 hp hf, htop, place]
      omega
    rw [bucketIndex_of_finite _ hp hf]
    omega

theorem bucketIndex_minSchema {v : Float} (hn : v.isNaN = false) (hp : 0 < rank v) :
    -67 ≤ bucketIndex v minSchema ∧ bucketIndex v minSchema ≤ 65 := by
  have htop : topKey minSchema = 64 := by decide
  have hle := bucketIndex_le_top hn hp (le_refl minSchema) (by decide)
  refine ⟨?_, by omega⟩
  by_cases hf : field v = 2047
  · rw [bucketIndex_of_top hn hp hf (le_refl _) (by decide), htop]
    decide
  · have hfr := rank_split_fraction hp hf
    have he := (parts_split hp hf).2.2.1
    have hlow : ¬ finiteIndex v minSchema ≤ -68 := by
      have hb := boundRank_of_nonpos (-68) 4
      have hs : minSchema = -(4 : Nat) := rfl
      rw [finiteIndex_le_iff (by decide) hp hf, hs, hb, place]
      omega
    rw [bucketIndex_of_finite _ hp hf]
    omega

theorem boundRank_bucketIndex_of_top {v : Float} {schema : Int} (hn : v.isNaN = false)
    (hp : 0 < rank v) (hf : field v = 2047) (h4 : minSchema ≤ schema) (h8 : schema ≤ 8) :
    2047 * 2 ^ 52 < boundRank (bucketIndex v schema) schema := by
  rw [bucketIndex_of_top hn hp hf h4 h8, ← boundRank_topKey h4 h8]
  exact boundRank_lt h8 (Int.lt_succ _)

theorem boundRank_bucketIndex {v : Float} {schema : Int} (hn : v.isNaN = false) (hp : 0 < rank v)
    (h4 : minSchema ≤ schema) (h8 : schema ≤ 8) :
    -51 * 2 ^ 52 ≤ boundRank (bucketIndex v schema) schema := by
  by_cases hf : field v = 2047
  · have htop := boundRank_bucketIndex_of_top hn hp hf h4 h8
    omega
  · have hfr := rank_split_fraction hp hf
    have he := (parts_split hp hf).2.2.1
    have hle := (finiteIndex_le_iff h8 hp hf).mp (le_refl (finiteIndex v schema))
    rw [place] at hle
    rw [bucketIndex_of_finite _ hp hf]
    omega

theorem rank_upperBound_bucketIndex {v : Float} {schema : Int} (hn : v.isNaN = false) (hp : 0 < rank v)
    (h4 : minSchema ≤ schema) (h8 : schema ≤ 8) :
    (upperBound (bucketIndex v schema) schema).isNaN = false ∧
      rank (upperBound (bucketIndex v schema) schema) =
        representable (rounded (boundRank (bucketIndex v schema) schema)) := by
  have hlow := boundRank_bucketIndex hn hp h4 h8
  exact rank_upperBound h4 h8 (by omega) (bucketIndex_le_top hn hp h4 h8)

theorem rank_upperBound_nonneg {v : Float} {schema : Int} (hn : v.isNaN = false) (hp : 0 < rank v)
    (h4 : minSchema ≤ schema) (h8 : schema ≤ 8) :
    0 ≤ rank (upperBound (bucketIndex v schema) schema) := by
  rw [(rank_upperBound_bucketIndex hn hp h4 h8).2]
  exact representable_nonneg (rounded_nonneg _)

/-- No value exceeds the bound of its bucket, rounding included. -/
theorem rank_le_upperBound {v : Float} {schema : Int} (hn : v.isNaN = false) (hp : 0 < rank v)
    (h4 : minSchema ≤ schema) (h8 : schema ≤ 8) :
    rank v ≤ rank (upperBound (bucketIndex v schema) schema) := by
  rw [(rank_upperBound_bucketIndex hn hp h4 h8).2]
  by_cases hf : field v = 2047
  · have htop := boundRank_bucketIndex_of_top hn hp hf h4 h8
    have hle := rank_le_top hn hp
    rw [rounded_of_normal (by omega), representable, if_neg (by omega), if_neg (by omega)]
    exact hle
  · have hlt := (rank_lt_top_iff hp).mp hf
    have hle := (finiteIndex_le_iff h8 hp hf).mp (le_refl (finiteIndex v schema))
    have hr := rounded_mono hle
    rw [place, rounded_split hp hf] at hr
    rw [bucketIndex_of_finite _ hp hf, representable]
    split
    · exact hr
    · split <;> omega

theorem Regular.low_bound {u : Float} {schema : Int} (h : Regular u) (h4 : minSchema ≤ schema)
    (h8 : schema ≤ 8) : 2 ^ 52 ≤ boundRank (bucketIndex u schema) schema := by
  by_cases hf : field u = 2047
  · have htop := boundRank_bucketIndex_of_top h.1 h.pos hf h4 h8
    omega
  · have hr := (h.index_le_iff hf h8).mp (le_refl (bucketIndex u schema))
    have h2 := h.2
    omega

theorem Regular.isNaN_upperBound {u : Float} {schema : Int} (h : Regular u) (h4 : minSchema ≤ schema)
    (h8 : schema ≤ 8) : (upperBound (bucketIndex u schema) schema).isNaN = false :=
  (rank_upperBound_bucketIndex h.1 h.pos h4 h8).1

/-- Nothing is rounded at the bound of a bucket that holds a regular value. -/
theorem Regular.rank_upperBound {u : Float} {schema : Int} (h : Regular u) (h4 : minSchema ≤ schema)
    (h8 : schema ≤ 8) : rank (upperBound (bucketIndex u schema) schema) =
      representable (boundRank (bucketIndex u schema) schema) := by
  rw [(rank_upperBound_bucketIndex h.1 h.pos h4 h8).2, rounded_of_normal (h.low_bound h4 h8)]

/-- A bucket that holds a regular value holds just the values up to its upper bound, together with
the buckets below it. -/
theorem Regular.index_le_index_iff {u v : Float} {schema : Int} (hu : Regular u) (hv : Regular v)
    (h4 : minSchema ≤ schema) (h8 : schema ≤ 8) :
    bucketIndex v schema ≤ bucketIndex u schema ↔ v ≤ upperBound (bucketIndex u schema) schema := by
  have htop := boundRank_topKey h4 h8
  have hutop := bucketIndex_le_top hu.1 hu.pos h4 h8
  rw [le_iff_rank hv.1 (hu.isNaN_upperBound h4 h8), hu.rank_upperBound h4 h8, representable]
  by_cases hf : field v = 2047
  · have hr := rank_le_top hv.1 hv.pos
    have hlt := (rank_lt_top_iff hv.pos).not.mp (not_not.mpr hf)
    rw [bucketIndex_of_top hv.1 hv.pos hf h4 h8]
    rcases Int.lt_or_le (bucketIndex u schema) (topKey schema + 1) with h | h
    · have hle : boundRank (bucketIndex u schema) schema ≤ 2047 * 2 ^ 52 := by
        rcases Int.lt_or_eq_of_le (Int.le_of_lt_add_one h) with h' | h'
        · have := boundRank_lt h8 h'
          omega
        · rw [h', htop]
      split <;> omega
    · have hgt := boundRank_lt h8 (by omega : topKey schema < bucketIndex u schema)
      rw [if_neg (by omega), if_neg (by omega)]
      omega
  · have hlt := (rank_lt_top_iff hv.pos).mp hf
    rw [hv.index_le_iff hf h8]
    split
    · rfl
    · split <;> omega

theorem Regular.rank_le_upperBound {u : Float} {schema : Int} (h : Regular u) (h4 : minSchema ≤ schema)
    (h8 : schema ≤ 8) : rank u ≤ rank (upperBound (bucketIndex u schema) schema) :=
  Native.rank_le_upperBound h.1 h.pos h4 h8

end Metering.Native
