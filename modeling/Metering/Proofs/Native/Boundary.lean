import Metering.Proofs.Binary64.Monotone
import Metering.Proofs.Native.Bound

/-! # Values at the bounds

The bound of a bucket is its last value: the next double is in the bucket above. This holds wherever the bound is a
normal double, so that bounds rise with their keys and enclose the values of their bucket.
-/
namespace Metering.Native
open Binary64

/-- Neither zero nor subnormal nor infinite nor NaN. -/
def Normal (x : Float) : Prop :=
  field x ≠ 0 ∧ field x ≠ 2047

instance (x : Float) : Decidable (Normal x) := inferInstanceAs (Decidable (_ ∧ _))

def next (x : Float) : Float :=
  Float.ofBits (x.toBits + 1)

/-- A key up to that of the largest double, whose bound is normal and whose exponent is within a word of 32 bits. -/
structure Attained (key schema : Int) : Prop where
  word : -2 ^ 31 ≤ key * 2 ^ (-schema).toNat
  normal : Normal (upperBound key schema)
  top : key ≤ bucketIndex largest schema

variable {key key' schema : Int} {v w : Float}

theorem bucketIndex_largest (h4 : minSchema ≤ schema) (h8 : schema ≤ 8) : bucketIndex largest schema = topKey schema := by
  have hp : 0 < rank largest := by rw [rank_largest]; decide
  have hf : field largest ≠ 2047 := by rw [field_largest]; decide
  rw [bucketIndex_of_finite _ hp hf, finiteIndex_largest h4 h8]

theorem Normal.regular (h : Normal v) (h0 : 0 ≤ rank v) : Regular v := by
  have hk := rank_eq v
  refine ⟨isNaN_of_field h.2, ?_⟩
  cases hs : sign v <;> rw [hs, Float.Model.UnpackedFloat.Sign.apply] at hk <;> have := h.1 <;> omega

theorem rounded_lt {p : Int} (h : p < 2 ^ 52) (hlast : (p + 1) % 2 ^ 52 ≠ 0) : rounded p < 2 ^ 52 := by
  have hd : (2 : Nat) ^ 1 ≤ 2 ^ (1 - p / 2 ^ 52).toNat := Nat.pow_le_pow_right (by decide) (by omega)
  have hmul := Nat.mul_le_mul_left (2 ^ 52 - 1) hd
  have hle := nearest_le_of_le (m := (2 ^ 52 + p % 2 ^ 52).toNat) (d := (1 - p / 2 ^ 52).toNat)
    (k := 2 ^ 52 - 1) (by omega)
  rw [rounded_of_low h]
  omega

/-- Far below the subnormal doubles the bound of a bucket is not normal either. -/
theorem rank_upperBound_low (h4 : minSchema ≤ schema) (h8 : schema ≤ 8) (hword : -2 ^ 31 ≤ key * 2 ^ (-schema).toNat)
    (hlow : boundRank key schema < -60 * 2 ^ 52) :
    Nonneg (upperBound key schema) ∧ rank (upperBound key schema) < 2 ^ 52 := by
  rcases Int.lt_or_le schema 0 with h | h
  · obtain ⟨n,hn⟩ := Int.eq_ofNat_of_zero_le (a := -schema) (by omega)
    obtain rfl : schema = -n := by omega
    have he : (-(-(n : Int))).toNat = n := by omega
    obtain ⟨os,of',_⟩ := parts_one
    rw [he] at hword
    rw [boundRank_of_nonpos] at hlow
    rw [upperBound_of_neg (by omega) hword (by omega), if_neg (by omega)]
    exact rank_scale_lt os (by omega) (by omega) (by omega)
  · obtain ⟨s,rfl⟩ := Int.eq_ofNat_of_zero_le h
    have hr := toNat_emod_lt key s
    obtain ⟨_,t1,_⟩ := rank_table (s := s) (by omega) hr
    obtain ⟨hel,hm⟩ := getD_table (s := s) (by omega) (i := (key % 2 ^ s).toNat) (by rw [size_table (by omega)]; exact hr)
    obtain ⟨ts,tf⟩ := parts_of_mem_bounds (by omega) hm
    rw [← hel] at ts tf
    rw [boundRank_of_nonneg] at hlow
    rw [upperBound_of_nonneg, if_neg]
    · exact rank_scale_lt ts (by omega) (by omega) (by omega)
    · rw [Bool.and_eq_true, beq_iff_eq (a := key / 2 ^ s + 1)]
      omega

theorem boundRank_le_top (h4 : minSchema ≤ schema) (h8 : schema ≤ 8) (h : key ≤ topKey schema) :
    boundRank key schema ≤ 2047 * 2 ^ 52 := by
  rw [← boundRank_topKey h4 h8]
  rcases Int.lt_or_eq_of_le h with hlt | heq
  · exact (boundRank_lt h8 hlt).le
  · rw [heq]

theorem rank_upperBound_lt (h4 : minSchema ≤ schema) (h8 : schema ≤ 8) (hword : -2 ^ 31 ≤ key * 2 ^ (-schema).toNat)
    (hlow : boundRank key schema < 2 ^ 52) (htop : key ≤ topKey schema) :
    Nonneg (upperBound key schema) ∧ rank (upperBound key schema) < 2 ^ 52 := by
  rcases Int.lt_or_le (boundRank key schema) (-60 * 2 ^ 52) with h | h
  · exact rank_upperBound_low h4 h8 hword h
  · obtain ⟨hn,hr⟩ := rank_upperBound h4 h8 h (by omega)
    have hlt := rounded_lt hlow (boundRank_add_one h8 key)
    have hpos := rounded_nonneg (boundRank key schema)
    rw [representable, if_pos (by omega)] at hr
    exact ⟨⟨hn, by omega⟩, by omega⟩

theorem next_largest : next largest = infinity := rfl

theorem eq_largest_of_rank (h : rank v = 2047 * 2 ^ 52 - 1) : v = largest := by
  have hv := rank_of_positive (sign_of_rank_pos (x := v) (by omega))
  have hl := rank_of_positive (sign_of_rank_pos (x := largest) (by rw [rank_largest]; decide))
  rw [rank_largest] at hl
  apply eq_of_toNat_toBits
  omega

theorem rank_next (h : Regular v) (hf : field v ≠ 2047) :
    (next v).isNaN = false ∧ rank (next v) = rank v + 1 := by
  have hr := rank_of_positive (sign_of_rank_pos h.pos)
  have hlt := (rank_lt_top_iff h.pos).mp hf
  rcases Int.lt_or_eq_of_le (Int.le_sub_one_of_lt hlt) with hfinite | hlast
  · have hone : (v.toBits + 1).toNat = v.toBits.toNat + 1 := by
      rw [UInt64.toNat_add, UInt64.toNat_one, Nat.mod_eq_of_lt (by omega)]
    have hw : (next v).toBits.toNat = v.toBits.toNat + 1 := by
      rw [next, toBits_ofBits (by omega), hone]
    have hu := unsigned_of_word hw (by omega)
    exact ⟨hu.number, by rw [hu.rank_eq]; omega⟩
  · rw [eq_largest_of_rank hlast, next_largest]
    exact ⟨isNaN_infinity, rfl⟩

theorem next_least (h : Regular v) (hf : field v ≠ 2047) : v < next v ∧ ∀ w, v < w → next v ≤ w := by
  obtain ⟨hn,hr⟩ := rank_next h hf
  refine ⟨(lt_iff_rank h.1 hn).mpr (by omega), fun w hw => ?_⟩
  have hwn := (isNaN_of_lt hw).2
  have hlt := (lt_iff_rank h.1 hwn).mp hw
  exact (le_iff_rank hn hwn).mpr (by omega)

namespace Attained

/-- The bound is exact, but for the largest double in place of the power of two above it. -/
theorem rank_eq (h : Attained key schema) (h4 : minSchema ≤ schema) (h8 : schema ≤ 8) :
    Regular (upperBound key schema) ∧ 2 ^ 52 ≤ boundRank key schema ∧ boundRank key schema ≤ 2047 * 2 ^ 52 ∧
      rank (upperBound key schema) =
        if boundRank key schema < 2047 * 2 ^ 52 then boundRank key schema else 2047 * 2 ^ 52 - 1 := by
  have htop := h.top
  rw [bucketIndex_largest h4 h8] at htop
  have hle := boundRank_le_top h4 h8 htop
  have hlow : 2 ^ 52 ≤ boundRank key schema := by
    by_contra hlt
    obtain ⟨hn,hr⟩ := rank_upperBound_lt h4 h8 h.word (by omega) htop
    have := (h.normal.regular hn.nonneg).2
    omega
  obtain ⟨hn,hr⟩ := rank_upperBound h4 h8 (by omega) (by omega : key ≤ topKey schema + 1)
  rw [rounded_of_normal hlow, representable] at hr
  have hregular : Regular (upperBound key schema) := ⟨hn, by rw [hr]; split <;> (try split) <;> omega⟩
  refine ⟨hregular, hlow, hle, ?_⟩
  rw [hr]
  split
  · rfl
  · rw [if_pos (by omega)]

theorem index_upperBound (h : Attained key schema) (h4 : minSchema ≤ schema) (h8 : schema ≤ 8) :
    bucketIndex (upperBound key schema) schema = key := by
  obtain ⟨hregular,_,_,hr⟩ := h.rank_eq h4 h8
  have hbelow := boundRank_lt h8 (by omega : key - 1 < key)
  have hlast := boundRank_add_one h8 (key - 1)
  have hle : bucketIndex (upperBound key schema) schema ≤ key := by
    rw [hregular.index_le_iff h.normal.2 h8, hr]
    split <;> omega
  have hge : ¬ bucketIndex (upperBound key schema) schema ≤ key - 1 := by
    rw [hregular.index_le_iff h.normal.2 h8, hr]
    split <;> omega
  omega

theorem index_next (h : Attained key schema) (h4 : minSchema ≤ schema) (h8 : schema ≤ 8) :
    bucketIndex (next (upperBound key schema)) schema = key + 1 := by
  obtain ⟨hregular,hlow,htop,hr⟩ := h.rank_eq h4 h8
  obtain ⟨hn,hnr⟩ := rank_next hregular h.normal.2
  have hnext : Regular (next (upperBound key schema)) := ⟨hn, by have := hregular.2; omega⟩
  have habove := boundRank_lt h8 (by omega : key < key + 1)
  have hlast := boundRank_add_one h8 key
  by_cases hf : field (next (upperBound key schema)) = 2047
  · -- Only the largest double has infinity next to it.
    have hinf := (rank_lt_top_iff hnext.pos).not.mp (not_not.mpr hf)
    have hkey : boundRank key schema = boundRank (topKey schema) schema := by
      rw [boundRank_topKey h4 h8]
      split at hr <;> omega
    rw [bucketIndex_of_top hn hnext.pos hf h4 h8]
    rcases lt_trichotomy key (topKey schema) with hk | hk | hk
    · have := boundRank_lt h8 hk
      omega
    · omega
    · have := boundRank_lt h8 hk
      omega
  · have hfinite := (rank_lt_top_iff hnext.pos).mp hf
    have hle : bucketIndex (next (upperBound key schema)) schema ≤ key + 1 := by
      rw [hnext.index_le_iff hf h8, hnr, hr]
      split <;> omega
    have hge : ¬ bucketIndex (next (upperBound key schema)) schema ≤ key := by
      rw [hnext.index_le_iff hf h8, hnr, hr]
      rw [hnr, hr] at hfinite
      split <;> rename_i hc
      · omega
      · rw [if_neg hc] at hfinite
        omega
    omega

theorem upperBound_lt (h : Attained key schema) (h' : Attained key' schema) (h4 : minSchema ≤ schema) (h8 : schema ≤ 8)
    (hk : key < key') : upperBound key schema < upperBound key' schema := by
  obtain ⟨hregular,_,_,hr⟩ := h.rank_eq h4 h8
  obtain ⟨hregular',_,htop,hr'⟩ := h'.rank_eq h4 h8
  have hlt := boundRank_lt h8 hk
  have hlast := boundRank_add_one h8 key
  rw [lt_iff_rank hregular.1 hregular'.1, hr, hr']
  split <;> split <;> omega

end Attained

/-- One bucket up is at most sixteen powers of two. -/
theorem boundRank_add_one_le (h4 : minSchema ≤ schema) (h8 : schema ≤ 8) (key : Int) :
    boundRank (key + 1) schema ≤ boundRank key schema + 16 * 2 ^ 52 := by
  change -4 ≤ _ at h4
  obtain ⟨s,rfl | rfl⟩ := Int.eq_nat_or_neg schema
  · have hpos : (0 : Int) < 2 ^ s := Int.pow_pos (by decide)
    obtain ⟨_,t1,t2⟩ := rank_table (s := s) (by omega) (toNat_emod_lt key s)
    obtain ⟨_,t1',t2'⟩ := rank_table (s := s) (by omega) (toNat_emod_lt (key + 1) s)
    have hq : (key + 1) / 2 ^ s ≤ (key + 1 * 2 ^ s) / 2 ^ s := Int.ediv_le_ediv hpos (by omega)
    rw [Int.add_mul_ediv_right _ _ hpos.ne'] at hq
    rw [boundRank_of_nonneg, boundRank_of_nonneg]
    omega
  · have h16 : (2 : Int) ^ s ≤ 2 ^ 4 := mod_cast Nat.pow_le_pow_right (by decide : 0 < 2) (by omega)
    rw [boundRank_of_nonpos, boundRank_of_nonpos, Int.add_mul key, Int.one_mul]
    omega

/-- A normal value lies above the bound of the bucket below its own, also where that bound is not normal. -/
theorem upperBound_lt_of_normal (h4 : minSchema ≤ schema) (h8 : schema ≤ 8) (hv : Regular v) (hf : field v ≠ 2047) :
    upperBound (bucketIndex v schema - 1) schema < v := by
  have htop : bucketIndex v schema - 1 ≤ topKey schema := by
    have := bucketIndex_le_top hv.1 hv.pos h4 h8
    omega
  have hlow := hv.low_bound h4 h8
  have hstep := boundRank_add_one_le h4 h8 (bucketIndex v schema - 1)
  have habove := (hv.index_le_iff hf h8).not.mp (by omega : ¬ bucketIndex v schema ≤ bucketIndex v schema - 1)
  have hfinite := (rank_lt_top_iff hv.pos).mp hf
  have hnormal := hv.2
  rw [Int.sub_add_cancel] at hstep
  generalize bucketIndex v schema - 1 = key at *
  obtain ⟨hn,hr⟩ := @rank_upperBound key schema h4 h8 (by omega) (by omega)
  rw [lt_iff_rank hn hv.1, hr]
  rcases Int.lt_or_le (boundRank key schema) (2 ^ 52) with hb | hb
  · have hlt := rounded_lt hb (boundRank_add_one h8 key)
    rw [representable, if_pos (by omega)]
    omega
  · rw [rounded_of_normal hb, representable, if_pos (by omega)]
    omega

/-- Bounds and indices agree at every boundary: a normal bound is the last value of its bucket, bounds rise with their
keys, and every normal value lies between the bound of its bucket and the one below. -/
theorem upperBound_sharp (h4 : minSchema ≤ schema) (h8 : schema ≤ maxSchema) :
    (∀ key, Attained key schema →
      bucketIndex (upperBound key schema) schema = key ∧
        bucketIndex (next (upperBound key schema)) schema = key + 1 ∧
        (upperBound key schema < next (upperBound key schema) ∧
          ∀ w, upperBound key schema < w → next (upperBound key schema) ≤ w) ∧
        (upperBound key schema = largest → next (upperBound key schema) = infinity)) ∧
      (∀ key key', Attained key schema → Attained key' schema → key < key' →
        upperBound key schema < upperBound key' schema) ∧
      ∀ v, 0 < v → Normal v →
        upperBound (bucketIndex v schema - 1) schema < v ∧ v ≤ upperBound (bucketIndex v schema) schema := by
  refine ⟨fun key h => ⟨h.index_upperBound h4 h8, h.index_next h4 h8, ?_, ?_⟩, ?_, ?_⟩
  · exact next_least (h.rank_eq h4 h8).1 h.normal.2
  · intro hl
    rw [hl, next_largest]
  · intro key key' h h' hk
    exact h.upperBound_lt h' h4 h8 hk
  · intro v h0 h
    have hr := (lt_iff_rank isNaN_zero (isNaN_of_lt h0).2).mp h0
    have hv := h.regular (by rw [rank_zero] at hr; exact hr.le)
    refine ⟨upperBound_lt_of_normal h4 h8 hv h.2, ?_⟩
    rw [le_iff_rank hv.1 (hv.isNaN_upperBound h4 h8)]
    exact hv.rank_le_upperBound h4 h8

theorem upperBound_sharp_largest :
    Attained 64 minSchema ∧ bucketIndex (upperBound 64 minSchema) minSchema = 64 ∧
      bucketIndex (next (upperBound 64 minSchema)) minSchema = 65 ∧ next (upperBound 64 minSchema) = infinity ∧
      upperBound 63 minSchema < upperBound 64 minSchema ∧
      upperBound (bucketIndex 3 minSchema - 1) minSchema < 3 := by
  have ha : Attained 64 minSchema := ⟨by decide, by decide +kernel, by decide +kernel⟩
  have hb : Attained 63 minSchema := ⟨by decide, by decide +kernel, by decide +kernel⟩
  obtain ⟨hkey,hmono,hvalue⟩ := @upperBound_sharp minSchema (le_refl _) (by decide)
  obtain ⟨hi,hn,_,hl⟩ := hkey 64 ha
  exact ⟨ha, hi, hn, hl (by rfl), hmono 63 64 hb ha (by decide), (hvalue 3 (by decide +kernel) (by decide +kernel)).1⟩

/-- The exponent of a wide bucket is a word of 32 bits: far below all values the bound of a bucket is 1 again. -/
theorem not_upperBound_sharp_wrapped :
    ¬ ∀ schema key : Int, minSchema ≤ schema → schema ≤ maxSchema → -2 ^ 31 ≤ key → key < 2 ^ 31 →
      Normal (upperBound key schema) → key ≤ bucketIndex largest schema →
        bucketIndex (upperBound key schema) schema = key := by
  intro h
  have hzero : bucketIndex (upperBound (-268435456) minSchema) minSchema = 0 := by decide +kernel
  rw [h minSchema (-268435456) (by decide) (by decide) (by decide) (by decide) (by decide +kernel) (by decide +kernel)] at hzero
  exact absurd hzero (by decide)

end Metering.Native
