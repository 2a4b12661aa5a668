import Metering.Proofs.Native.Table

/-! # Bucket indices against bucket bounds

The index of a value is the least key whose upper bound is not below it. Bounds are compared by
rank, continued past the largest double and below the smallest one; the bounds at one schema are
every second bound at the next.
-/
namespace Metering.Native
open Binary64

/-- The rank of a bucket bound, were exponents unbounded. -/
def boundRank (key schema : Int) : Int :=
  if schema < 0 then (key * 2 ^ (-schema).toNat + 1023) * 2 ^ 52
  else rank ((table schema.toNat).getD (key % 2 ^ schema.toNat).toNat 0) +
    (key / 2 ^ schema.toNat + 1) * 2 ^ 52

/-- The rank of a value, were exponents unbounded: subnormal doubles go below all normal ones. -/
def place (v : Float) : Int :=
  rank (split v).1 + (split v).2 * 2 ^ 52

theorem boundRank_of_nonneg (key : Int) (s : Nat) :
    boundRank key s = rank ((table s).getD (key % 2 ^ s).toNat 0) + (key / 2 ^ s + 1) * 2 ^ 52 := by
  have he : (s : Int).toNat = s := rfl
  rw [boundRank, if_neg (by omega), he]

theorem rank_half : rank 0.5 = 1022 * 2 ^ 52 := rfl

theorem isNaN_half : (0.5 : Float).isNaN = false := rfl

theorem boundRank_zero (key : Int) : boundRank key 0 = (key + 1023) * 2 ^ 52 := by
  have h := boundRank_of_nonneg key 0
  rw [Nat.cast_zero, pow_zero, Int.emod_one, Int.ediv_one] at h
  rw [h, Int.toNat_zero, getD_table_zero (by decide), rank_half]
  ring

theorem boundRank_of_nonpos (key : Int) (n : Nat) :
    boundRank key (-n) = (key * 2 ^ n + 1023) * 2 ^ 52 := by
  cases n with
  | zero => rw [Nat.cast_zero, Int.neg_zero, boundRank_zero, pow_zero, Int.mul_one]
  | succ n =>
    have he : (-(-((n + 1 : Nat) : Int))).toNat = n + 1 := by omega
    rw [boundRank, if_pos (by omega), he]

theorem rank_split_fraction {v : Float} (hp : 0 < rank v) (hf : field v ≠ 2047) :
    (split v).1.isNaN = false ∧ 1022 * 2 ^ 52 ≤ rank (split v).1 ∧ rank (split v).1 < 1023 * 2 ^ 52 := by
  obtain ⟨ps,pf,_,_⟩ := parts_split hp hf
  have hw := toNat_toBits_mod (split v).1
  have hr := fraction_lt (split v).1
  have hk := rank_eq (split v).1
  rw [ps, Float.Model.UnpackedFloat.Sign.apply, pf] at hk
  exact ⟨isNaN_of_field (by omega), by omega, by omega⟩

theorem place_of_normal {v : Float} (hp : 0 < rank v) (hf : field v ≠ 2047) (h0 : field v ≠ 0) :
    place v = rank v :=
  rank_split hp hf h0

theorem toNat_emod_lt (key : Int) (s : Nat) : (key % 2 ^ s).toNat < 2 ^ s := by
  have hpos : (0 : Int) < 2 ^ s := Int.pow_pos (by decide)
  have hcast : ((2 ^ s : Nat) : Int) = 2 ^ s := by push_cast; rfl
  have hr0 := Int.emod_nonneg key hpos.ne'
  have hr1 := Int.emod_lt_of_pos key hpos
  omega

theorem finiteIndex_of_pos (v : Float) {s : Nat} (hs : 0 < s) (h8 : s ≤ 8) :
    finiteIndex v s =
      Search.partitionPoint (· < (split v).1) (table s) + ((split v).2 - 1) * 2 ^ s := by
  have he : (s : Int).toNat = s := rfl
  have hsize : ((table s).size : Int) = 2 ^ s := by
    rw [size_table h8]
    push_cast
    rfl
  rw [finiteIndex]
  simp only [he, hsize]
  rw [if_pos (by omega)]

theorem finiteIndex_of_nonpos (v : Float) (n : Nat) :
    finiteIndex v (-n) =
      ((if (split v).1 == 0.5 then (split v).2 - 1 else (split v).2) + (2 ^ n - 1)) / 2 ^ n := by
  have he : (-(-(n : Int))).toNat = n := by omega
  rw [finiteIndex]
  simp only [he]
  rw [if_neg (by omega)]
  rfl

/-- Comparing quotients first and remainders second. -/
theorem finiteIndex_le_iff_of_pos {v : Float} {s : Nat} {key : Int} (hs : 0 < s) (h8 : s ≤ 8)
    (hp : 0 < rank v) (hf : field v ≠ 2047) : finiteIndex v s ≤ key ↔ place v ≤ boundRank key s := by
  obtain ⟨hn,h1,h2⟩ := rank_split_fraction hp hf
  rw [finiteIndex_of_pos v hs h8, boundRank_of_nonneg, place]
  have hle := partitionPoint_table_le (split v).1 h8
  have hpos : (0 : Int) < 2 ^ s := Int.pow_pos (by decide)
  have hr0 := Int.emod_nonneg key hpos.ne'
  have hr1 := Int.emod_lt_of_pos key hpos
  have hk := Int.mul_ediv_add_emod key (2 ^ s)
  have hcast : ((2 ^ s : Nat) : Int) = 2 ^ s := by push_cast; rfl
  have hr := toNat_emod_lt key s
  have hlt := lt_partitionPoint_table h8 hn hr
  obtain ⟨_,t1,t2⟩ := rank_table h8 hr
  generalize Search.partitionPoint (· < (split v).1) (table s) = c at *
  generalize rank ((table s).getD (key % 2 ^ s).toNat 0) = t at *
  generalize rank (split v).1 = φ at *
  generalize (split v).2 = e at *
  generalize key / 2 ^ s = q at *
  generalize key % 2 ^ s = r at *
  rcases lt_trichotomy (e - 1) q with h | h | h
  · have hm : (e - 1 + 1) * 2 ^ s ≤ q * 2 ^ s := Int.mul_le_mul_of_nonneg_right (by omega) hpos.le
    rw [Int.add_mul, Int.one_mul] at hm
    rw [Int.mul_comm q] at hm
    constructor <;> intro _ <;> omega
  · rw [h, ← hk, Int.mul_comm q]
    omega
  · have hm : (q + 1) * 2 ^ s ≤ (e - 1) * 2 ^ s := Int.mul_le_mul_of_nonneg_right (by omega) hpos.le
    rw [Int.add_mul, Int.one_mul, Int.mul_comm q] at hm
    constructor <;> intro _ <;> omega

theorem finiteIndex_le_iff_of_nonpos {v : Float} {n : Nat} {key : Int} (hp : 0 < rank v)
    (hf : field v ≠ 2047) : finiteIndex v (-n) ≤ key ↔ place v ≤ boundRank key (-n) := by
  obtain ⟨hn,h1,h2⟩ := rank_split_fraction hp hf
  have hpos : (0 : Int) < 2 ^ n := Int.pow_pos (by decide)
  have hhalf := beq_iff_rank hn isNaN_half
  rw [rank_half] at hhalf
  rw [finiteIndex_of_nonpos, boundRank_of_nonpos, place, ← Int.lt_add_one_iff,
    Int.ediv_lt_iff_lt_mul hpos, Int.add_mul, Int.one_mul]
  generalize key * 2 ^ n = b
  split <;> rename_i h
  · rw [hhalf] at h
    omega
  · rw [hhalf] at h
    omega

/-- The index is the least key whose bound is not below the value. -/
theorem finiteIndex_le_iff {v : Float} {schema key : Int} (h8 : schema ≤ 8) (hp : 0 < rank v)
    (hf : field v ≠ 2047) : finiteIndex v schema ≤ key ↔ place v ≤ boundRank key schema := by
  rcases Int.lt_or_le 0 schema with h | h
  · obtain ⟨s,rfl⟩ := Int.eq_ofNat_of_zero_le h.le
    exact finiteIndex_le_iff_of_pos (by omega) (by omega) hp hf
  · obtain ⟨n,hn⟩ := Int.eq_ofNat_of_zero_le (a := -schema) (by omega)
    obtain rfl : schema = -n := by omega
    exact finiteIndex_le_iff_of_nonpos hp hf

/-- The bounds at one schema are every second bound at the next. -/
theorem boundRank_double {schema : Int} (h8 : schema ≤ 8) (key : Int) :
    boundRank (2 * key) schema = boundRank key (schema - 1) := by
  rcases Int.lt_or_le 0 schema with h | h
  · obtain ⟨s,hs⟩ := Int.eq_ofNat_of_zero_le (a := schema - 1) (by omega)
    obtain rfl : schema = (s + 1 : Nat) := by omega
    have hm : 2 * key % 2 ^ (s + 1) = 2 * (key % 2 ^ s) := by
      rw [Int.pow_succ, Int.mul_comm (2 ^ s), Int.mul_emod_mul_of_pos _ _ (by decide)]
    have hd : 2 * key / 2 ^ (s + 1) = key / 2 ^ s := by
      rw [Int.pow_succ, Int.mul_comm (2 ^ s), Int.mul_ediv_mul_of_pos _ _ (by decide)]
    have hpos : (0 : Int) < 2 ^ s := Int.pow_pos (by decide)
    have hr0 := Int.emod_nonneg key hpos.ne'
    have ht : (2 * (key % 2 ^ s)).toNat = 2 * (key % 2 ^ s).toNat := by omega
    rw [hs, boundRank_of_nonneg, boundRank_of_nonneg, hm, hd, ht, getD_table_double (by omega)]
  · obtain ⟨n,hn⟩ := Int.eq_ofNat_of_zero_le (a := -schema) (by omega)
    obtain rfl : schema = -n := by omega
    have he : -(n : Int) - 1 = -(n + 1 : Nat) := by omega
    rw [he, boundRank_of_nonpos, boundRank_of_nonpos, Int.pow_succ]
    ring

theorem boundRank_lt {schema : Int} (h8 : schema ≤ 8) {key key' : Int} (h : key < key') :
    boundRank key schema < boundRank key' schema := by
  obtain ⟨s,rfl | rfl⟩ := Int.eq_nat_or_neg schema
  · have hpos : (0 : Int) < 2 ^ s := Int.pow_pos (by decide)
    have hr0 := Int.emod_nonneg key hpos.ne'
    have hr' := toNat_emod_lt key' s
    have hk := Int.mul_ediv_add_emod key (2 ^ s)
    have hk' := Int.mul_ediv_add_emod key' (2 ^ s)
    obtain ⟨_,t1,t2⟩ := rank_table (s := s) (by omega) (toNat_emod_lt key s)
    obtain ⟨_,t1',t2'⟩ := rank_table (s := s) (by omega) hr'
    rw [boundRank_of_nonneg, boundRank_of_nonneg]
    rcases Int.lt_or_eq_of_le (Int.ediv_le_ediv hpos h.le) with hq | hq
    · omega
    · rw [hq] at hk ⊢
      have := rank_table_lt (s := s) (i := (key % 2 ^ s).toNat) (j := (key' % 2 ^ s).toNat)
        (by omega) (by omega) hr'
      omega
  · have hpos : (0 : Int) < 2 ^ s := Int.pow_pos (by decide)
    have hm := Int.mul_lt_mul_of_pos_right h hpos
    rw [boundRank_of_nonpos, boundRank_of_nonpos]
    omega

theorem boundRank_add_one {schema : Int} (h8 : schema ≤ 8) (key : Int) :
    (boundRank key schema + 1) % 2 ^ 52 ≠ 0 := by
  obtain ⟨s,rfl | rfl⟩ := Int.eq_nat_or_neg schema
  · obtain ⟨_,t1,t2⟩ := rank_table (s := s) (by omega) (toNat_emod_lt key s)
    rw [boundRank_of_nonneg]
    omega
  · rw [boundRank_of_nonpos]
    omega

def topKey (schema : Int) : Int :=
  1024 * 2 ^ schema.toNat / 2 ^ (-schema).toNat

theorem topKey_of_nonneg (s : Nat) : topKey s = 1024 * 2 ^ s := by
  have he : (-(s : Int)).toNat = 0 := by omega
  have hs : (s : Int).toNat = s := rfl
  rw [topKey, he, hs, pow_zero, Int.ediv_one]

theorem topKey_of_nonpos {n : Nat} (hn : n ≤ 10) : topKey (-n) * 2 ^ n = 1024 := by
  have he : (-(-(n : Int))).toNat = n := by omega
  have hs : (-(n : Int)).toNat = 0 := by omega
  rw [topKey, he, hs, pow_zero, Int.mul_one]
  exact Int.ediv_mul_cancel (pow_dvd_pow 2 hn)

theorem boundRank_topKey {schema : Int} (h4 : minSchema ≤ schema) (h8 : schema ≤ 8) :
    boundRank (topKey schema) schema = 2047 * 2 ^ 52 := by
  change -4 ≤ _ at h4
  obtain ⟨s,rfl | rfl⟩ := Int.eq_nat_or_neg schema
  · have hpos : (0 : Int) < 2 ^ s := Int.pow_pos (by decide)
    rw [boundRank_of_nonneg, topKey_of_nonneg, Int.mul_emod_left, Int.mul_ediv_cancel _ hpos.ne',
      Int.toNat_zero, getD_table_zero (by omega), rank_half]
    decide
  · rw [boundRank_of_nonpos, topKey_of_nonpos (by omega)]
    decide

end Metering.Native
