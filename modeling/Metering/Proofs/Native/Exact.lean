import Metering.Proofs.Binary64.Split
import Metering.Proofs.Native.Words

/-! # Exact bucket bounds

A bound is a rational number: an entry of the table of its schema times a power of two. The index of a
value is the one key whose bound is not below the value while the bound before it is.
-/
namespace Metering
namespace Binary64

/-- A number of 53 bits, and where it stands among such numbers of all exponents. -/
def Located (q : ℚ) (p : ℤ) : Prop :=
  ∃ (m : ℕ) (e : ℤ), 2 ^ 52 ≤ m ∧ m < 2 ^ 53 ∧ q = m * 2 ^ e ∧ p = (e + 1074) * 2 ^ 52 + m

variable {x : Float} {q q' : ℚ} {p p' : ℤ}

theorem located_one : Located 1 (1023 * 2 ^ 52) :=
  ⟨2 ^ 52, -52, by decide, by decide, by norm_num, by norm_num⟩

theorem Located.scale (h : Located q p) (k : ℤ) : Located (q * 2 ^ k) (p + k * 2 ^ 52) := by
  obtain ⟨m,e,hlow,hhigh,rfl,rfl⟩ := h
  refine ⟨m, e + k, hlow, hhigh, ?_, by ring⟩
  rw [zpow_add₀ two_ne_zero, mul_assoc]

theorem mul_zpow_lt {m n : ℕ} {e f : ℤ} (hm : m < 2 ^ 53) (hn : 2 ^ 52 ≤ n) (he : e < f) :
    (m : ℚ) * 2 ^ e < n * 2 ^ f := by
  have hpos : (0 : ℚ) < 2 ^ e := by positivity
  have hm' : (m : ℚ) < 2 ^ 53 := by exact_mod_cast hm
  have hn' : (2 : ℚ) ^ 52 ≤ n := by exact_mod_cast hn
  calc (m : ℚ) * 2 ^ e < 2 ^ 53 * 2 ^ e := mul_lt_mul_of_pos_right hm' hpos
    _ = 2 ^ 52 * 2 ^ (e + 1) := by rw [zpow_add_one₀ two_ne_zero]; ring
    _ ≤ 2 ^ 52 * 2 ^ f := by gcongr; exacts [one_le_two, by omega]
    _ ≤ n * 2 ^ f := by gcongr

theorem Located.le_iff (h : Located q p) (h' : Located q' p') : q ≤ q' ↔ p ≤ p' := by
  obtain ⟨m,e,hlow,hhigh,rfl,rfl⟩ := h
  obtain ⟨n,f,hlow',hhigh',rfl,rfl⟩ := h'
  rcases lt_trichotomy e f with hlt | rfl | hgt
  · have hq := mul_zpow_lt hhigh hlow' hlt
    constructor <;> intro _
    · omega
    · exact hq.le
  · rw [mul_le_mul_iff_of_pos_right (by positivity : (0 : ℚ) < 2 ^ e), Nat.cast_le]
    omega
  · have hq := mul_zpow_lt hhigh' hlow hgt
    constructor <;> intro hle
    · exact absurd hle (not_le.mpr hq)
    · omega

theorem located_of_normal (hs : sign x = .positive) (h0 : field x ≠ 0) (hf : field x ≠ 2047) :
    Located (value x) (rank x) := by
  have hx : Nonneg x := Unsigned.toNonneg ⟨isNaN_of_field hf, hs⟩
  have hm := mantissa_of_normal h0
  refine ⟨mantissa x, exponent x, by omega, mantissa_lt x, ?_, hx.rank_eq⟩
  rw [value, hs, Float.Model.UnpackedFloat.Sign.apply, Int.cast_natCast]

end Binary64

namespace Native
open Binary64

/-- A double as it is split has its value, and stands at its place. -/
theorem located_place {x : Float} (hp : 0 < rank x) (hf : field x ≠ 2047) : Located (value x) (place x) := by
  have hs := sign_of_rank_pos hp
  by_cases h0 : field x = 0
  · have hr : fraction x ≠ 0 := fun hz => hp.ne' (rank_eq_zero_iff.mpr ⟨h0, hz⟩)
    obtain ⟨ls,l1,l2⟩ := parts_lifted hs h0 hr
    have hlifted := located_of_normal ls (by omega) (by omega)
    have hrank := rank_of_positive ls
    have hword := toNat_toBits_of_positive ls
    have hsplit := rank_split (x := x * power 2 64) (by omega) (by omega) (by omega)
    rw [split_of_normal (by omega) (by omega)] at hsplit
    have hplace : place x = rank (x * power 2 64) + -64 * 2 ^ 52 := by
      rw [place, split_of_subnormal h0 hr]
      dsimp only
      omega
    rw [hplace, value_lifted hs h0 hr]
    exact hlifted.scale (-64)
  · rw [place_of_normal hp hf h0]
    exact located_of_normal hs h0 hf

/-- The upper bound of a bucket, were doubles exact. -/
def exactBound (key schema : Int) : ℚ :=
  if schema < 0 then 2 ^ (key * 2 ^ (-schema).toNat)
  else value ((table schema.toNat).getD (key % 2 ^ schema.toNat).toNat 0) * 2 ^ (key / 2 ^ schema.toNat + 1)

theorem located_exactBound {schema : Int} (h8 : schema ≤ 8) (key : Int) :
    Located (exactBound key schema) (boundRank key schema) := by
  rw [exactBound, boundRank]
  split
  · have hscaled := located_one.scale (key * 2 ^ (-schema).toNat)
    rw [one_mul] at hscaled
    convert hscaled using 1
    ring
  · have hlt := toNat_emod_lt key schema.toNat
    obtain ⟨he,hm⟩ := getD_table (s := schema.toNat) (i := (key % 2 ^ schema.toNat).toNat) (by omega)
      (by rw [size_table (by omega)]; exact hlt)
    obtain ⟨hs,hf⟩ := parts_of_mem_bounds (by omega) hm
    rw [← he] at hs hf
    exact (located_of_normal hs (by omega) (by omega)).scale _

/-- The index is the least key whose exact bound is not below the value. -/
theorem finiteIndex_le_iff_value {v : Float} {schema key : Int} (h8 : schema ≤ 8) (hp : 0 < rank v)
    (hf : field v ≠ 2047) : finiteIndex v schema ≤ key ↔ value v ≤ exactBound key schema :=
  (finiteIndex_le_iff h8 hp hf).trans ((located_place hp hf).le_iff (located_exactBound h8 key)).symm

/-- The index of a positive finite value is the one key whose exact bound is not below the value while the
bound before it is; infinity has the index after that of the largest double, above all finite values.
No step to an index overflows. -/
theorem bucketIndex_exact {schema : Int} (h4 : minSchema ≤ schema) (h8 : schema ≤ maxSchema) :
    (∀ v : Float, 0 < v → v < infinity → ∀ key : Int,
      exactBound (key - 1) schema < value v ∧ value v ≤ exactBound key schema ↔ key = bucketIndex v schema) ∧
    bucketIndex infinity schema = bucketIndex largest schema + 1 ∧
    (∀ v : Float, 0 < v → v < infinity → bucketIndex v schema < bucketIndex infinity schema) ∧
    ∀ v : Float, 0 < v → Words.bucketIndex v schema = some (bucketIndex v schema) := by
  have hpos (v : Float) (h0 : 0 < v) : v.isNaN = false ∧ 0 < rank v := by
    have hn := (isNaN_of_lt h0).2
    exact ⟨hn, rank_zero ▸ (lt_iff_rank isNaN_zero hn).mp h0⟩
  have hfinite (v : Float) (h0 : 0 < v) (hi : v < infinity) : field v ≠ 2047 := by
    obtain ⟨hn,hp⟩ := hpos v h0
    rw [rank_lt_top_iff hp, ← rank_infinity]
    exact (lt_iff_rank hn isNaN_infinity).mp hi
  have htop : bucketIndex infinity schema = topKey schema + 1 :=
    bucketIndex_of_top isNaN_infinity (by rw [rank_infinity]; decide) rfl h4 h8
  refine ⟨?_, ?_, ?_, ?_⟩
  · intro v h0 hi key
    obtain ⟨hn,hp⟩ := hpos v h0
    have hf := hfinite v h0 hi
    -- One comparison for each bound pins the index down from both sides.
    rw [← not_le, ← finiteIndex_le_iff_value h8 hp hf, ← finiteIndex_le_iff_value h8 hp hf,
      bucketIndex_of_finite schema hp hf]
    omega
  · rw [htop, bucketIndex_of_finite schema (by rw [rank_largest]; decide) (by rw [field_largest]; decide),
      finiteIndex_largest h4 h8]
  · intro v h0 hi
    obtain ⟨hn,hp⟩ := hpos v h0
    have hf := hfinite v h0 hi
    have hplace : place v ≤ boundRank (topKey schema) schema := by
      obtain ⟨_,_,hlt⟩ := rank_split_fraction hp hf
      have he := (parts_split hp hf).2.2.2
      rw [boundRank_topKey h4 h8, place]
      omega
    have hle := (finiteIndex_le_iff h8 hp hf).mpr hplace
    rw [htop, bucketIndex_of_finite schema hp hf]
    omega
  · intro v h0
    obtain ⟨hn,hp⟩ := hpos v h0
    exact Words.bucketIndex_eq h4 h8 hn hp

abbrev smallest : Float := Float.ofBits 1

/-- The smallest double, and one between two entries of the table. -/
theorem bucketIndex_exact_smallest :
    exactBound (bucketIndex smallest 3 - 1) 3 < value smallest ∧ value smallest ≤ exactBound (bucketIndex smallest 3) 3 ∧
      bucketIndex smallest 3 < bucketIndex infinity 3 ∧ Words.bucketIndex smallest 3 = some (bucketIndex smallest 3) ∧
      exactBound 12 3 < value 3 ∧ value 3 ≤ exactBound 13 3 := by
  obtain ⟨hkey,_,hbelow,hwords⟩ := @bucketIndex_exact 3 (by decide) (by decide)
  have h0 : 0 < smallest := of_decide_eq_true rfl
  have hi : smallest < infinity := of_decide_eq_true rfl
  obtain ⟨hlow,hhigh⟩ := (hkey smallest h0 hi _).mpr rfl
  obtain ⟨hlow',hhigh'⟩ := (hkey 3 (of_decide_eq_true rfl) (of_decide_eq_true rfl) 13).mpr (by decide +kernel)
  exact ⟨hlow, hhigh, hbelow smallest h0 hi, hwords smallest h0, hlow', hhigh'⟩

end Native
end Metering
