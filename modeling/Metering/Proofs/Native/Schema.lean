import Metering.Native.Schema
import Metering.Proofs.Binary64.Scale

/-! # Accepted schemas

A schema that is checked or chosen for a growth factor lies within the supported range.
-/
namespace Metering.Native
open Binary64

theorem checkSchema_range {schema s : Int} (h : checkSchema schema = .ok s) :
    minSchema ≤ s ∧ s ≤ maxSchema := by
  rw [checkSchema] at h
  split at h
  · rename_i hr
    cases h
    exact hr
  · cases h

theorem checkSchema_eq_ok_iff {schema s : Int} :
    checkSchema schema = .ok s ↔ (minSchema ≤ schema ∧ schema ≤ maxSchema) ∧ schema = s := by
  rw [checkSchema]
  split
  · rename_i hr
    rw [Except.ok.injEq]
    exact (and_iff_right hr).symm
  · rename_i hr
    exact iff_of_false (fun h => nomatch h) fun h => hr h.1

/-- A coarser division keeps the bounds of a finer one, if they lie around zero. -/
theorem ediv_two_pow_bounds {m a b : Int} {k n : Nat} (hk : k ≤ n) (ha : a ≤ 0) (hb : 0 ≤ b)
    (h1 : a * 2 ^ k ≤ m) (h2 : m < b * 2 ^ k) : a ≤ m / 2 ^ n ∧ m / 2 ^ n < b := by
  have hpos : (0 : Int) < 2 ^ n := Int.pow_pos (by decide)
  have hle : (2 : Int) ^ k ≤ 2 ^ n := mod_cast Nat.pow_le_pow_right (by decide : 0 < 2) hk
  constructor
  · rw [Int.le_ediv_iff_mul_le hpos]
    exact (Int.mul_le_mul_of_nonpos_left ha hle).trans h1
  · rw [Int.ediv_lt_iff_lt_mul hpos]
    exact h2.trans_le (Int.mul_le_mul_of_nonneg_left hle hb)

theorem floor_eq (x : Float) :
    floor x = (if negative x then - (mantissa x : Int) else mantissa x) * 2 ^ (exponent x).toNat /
      2 ^ (-exponent x).toNat := rfl

theorem floor_bounds {x : Float} (h1 : -(1025 * 2 ^ 52 + 3 * 2 ^ 50) ≤ rank x)
    (h2 : rank x < 1025 * 2 ^ 52) : -8 ≤ floor x ∧ floor x < 4 := by
  have hk := rank_eq x
  have hr := fraction_lt x
  have hm : mantissa x < 2 ^ 53 := by
    unfold mantissa
    split <;> omega
  rw [floor_eq]
  cases hn : negative x with
  | true =>
    have hs : sign x = .negative := by rw [sign, hn, if_pos rfl]
    rw [hs, Float.Model.UnpackedFloat.Sign.apply] at hk
    have he : exponent x ≤ -50 := by
      unfold exponent
      omega
    have hz : (exponent x).toNat = 0 := by omega
    rw [hz, if_pos rfl, pow_zero, Int.mul_one]
    exact ediv_two_pow_bounds (k := 50) (by omega) (by decide) (by decide) (by omega) (by omega)
  | false =>
    have hs : sign x = .positive := by rw [sign, hn]; rfl
    rw [hs, Float.Model.UnpackedFloat.Sign.apply] at hk
    have he : exponent x ≤ -51 := by
      unfold exponent
      omega
    have hz : (exponent x).toNat = 0 := by omega
    rw [hz, if_neg Bool.false_ne_true, pow_zero, Int.mul_one]
    exact ediv_two_pow_bounds (k := 51) (by omega) (by decide) (by decide) (by omega) (by omega)

theorem schemaOfExponent_range (e : Float) :
    minSchema ≤ schemaOfExponent e ∧ schemaOfExponent e ≤ maxSchema := by
  rw [schemaOfExponent]
  split
  · decide
  · split
    · decide
    · split
      · decide
      · rename_i h1 h2 h3
        have hn : e.isNaN = false := (Bool.not_eq_true _).mp h3
        have h7 : (-7 : Float).isNaN = false := rfl
        have h4 : (4 : Float).isNaN = false := rfl
        have r7 : rank (-7) = -(1025 * 2 ^ 52 + 3 * 2 ^ 50) := rfl
        have r4 : rank 4 = 1025 * 2 ^ 52 := rfl
        rw [lt_iff_rank hn h7, r7] at h1
        rw [le_iff_rank h4 hn, r4] at h2
        have hf := floor_bounds (x := e) (by omega) (by omega)
        change -4 ≤ _ ∧ _ ≤ 8
        omega

theorem schemaOfFactor_range {factor : Float} {s : Int} (h : schemaOfFactor factor = .ok s) :
    minSchema ≤ s ∧ s ≤ maxSchema := by
  rw [schemaOfFactor] at h
  split at h
  · cases h
    exact schemaOfExponent_range _
  · cases h

theorem schemaOfFactor_ok_iff {factor : Float} : (∃ s, schemaOfFactor factor = .ok s) ↔ 1 < factor := by
  rw [schemaOfFactor]
  split
  · rename_i h
    exact iff_of_true ⟨_, rfl⟩ h
  · rename_i h
    exact iff_of_false (fun ⟨_, hs⟩ => nomatch hs) h

end Metering.Native
