import Metering.Binary64
import Mathlib

/-! # Doubles in order

The rank of a double is its word read with a sign. Comparisons of doubles other than NaN are
comparisons of ranks; both zeros have rank 0, and negation negates.
-/
namespace Metering.Binary64
open Float.Model Float.Model.UnpackedFloat

def sign (x : Float) : Sign :=
  if negative x then .negative else .positive

def rank (x : Float) : Int :=
  (sign x).apply (x.toBits.toNat % 2 ^ 63 : Nat)

theorem toNat_toBits_mod (x : Float) :
    x.toBits.toNat % 2 ^ 63 = field x * 2 ^ 52 + fraction x := by
  unfold field fraction
  omega

theorem field_lt (x : Float) : field x < 2 ^ 11 := Nat.mod_lt _ (by decide)

theorem fraction_lt (x : Float) : fraction x < 2 ^ 52 := Nat.mod_lt _ (by decide)

theorem mantissa_of_normal {x : Float} (h : field x ≠ 0) : mantissa x = fraction x + 2 ^ 52 := by
  rw [mantissa, if_neg h]
  rfl

theorem toNat_unpackMantissa (b : BitVec Format.binary64.numBits) :
    (unpackMantissa b).toNat = b.toNat % 2 ^ 52 := by
  simp [unpackMantissa, BitVec.extractLsb_toNat]

theorem toNat_unpackExponent (b : BitVec Format.binary64.numBits) :
    (unpackExponent b).toNat = b.toNat / 2 ^ 52 % 2 ^ 11 := by
  simp [unpackExponent, BitVec.extractLsb_toNat, Nat.shiftRight_eq_div_pow]

theorem toNat_unpackSign (b : BitVec Format.binary64.numBits) :
    (unpackSign b).toNat = b.toNat / 2 ^ 63 := by
  have hb : b.toNat < 2 ^ 64 := b.isLt
  simp [unpackSign, BitVec.extractLsb_toNat, Nat.shiftRight_eq_div_pow]
  omega

theorem ofBitVec_unpackSign (x : Float) :
    Sign.ofBitVec (@unpackSign .binary64 x.toBits.toBitVec) = sign x := by
  have hs := toNat_unpackSign x.toBits.toBitVec
  have hw : x.toBits.toNat < 2 ^ 64 := x.toBits.toNat_lt
  rw [UInt64.toNat_toBitVec] at hs
  rw [Sign.ofBitVec, sign, negative]
  by_cases hn : 2 ^ 63 ≤ x.toBits.toNat
  · have h1 : @unpackSign .binary64 x.toBits.toBitVec ≠ 0#1 := by
      intro h
      rw [h] at hs
      change 0 = _ at hs
      omega
    rw [if_neg h1, if_pos (by simpa using hn)]
  · have h1 : @unpackSign .binary64 x.toBits.toBitVec = 0#1 := by
      apply BitVec.eq_of_toNat_eq
      rw [hs]
      change _ = 0
      omega
    rw [if_pos h1, if_neg (by simpa using hn)]

theorem unpack_toModel (x : Float) : x.toModel.unpack =
    if field x = 2047 then if fraction x = 0 then .infinity (sign x) else .notANumber
    else if h : mantissa x = 0 then .zero (sign x)
    else .finite (sign x) (mantissa x) (exponent x) (Nat.pos_of_ne_zero h) := by
  have hm := toNat_unpackMantissa x.toBits.toBitVec
  have he := toNat_unpackExponent x.toBits.toBitVec
  rw [UInt64.toNat_toBitVec] at hm he
  change x.toModel.unpack = _
  change _ = fraction x at hm
  change _ = field x at he
  have hfield := field_lt x
  have hmax : @unpackExponent .binary64 x.toBits.toBitVec = -1#_ ↔ field x = 2047 := by
    rw [← BitVec.toNat_inj, he]
    rfl
  have hmin : @unpackExponent .binary64 x.toBits.toBitVec = 0#_ ↔ field x = 0 := by
    rw [← BitVec.toNat_inj, he]
    rfl
  have hzero : @unpackMantissa .binary64 x.toBits.toBitVec = 0#_ ↔ fraction x = 0 := by
    rw [← BitVec.toNat_inj, hm]
    rfl
  have hnormal : (1#1 ++ @unpackMantissa .binary64 x.toBits.toBitVec).toNat =
      fraction x + 2 ^ 52 := by
    rw [BitVec.toNat_append, ← Nat.shiftLeft_add_eq_or_of_lt (BitVec.isLt _), hm]
    exact Nat.add_comm _ _
  have hbias : (Format.binary64.exponentBias : Int) = 1023 := rfl
  change UnpackedFloat.unpack .binary64 x.toBits.toBitVec = _
  rw [UnpackedFloat.unpack]
  simp only [ofBitVec_unpackSign, hmax, hmin, hzero, hm, he, hnormal]
  by_cases h1 : field x = 2047
  · simp only [h1, if_true]
  · by_cases h2 : field x = 0
    · by_cases h3 : fraction x = 0
      · simp [h2, h3, mantissa]
      · simp [h2, h3, mantissa, exponent]
        omega
    · simp [h1, h2, mantissa, exponent]
      omega

theorem isNaN_iff (x : Float) : x.isNaN = true ↔ field x = 2047 ∧ fraction x ≠ 0 := by
  change x.toModel.unpack.isNaN = true ↔ _
  rw [unpack_toModel]
  by_cases h1 : field x = 2047
  · by_cases h2 : fraction x = 0
    · simp [h1, h2, UnpackedFloat.isNaN]
    · simp [h1, h2, UnpackedFloat.isNaN]
  · by_cases h2 : mantissa x = 0 <;> simp [h1, h2, UnpackedFloat.isNaN]

theorem rank_eq (x : Float) : rank x = (sign x).apply (field x * 2 ^ 52 + fraction x : Nat) := by
  rw [rank, toNat_toBits_mod]

theorem mantissa_bounds {x : Float} (h : field x ≠ 2047) :
    mantissa x < 2 ^ 53 ∧ -1074 ≤ exponent x ∧ exponent x ≤ 971 ∧
      (2 ^ 52 ≤ mantissa x ∨ exponent x = -1074) ∧
      (field x * 2 ^ 52 + fraction x : Nat) = (exponent x + 1074) * 2 ^ 52 + mantissa x := by
  have hf := field_lt x
  have hr := fraction_lt x
  unfold mantissa exponent
  split <;> omega

/-- What a double other than NaN is when it is read apart. -/
inductive Shape (x : Float) : Prop
  | infinity (hu : x.toModel.unpack = .infinity (sign x))
      (hr : rank x = (sign x).apply (2047 * 2 ^ 52))
  | zero (hu : x.toModel.unpack = .zero (sign x)) (hr : rank x = 0)
  | finite (hm : 0 < mantissa x)
      (hu : x.toModel.unpack = .finite (sign x) (mantissa x) (exponent x) hm)
      (hr : rank x = (sign x).apply ((exponent x + 1074) * 2 ^ 52 + mantissa x))
      (hf : field x ≠ 2047)

theorem shape {x : Float} (h : x.isNaN = false) : Shape x := by
  have hn := isNaN_iff x
  have hu := unpack_toModel x
  have hr := rank_eq x
  by_cases h1 : field x = 2047
  · have h2 : fraction x = 0 := by
      by_contra h2
      rw [hn.mpr ⟨h1, h2⟩] at h
      cases h
    rw [h1, h2] at hr
    exact .infinity (by simpa [h1, h2] using hu) hr
  · have hb := mantissa_bounds h1
    rw [hb.2.2.2.2] at hr
    by_cases h2 : mantissa x = 0
    · refine .zero (by simpa [h1, h2] using hu) ?_
      have he : exponent x = -1074 := by omega
      rw [hr, he, h2]
      cases sign x <;> rfl
    · exact .finite (Nat.pos_of_ne_zero h2) (by simpa [h1, h2] using hu) hr h1

/-- Exponent first and mantissa second is the order of the words. -/
theorem compare_then {m n : Nat} {d e : Int} (hm : m < 2 ^ 53) (hn : n < 2 ^ 53)
    (hd : -1074 ≤ d) (he : -1074 ≤ e) (hmd : 2 ^ 52 ≤ m ∨ d = -1074) (hne : 2 ^ 52 ≤ n ∨ e = -1074) :
    (compare d e).then (compare m n) =
      compare ((d + 1074) * 2 ^ 52 + m) ((e + 1074) * 2 ^ 52 + n) := by
  rcases lt_trichotomy d e with h | h | h
  · have hlt : (d + 1074) * 2 ^ 52 + (m : Int) < (e + 1074) * 2 ^ 52 + n := by omega
    rw [compare_lt_iff_lt.mpr h, compare_lt_iff_lt.mpr hlt]
    rfl
  · subst h
    rw [compare_eq_iff_eq.mpr (rfl : d = d), Ordering.then]
    rcases lt_trichotomy m n with h | h | h
    · have hlt : (d + 1074) * 2 ^ 52 + (m : Int) < (d + 1074) * 2 ^ 52 + n := by omega
      rw [compare_lt_iff_lt.mpr h, compare_lt_iff_lt.mpr hlt]
    · rw [compare_eq_iff_eq.mpr h, h, compare_eq_iff_eq.mpr rfl]
    · have hgt : (d + 1074) * 2 ^ 52 + (m : Int) > (d + 1074) * 2 ^ 52 + n := by omega
      rw [compare_gt_iff_gt.mpr h, compare_gt_iff_gt.mpr hgt]
  · have hgt : (d + 1074) * 2 ^ 52 + (m : Int) > (e + 1074) * 2 ^ 52 + n := by omega
    rw [compare_gt_iff_gt.mpr h, compare_gt_iff_gt.mpr hgt]
    rfl

theorem compare_neg_neg (a b : Int) : compare (-a) (-b) = (compare a b).swap := by
  rcases lt_trichotomy a b with h | h | h
  · rw [compare_lt_iff_lt.mpr h, compare_gt_iff_gt.mpr (Int.neg_lt_neg h)]
    rfl
  · rw [h, compare_eq_iff_eq.mpr rfl, compare_eq_iff_eq.mpr rfl]
    rfl
  · rw [compare_gt_iff_gt.mpr h, compare_lt_iff_lt.mpr (Int.neg_lt_neg h)]
    rfl

theorem compare_unpack {x y : Float} (hx : x.isNaN = false) (hy : y.isNaN = false) :
    x.toModel.unpack.compare y.toModel.unpack = some (compare (rank x) (rank y)) := by
  cases shape hx with
  | infinity hu hr =>
    cases shape hy with
    | infinity hv hs =>
      rw [hu, hv, hr, hs]
      cases sign x <;> cases sign y <;> rfl
    | zero hv hs =>
      rw [hu, hv, hr, hs]
      cases sign x <;> rfl
    | finite hn hv hs hg =>
      have hb := mantissa_bounds hg
      rw [hu, hv, hr, hs, eq_comm]
      cases sign x <;> cases sign y <;>
        simp only [UnpackedFloat.compare, Sign.apply, Option.some.injEq, compare_lt_iff_lt,
          compare_gt_iff_gt] <;>
        omega
  | zero hu hr =>
    cases shape hy with
    | infinity hv hs =>
      rw [hu, hv, hr, hs]
      cases sign x <;> cases sign y <;> rfl
    | zero hv hs =>
      rw [hu, hv, hr, hs]
      rfl
    | finite hn hv hs hg =>
      have hb := mantissa_bounds hg
      rw [hu, hv, hr, hs, eq_comm]
      cases sign y <;>
        simp only [UnpackedFloat.compare, Sign.apply, Option.some.injEq, compare_lt_iff_lt,
          compare_gt_iff_gt] <;>
        omega
  | finite hm hu hr hf =>
    have ha := mantissa_bounds hf
    cases shape hy with
    | infinity hv hs =>
      rw [hu, hv, hr, hs, eq_comm]
      cases sign x <;> cases sign y <;>
        simp only [UnpackedFloat.compare, Sign.apply, Option.some.injEq, compare_lt_iff_lt,
          compare_gt_iff_gt] <;>
        omega
    | zero hv hs =>
      rw [hu, hv, hr, hs, eq_comm]
      cases sign x <;>
        simp only [UnpackedFloat.compare, Sign.apply, Option.some.injEq, compare_lt_iff_lt,
          compare_gt_iff_gt] <;>
        omega
    | finite hn hv hs hg =>
      have hb := mantissa_bounds hg
      -- With one sign exponents compare before mantissas, and so do the ranks that are made of them.
      have ht := compare_then ha.1 hb.1 ha.2.1 hb.2.1 ha.2.2.2.1 hb.2.2.2.1
      rw [hu, hv, hr, hs]
      cases sign x <;> cases sign y
      · rw [UnpackedFloat.compare, ht, Sign.apply, Sign.apply, compare_neg_neg]
      · rw [UnpackedFloat.compare, eq_comm, Option.some.injEq, compare_lt_iff_lt, Sign.apply, Sign.apply]
        omega
      · rw [UnpackedFloat.compare, eq_comm, Option.some.injEq, compare_gt_iff_gt, Sign.apply, Sign.apply]
        omega
      · rw [UnpackedFloat.compare, ht, Sign.apply, Sign.apply]

variable {x y : Float}

theorem lt_iff_rank (hx : x.isNaN = false) (hy : y.isNaN = false) : x < y ↔ rank x < rank y := by
  change decide (x.toModel.unpack.lt y.toModel.unpack = true) = true ↔ _
  rw [decide_eq_true_iff, UnpackedFloat.lt, compare_unpack hx hy, beq_iff_eq, Option.some.injEq,
    compare_lt_iff_lt]

theorem unpack_of_isNaN (h : x.isNaN = true) : x.toModel.unpack = .notANumber := by
  obtain ⟨h1,h2⟩ := (isNaN_iff x).mp h
  rw [unpack_toModel, if_pos h1, if_neg h2]

theorem compare_notANumber (u : UnpackedFloat) : u.compare .notANumber = none := by
  cases u <;> rfl

theorem isNaN_of_compare {o : Ordering} (h : x.toModel.unpack.compare y.toModel.unpack = some o) :
    x.isNaN = false ∧ y.isNaN = false := by
  refine ⟨?_, ?_⟩ <;> rw [← Bool.not_eq_true] <;> intro hn <;> rw [unpack_of_isNaN hn] at h
  · cases h
  · rw [compare_notANumber] at h
    cases h

theorem isNaN_of_lt (h : x < y) : x.isNaN = false ∧ y.isNaN = false := by
  change decide (x.toModel.unpack.lt y.toModel.unpack = true) = true at h
  rw [decide_eq_true_iff, UnpackedFloat.lt, beq_iff_eq] at h
  exact isNaN_of_compare h

theorem isNaN_of_le (h : x ≤ y) : x.isNaN = false ∧ y.isNaN = false := by
  change decide (x.toModel.unpack.le y.toModel.unpack = true) = true at h
  rw [decide_eq_true_iff, UnpackedFloat.le, Option.any_eq_true] at h
  obtain ⟨o,ho,_⟩ := h
  exact isNaN_of_compare ho

theorem isNaN_of_beq (h : (x == y) = true) : x.isNaN = false ∧ y.isNaN = false := by
  change x.toModel.unpack.beq y.toModel.unpack = true at h
  rw [UnpackedFloat.beq, beq_iff_eq] at h
  exact isNaN_of_compare h

theorem le_iff_rank (hx : x.isNaN = false) (hy : y.isNaN = false) : x ≤ y ↔ rank x ≤ rank y := by
  change decide (x.toModel.unpack.le y.toModel.unpack = true) = true ↔ _
  rw [decide_eq_true_iff, UnpackedFloat.le, compare_unpack hx hy, Option.any_some]
  exact Std.isLE_compare

theorem beq_iff_rank (hx : x.isNaN = false) (hy : y.isNaN = false) :
    (x == y) = true ↔ rank x = rank y := by
  change x.toModel.unpack.beq y.toModel.unpack = true ↔ _
  rw [UnpackedFloat.beq, compare_unpack hx hy, beq_iff_eq, Option.some.injEq, compare_eq_iff_eq]

end Metering.Binary64
