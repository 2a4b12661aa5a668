import Metering.Proofs.Binary64.Pack

/-! # Exact products

A product or quotient whose value is a canonical mantissa at some exponent is that value: rounding
drops only zeros. Powers of two multiply exactly, so that scaling by one adds to the exponent.
-/
namespace Metering.Binary64
open Float.Model Float.Model.UnpackedFloat

theorem repeat_shiftRightOne (m d : Nat) :
    d.repeat ExtendedMantissa.shiftRightOne ⟨m * 2 ^ d, false, false⟩ = ⟨m, false, false⟩ := by
  induction d generalizing m with
  | zero => rw [Nat.pow_zero, Nat.mul_one, Nat.repeat]
  | succ d ih =>
    have hm : m * 2 ^ (d + 1) = m * 2 * 2 ^ d := by rw [Nat.pow_succ', Nat.mul_assoc]
    have hd : m * 2 / 2 = m := Nat.mul_div_cancel m (by decide)
    have hr : m * 2 % 2 = 0 := Nat.mul_mod_left m 2
    rw [Nat.repeat, hm, ih, ExtendedMantissa.shiftRightOne, hd, hr]
    rfl

theorem log2_mul_two_pow {m : Nat} (hm : 0 < m) (d : Nat) : (m * 2 ^ d).log2 = m.log2 + d := by
  have h1 : 2 ^ m.log2 ≤ m := Nat.log2_self_le (by omega)
  have h2 : m < 2 ^ (m.log2 + 1) := Nat.lt_log2_self
  apply log2_eq
  · rw [Nat.pow_add]
    exact Nat.mul_le_mul_right _ h1
  · rw [Nat.add_right_comm, Nat.pow_add]
    exact Nat.mul_lt_mul_of_pos_right h2 (Nat.two_pow_pos d)

theorem targetExponent_canonical {m d : Nat} {e : Int} (hc : Canonical m (e + d)) :
    Format.binary64.targetExponent (totalExponent (m * 2 ^ d) e) = e + d := by
  obtain ⟨h1,h2,h3,h4⟩ := hc
  have hbits : (Format.binary64.mantissaBits : Int) = 53 := rfl
  have hmin : Format.binary64.minExponent = -1074 := rfl
  rw [Format.targetExponent, totalExponent, hbits, hmin, log2_mul_two_pow h1]
  by_cases hn : 2 ^ 52 ≤ m
  · rw [log2_eq hn h2]
    omega
  · have hl : m.log2 < 52 := (Nat.log2_lt (by omega)).mpr (by omega)
    omega

theorem shiftToTargetExponent_exact {m d : Nat} {e : Int} (hc : Canonical m (e + d)) :
    shiftToTargetExponent .binary64 (m * 2 ^ d) e .exact = (⟨m, false, false⟩, e + d) := by
  have hd : (e + d - e).toNat = d := by omega
  rw [shiftToTargetExponent, targetExponent_canonical hc, shiftToExponent, hd]
  exact congrArg (·, e + (d : Int)) (repeat_shiftRightOne m d)

theorem roundWithAccuracy_exact {m d : Nat} {e : Int} (s : Sign) (hc : Canonical m (e + d)) :
    roundWithAccuracy .binary64 s (m * 2 ^ d) e .exact = .finite s m (e + d) hc.1 := by
  have h0 : shiftToTargetExponent .binary64 m (e + d) .exact = (⟨m, false, false⟩, e + d) := by
    have h := shiftToTargetExponent_exact (m := m) (d := 0) (e := e + d) (by simpa using hc)
    simpa using h
  have hr : (⟨m, false, false⟩ : ExtendedMantissa).roundedMantissa = m := rfl
  rw [roundWithAccuracy, shiftToTargetExponent_exact hc]
  simp only [hr, h0, Nat.ne_of_gt hc.1, dite_false]

theorem unpack_finite {x : Float} (hf : field x ≠ 2047) (hm : 0 < mantissa x) :
    x.toModel.unpack = .finite (sign x) (mantissa x) (exponent x) hm := by
  rw [unpack_toModel, if_neg hf, dif_neg (by omega)]

theorem mul_positive {x y : Float} {m d : Nat} (hsx : sign x = .positive) (hsy : sign y = .positive)
    (hx : field x ≠ 2047) (hy : field y ≠ 2047) (hm : mantissa x * mantissa y = m * 2 ^ d)
    (hc : Canonical m (exponent x + exponent y + d)) :
    x * y = Float.ofModel (.pack (.finite .positive m (exponent x + exponent y + d) hc.1)) := by
  have hp : 0 < mantissa x * mantissa y := by
    rw [hm]
    exact Nat.mul_pos hc.1 (Nat.two_pow_pos d)
  rw [mul_eq_pack, unpack_finite hx (Nat.pos_of_mul_pos_right hp), unpack_finite hy (Nat.pos_of_mul_pos_left hp),
    UnpackedFloat.mul, hm, roundWithAccuracy_exact _ hc, hsx, hsy]
  rfl

/-- Multiplying by one gives back the bits, those of zeros and infinities included. -/
theorem mul_one_of_number {x : Float} (h : x.isNaN = false) : x * 1 = x := by
  have hone : (1 : Float).toModel.unpack = .finite .positive (2 ^ 52) (-52) (by decide) :=
    unpack_finite (by decide) (by decide)
  have hsign : sign x * .positive = sign x := by cases sign x <;> rfl
  rw [mul_eq_pack, hone]
  cases shape h with
  | infinity hu _ => rw [hu, UnpackedFloat.mul, hsign, ← hu, ofModel_pack_unpack]
  | zero hu _ => rw [hu, UnpackedFloat.mul, hsign, ← hu, ofModel_pack_unpack]
  | finite hm hu _ hf =>
    have he : exponent x + -52 + (52 : Nat) = exponent x := by omega
    have hc : Canonical (mantissa x) (exponent x + -52 + (52 : Nat)) := he.symm ▸ canonical_parts hf hm
    rw [hu, UnpackedFloat.mul, hsign, roundWithAccuracy_exact _ hc]
    simp only [he]
    rw [← hu, ofModel_pack_unpack]

/-- `2 ^ n` for the exponents of normal doubles. -/
@[irreducible] def twoPow (n : Int) : Float :=
  Float.ofBits (((n + 1023).toNat * 2 ^ 52).toUInt64)

theorem toNat_toBits_twoPow {n : Int} (h1 : -1022 ≤ n) (h2 : n ≤ 1023) :
    (twoPow n).toBits.toNat = (n + 1023).toNat * 2 ^ 52 := by
  have hw : (((n + 1023).toNat * 2 ^ 52).toUInt64).toNat = (n + 1023).toNat * 2 ^ 52 :=
    UInt64.toNat_ofNat_of_lt' (by change _ < 2 ^ 64; omega)
  rw [twoPow, toBits_ofBits (by omega), hw]

theorem parts_of_toNat {x : Float} {f r : Nat} (hf : f < 2048) (hr : r < 2 ^ 52)
    (h : x.toBits.toNat = f * 2 ^ 52 + r) : sign x = .positive ∧ field x = f ∧ fraction x = r := by
  refine ⟨?_, ?_, ?_⟩
  · rw [sign, negative, if_neg]
    rw [decide_eq_true_iff]
    omega
  · unfold field
    omega
  · unfold fraction
    omega

theorem parts_twoPow {n : Int} (h1 : -1022 ≤ n) (h2 : n ≤ 1023) :
    sign (twoPow n) = .positive ∧ field (twoPow n) = (n + 1023).toNat ∧
      mantissa (twoPow n) = 2 ^ 52 ∧ exponent (twoPow n) = n - 52 := by
  have hw := toNat_toBits_twoPow h1 h2
  obtain ⟨hs,hf,hr⟩ := parts_of_toNat (x := twoPow n) (f := (n + 1023).toNat) (r := 0) (by omega)
    (by decide) (hw.trans (Nat.add_zero _).symm)
  refine ⟨hs, hf, ?_, ?_⟩
  · rw [mantissa_of_normal (by omega), hr, Nat.zero_add]
  · rw [exponent, hf]
    omega

/-- Multiplying a normal double by a power of two adds to its exponent bits. -/
theorem toNat_toBits_mul_twoPow {x : Float} {n : Int} (hs : sign x = .positive) (h0 : field x ≠ 0)
    (hx : field x < 2047) (h1 : -1022 ≤ n) (h2 : n ≤ 1023) (hlow : 1 ≤ field x + n) :
    ((x * twoPow n).toBits.toNat : Int) =
      if field x + n < 2047 then x.toBits.toNat + n * 2 ^ 52 else 2047 * 2 ^ 52 := by
  obtain ⟨ts,tf,tm,te⟩ := parts_twoPow h1 h2
  have hr := fraction_lt x
  have hw := toNat_toBits_of_positive hs
  have hm := mantissa_of_normal h0
  have he : exponent x = field x - 1075 := by
    rw [exponent]
    omega
  have hsum : exponent x + exponent (twoPow n) + (52 : Nat) = field x + n - 1075 := by omega
  have hc : Canonical (mantissa x) (exponent x + exponent (twoPow n) + (52 : Nat)) :=
    ⟨by omega, by omega, by omega, .inl (by omega)⟩
  have hprod : mantissa x * mantissa (twoPow n) = mantissa x * 2 ^ 52 := congrArg _ tm
  rw [mul_positive hs ts (by omega) (by omega) hprod hc]
  split
  · rw [toNat_pack_positive hc.1 hc (by omega)]
    omega
  · rw [toNat_pack_overflow hc.1 (by omega)]
    rfl

theorem twoPow_mul {a b : Int} (ha : -1022 ≤ a) (hb : -1022 ≤ b) (hab : -1022 ≤ a + b)
    (ha' : a ≤ 1023) (hb' : b ≤ 1023) (hab' : a + b ≤ 1023) :
    twoPow a * twoPow b = twoPow (a + b) := by
  obtain ⟨hs,hf,_,_⟩ := parts_twoPow ha ha'
  have hw := toNat_toBits_twoPow ha ha'
  have hw' := toNat_toBits_twoPow hab hab'
  have hm := toNat_toBits_mul_twoPow hs (by omega) (by omega) hb hb' (by omega)
  rw [if_pos (by omega)] at hm
  apply eq_of_toNat_toBits
  omega

theorem powerLoop_twoPow {a b : Int} {n : Nat} (ha : 0 ≤ a) (hb : 0 ≤ b) (h : a + b * n ≤ 1023) :
    powerLoop (twoPow b) (twoPow a) n = twoPow (a + b * n) := by
  induction n using Nat.strongRecOn generalizing a b with
  | ind n ih =>
    have hq : 0 ≤ b * (n / 2 : Nat) := Int.mul_nonneg hb (Int.natCast_nonneg _)
    have hn : b * n = 2 * (b * (n / 2 : Nat)) + b * (n % 2 : Nat) := by
      conv_lhs => rw [← Nat.div_add_mod n 2]
      push_cast
      ring
    have hacc : (if n % 2 = 1 then twoPow a * twoPow b else twoPow a) = twoPow (a + b * (n % 2 : Nat)) := by
      rcases Nat.mod_two_eq_zero_or_one n with h2 | h2
      · rw [if_neg (by omega), h2, Int.natCast_zero, Int.mul_zero, Int.add_zero]
      · rw [h2] at hn ⊢
        rw [if_pos rfl, Int.natCast_one, Int.mul_one]
        exact twoPow_mul (by omega) (by omega) (by omega) (by omega) (by omega) (by omega)
    have hr : 0 ≤ b * (n % 2 : Nat) := Int.mul_nonneg hb (Int.natCast_nonneg _)
    rw [powerLoop]
    simp only [hacc]
    split
    · rename_i h2
      rw [h2] at hn
      congr 1
      omega
    · rename_i h2
      have hle : b * 1 ≤ b * (n / 2 : Nat) := Int.mul_le_mul_of_nonneg_left (by omega) hb
      have hd : (b + b) * (n / 2 : Nat) = 2 * (b * (n / 2 : Nat)) := by ring
      rw [twoPow_mul (by omega) (by omega) (by omega) (by omega) (by omega) (by omega),
        ih (n / 2) (by omega) (by omega) (by omega) (by omega)]
      congr 1
      omega

theorem one_eq_twoPow : (1 : Float) = twoPow 0 := by
  apply eq_of_toNat_toBits
  rw [toNat_toBits_twoPow (by decide) (by decide)]
  rfl

theorem two_eq_twoPow : (2 : Float) = twoPow 1 := by
  apply eq_of_toNat_toBits
  rw [toNat_toBits_twoPow (by decide) (by decide)]
  rfl

theorem divCore_twoPow {n : Int} (h1 : 0 ≤ n) (h2 : n ≤ 1020) :
    divCore .binary64 (2 ^ 52) (-52) (2 ^ 52) (n - 52) = (2 ^ 52 * 2 ^ 1, -n - 53, .exact) := by
  have hl : (2 ^ 52 : Nat).log2 = 52 := Nat.log2_two_pow
  have hbits : (Format.binary64.mantissaBits : Int) = 53 := rfl
  have hmin : Format.binary64.minExponent = -1074 := rfl
  have ht : min (-52 - (n - 52)) (Format.binary64.targetExponent
      (totalExponent (2 ^ 52) (-52) - totalExponent (2 ^ 52) (n - 52))) = -n - 53 := by
    rw [Format.targetExponent, totalExponent, totalExponent, hl, hbits, hmin]
    omega
  have hshift : (-52 - (n - 52) - (-n - 53)).toNat = 53 := by omega
  have hq : (2 ^ 52 : Nat) <<< 53 / 2 ^ 52 = 2 ^ 52 * 2 ^ 1 := rfl
  have hr : (2 ^ 52 : Nat) <<< 53 % 2 ^ 52 = 0 := rfl
  simp only [divCore, ht, hshift, hq, hr, accuracyOfFraction, if_true]

theorem one_div_twoPow {n : Int} (h1 : 0 ≤ n) (h2 : n ≤ 1020) : 1 / twoPow n = twoPow (-n) := by
  obtain ⟨s1,f1,m1,e1⟩ := parts_twoPow (n := 0) (by decide) (by decide)
  obtain ⟨s2,f2,m2,e2⟩ := parts_twoPow (n := n) (by omega) (by omega)
  have hw := toNat_toBits_twoPow (n := -n) (by omega) (by omega)
  have hu1 : (twoPow 0).toModel.unpack = .finite .positive (2 ^ 52) (-52) (by decide) := by
    have hu := unpack_finite (x := twoPow 0) (by omega) (by omega)
    simpa only [s1, m1, e1, Int.zero_sub] using hu
  have hu2 : (twoPow n).toModel.unpack = .finite .positive (2 ^ 52) (n - 52) (by decide) := by
    have hu := unpack_finite (x := twoPow n) (by omega) (by omega)
    simpa only [s2, m2, e2] using hu
  have hc : Canonical (2 ^ 52) (-n - 53 + (1 : Nat)) := ⟨by decide, by decide, by omega, .inl (by decide)⟩
  have hk := toNat_pack_positive hc.1 hc (by omega)
  have hs : (.positive / .positive : Sign) = .positive := rfl
  rw [one_eq_twoPow]
  apply eq_of_toNat_toBits
  rw [div_eq_pack, hu1, hu2, UnpackedFloat.div, divCore_twoPow h1 h2]
  dsimp only
  rw [hs, roundWithAccuracy_exact _ hc]
  omega

/-- The powers of two that are normal doubles are computed without rounding. -/
theorem power_two {n : Int} (h1 : -1020 ≤ n) (h2 : n ≤ 1023) : power 2 n = twoPow n := by
  have hl : powerLoop 2 1 n.natAbs = twoPow n.natAbs := by
    rw [two_eq_twoPow, one_eq_twoPow, powerLoop_twoPow (by decide) (by decide) (by omega)]
    congr 1
    omega
  rw [power, hl]
  split
  · rw [one_div_twoPow (by omega) (by omega)]
    congr 1
    omega
  · congr 1
    omega

end Metering.Binary64
