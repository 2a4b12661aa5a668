import Metering.Proofs.Binary64.Sum

/-! # Whole doubles

The value of a double is its mantissa at its exponent. Up to 2 ^ 53 every natural number is the value of
the double of its word: it is read back as it was, and a sum that is one is exact.
-/
namespace Metering.Binary64
open Float.Model Float.Model.UnpackedFloat

/-- The value of a finite double. -/
def value (x : Float) : ℚ :=
  (sign x).apply (mantissa x) * 2 ^ exponent x

variable {x y : Float}

theorem cast_unitsOfOne : (unitsOfOne : ℚ) = 2 ^ (1074 : ℤ) := by
  obtain ⟨e,he⟩ : ∃ e : ℕ, e = 1074 := ⟨_, rfl⟩
  rw [← unitsOfOne_eq he, Nat.cast_pow, Nat.cast_ofNat, ← zpow_natCast, he]
  rfl

theorem Nonneg.value_eq (h : Nonneg x) : value x = units x / unitsOfOne := by
  have hpow : (2 : ℚ) ^ exponent x = 2 ^ (exponent x + 1074).toNat / unitsOfOne := by
    have he := exponent_ge x
    rw [cast_unitsOfOne, ← zpow_natCast, Int.toNat_of_nonneg (by omega), ← zpow_sub₀ (by decide),
      Int.add_sub_cancel]
  have happly : (sign x).apply (mantissa x) = mantissa x := by
    cases hs : sign x with
    | positive => rfl
    | negative =>
      have hn := h.nonneg
      have hparts := h.rank_eq
      have hr := Binary64.rank_eq x
      have he := exponent_ge x
      rw [hs, Sign.apply] at hr
      rw [Sign.apply]
      omega
  rw [value, hpow, happly, units]
  push_cast
  ring

theorem Nonneg.value_eq_iff (h : Nonneg x) {n : ℕ} : value x = n ↔ units x = n * unitsOfOne := by
  have hpos : (unitsOfOne : ℚ) ≠ 0 := by exact_mod_cast unitsOfOne_pos.ne'
  rw [h.value_eq, div_eq_iff hpos]
  norm_cast

theorem nonneg_of_value (hf : field x ≠ 2047) (h : 0 ≤ value x) : Nonneg x := by
  refine ⟨isNaN_of_field hf, ?_⟩
  have hr := Binary64.rank_eq x
  cases hs : sign x with
  | positive =>
    rw [hr, hs]
    exact Int.natCast_nonneg _
  | negative =>
    rw [value, hs, Sign.apply] at h
    have happly := nonneg_of_mul_nonneg_left h (by positivity)
    have hm : mantissa x = 0 := by
      have hle : -(mantissa x : ℤ) ≥ 0 := by exact_mod_cast happly
      omega
    have hzero : field x * 2 ^ 52 + fraction x = 0 := by
      unfold mantissa at hm
      split at hm <;> omega
    rw [hr, hs, hzero]
    rfl

theorem whole_parts {n : ℕ} (h0 : 0 < n) (h : n ≤ 2 ^ 53) :
    ∃ (m : ℕ) (e : ℤ), 2 ^ 52 ≤ m ∧ m < 2 ^ 53 ∧ -52 ≤ e ∧ e ≤ 1 ∧ m * 2 ^ (e + 1074).toNat = n * unitsOfOne := by
  rcases Nat.lt_or_eq_of_le h with hlt | rfl
  · have hlog : n.log2 < 53 := (Nat.log2_lt (by omega)).mpr hlt
    have hlow : 2 ^ n.log2 ≤ n := Nat.log2_self_le (by omega)
    have hhigh : n < 2 ^ (n.log2 + 1) := Nat.lt_log2_self
    have h52 : 2 ^ n.log2 * 2 ^ (52 - n.log2) = 2 ^ 52 := by rw [← Nat.pow_add, Nat.add_sub_cancel' (by omega)]
    have h53 : 2 ^ (n.log2 + 1) * 2 ^ (52 - n.log2) = 2 ^ 53 := by
      rw [Nat.pow_succ, Nat.mul_right_comm, h52, ← Nat.pow_succ]
    refine ⟨n * 2 ^ (52 - n.log2), n.log2 - 52, ?_, ?_, by omega, by omega, ?_⟩
    · exact h52 ▸ Nat.mul_le_mul_right _ hlow
    · exact h53 ▸ Nat.mul_lt_mul_of_pos_right hhigh (Nat.two_pow_pos _)
    · rw [Nat.mul_assoc, ← Nat.pow_add, unitsOfOne_eq (by omega)]
  · refine ⟨2 ^ 52, 1, by decide, by decide, by decide, by decide, ?_⟩
    rw [two_pow_eq (k := ((1 : ℤ) + 1074).toNat) (d := 1) rfl]
    omega

theorem parts_of_word {m : ℕ} {e : ℤ} (hm : m < 2 ^ 53) (hlow : -1074 ≤ e) (hhigh : e ≤ 971)
    (hc : 2 ^ 52 ≤ m ∨ e = -1074) (h : (x.toBits.toNat : ℤ) = (e + 1074) * 2 ^ 52 + m) :
    sign x = .positive ∧ mantissa x = m ∧ exponent x = e := by
  obtain ⟨hs,hf,hr⟩ := parts_of_toNat (x := x) (f := x.toBits.toNat / 2 ^ 52) (r := x.toBits.toNat % 2 ^ 52)
    (by omega) (Nat.mod_lt _ (by decide)) (by omega)
  refine ⟨hs, ?_, ?_⟩
  · unfold mantissa
    split <;> omega
  · unfold exponent
    omega

theorem units_of_word {m : ℕ} {e : ℤ} (hm : m < 2 ^ 53) (hlow : -1074 ≤ e) (hhigh : e ≤ 971)
    (hc : 2 ^ 52 ≤ m ∨ e = -1074) (h : (x.toBits.toNat : ℤ) = (e + 1074) * 2 ^ 52 + m) :
    units x = m * 2 ^ (e + 1074).toNat := by
  obtain ⟨_,hmantissa,hexponent⟩ := parts_of_word hm hlow hhigh hc h
  rw [units, hmantissa, hexponent]

theorem toNat_toBits_toFloat_whole {n : UInt64} (h : n.toNat ≤ 2 ^ 53) :
    n.toFloat.toBits.toNat = nearestRank (n.toNat * unitsOfOne) ∧
      n.toFloat.toBits.toNat ≤ 1077 * 2 ^ 52 ∧ units n.toFloat = n.toNat * unitsOfOne := by
  have hw := toNat_toBits_toFloat n
  rcases Nat.eq_zero_or_pos n.toNat with h0 | hpos
  · rw [h0, Nat.zero_mul] at hw ⊢
    have hzero : n.toFloat.toBits.toNat = 0 := hw
    have hrank : rank n.toFloat = 0 := by rw [(unsigned_toFloat n).rank_eq, hzero]; rfl
    exact ⟨hzero, by omega, units_zero_of_rank (unsigned_toFloat n).toNonneg hrank⟩
  · obtain ⟨m,e,hnormal,hm,hlow,hhigh,hparts⟩ := whole_parts hpos h
    have hr := nearestRank_canonical hm (e := e) (by omega) (.inl hnormal)
    rw [← hparts] at hw ⊢
    rw [Nat.min_eq_left (by omega)] at hw
    exact ⟨hw, by omega, units_of_word hm (by omega) (by omega) (.inl hnormal) (by omega)⟩

theorem units_toFloat {n : UInt64} (h : n.toNat ≤ 2 ^ 53) : units n.toFloat = n.toNat * unitsOfOne :=
  (toNat_toBits_toFloat_whole h).2.2

theorem field_toFloat {n : UInt64} (h : n.toNat ≤ 2 ^ 53) : field n.toFloat ≠ 2047 := by
  have hbound := (toNat_toBits_toFloat_whole h).2.1
  unfold field
  omega

theorem normal_toFloat {n : UInt64} (h0 : 0 < n.toNat) (h : n.toNat ≤ 2 ^ 53) : 2 ^ 52 ≤ mantissa n.toFloat := by
  have hu := units_toFloat h
  have hm := mantissa_lt n.toFloat
  rcases mantissa_normal n.toFloat with hnormal | he
  · exact hnormal
  · have hlarge : 2 ^ 53 ≤ unitsOfOne := two_pow_le_unitsOfOne (by decide)
    rw [units, he] at hu
    have hone : 1 * unitsOfOne ≤ n.toNat * unitsOfOne := Nat.mul_le_mul_right _ h0
    have hzero : ((-1074 : ℤ) + 1074).toNat = 0 := rfl
    rw [hzero] at hu
    omega

theorem value_toFloat {n : UInt64} (h : n.toNat ≤ 2 ^ 53) : value n.toFloat = n.toNat :=
  (unsigned_toFloat n).toNonneg.value_eq_iff.mpr (units_toFloat h)

/-- A sum that is a whole number is rounded as the number is. -/
theorem add_eq_toFloat {n : UInt64} (hx : Unsigned x) (hy : Nonneg y)
    (h : units x + units y = n.toNat * unitsOfOne) : x + y = n.toFloat :=
  eq_of_toNat_toBits (by rw [toNat_toBits_add hx hy, h, toNat_toBits_toFloat])

theorem toNat_toUInt64 {n : ℕ} (h : n ≤ 2 ^ 53) : n.toUInt64.toNat = n :=
  Nat.mod_eq_of_lt (by omega)

theorem toFloat_add {n k : ℕ} (h : n + k ≤ 2 ^ 53) : n.toUInt64.toFloat + k.toUInt64.toFloat = (n + k).toUInt64.toFloat := by
  have hn := toNat_toUInt64 (n := n) (by omega)
  have hk := toNat_toUInt64 (n := k) (by omega)
  apply add_eq_toFloat (unsigned_toFloat _) (unsigned_toFloat _).toNonneg
  rw [units_toFloat (by omega), units_toFloat (by omega), hn, hk, toNat_toUInt64 h, Nat.add_mul]

theorem ofNat_eq_toFloat {n : ℕ} (h : n < 2 ^ 53) : Float.ofNat n = n.toUInt64.toFloat := by
  have hliteral : Float.ofNat n = n.toUInt64.toFloat * 1 := by
    change Float.ofScientific n false 0 = _
    rw [Float.ofScientific, dif_pos ⟨h, by decide⟩]
    rfl
  rw [hliteral, mul_one_of_number (unsigned_toFloat _).number]

theorem rank_of_whole {n : UInt64} (h : Nonneg x) (hn : n.toNat ≤ 2 ^ 53) (hu : units x = n.toNat * unitsOfOne) :
    rank x = rank n.toFloat := by
  rw [← h.nearestRank_units, hu, (unsigned_toFloat n).rank_eq, (toNat_toBits_toFloat_whole hn).1]

theorem mantissa_repeat_shiftRightOne (m d : Nat) :
    (d.repeat ExtendedMantissa.shiftRightOne ⟨m * 2 ^ d, false, false⟩).mantissa = m := by
  rw [repeat_shiftRightOne]

theorem toUInt64_of_whole {n : UInt64} (h : Nonneg x) (hn : n.toNat ≤ 2 ^ 53)
    (hu : units x = n.toNat * unitsOfOne) : x.toUInt64 = n := by
  have hrank := rank_of_whole h hn hu
  have hbound := (toNat_toBits_toFloat_whole hn).2.1
  rw [(unsigned_toFloat n).rank_eq] at hrank
  have hread : x.toUInt64 = UInt64.ofNatClamp (UnpackedFloat.toInt 0 (UInt64.size - 1) x.toModel.unpack).toNat := rfl
  have hclamp : UInt64.ofNatClamp ((n.toNat : ℤ).toNat) = n := by
    rw [Int.toNat_natCast, UInt64.ofNatClamp, dif_pos n.toNat_lt]
    exact UInt64.toNat_inj.mp rfl
  suffices hint : UnpackedFloat.toInt 0 (UInt64.size - 1) x.toModel.unpack = n.toNat by rw [hread, hint, hclamp]
  cases shape h.number with
  | infinity _ hr =>
    cases hs : sign x <;> rw [hs, Sign.apply] at hr <;> omega
  | zero hv hr =>
    have hzero := units_zero_of_rank h hr
    rw [hzero, eq_comm, Nat.mul_eq_zero] at hu
    have h0 : n.toNat = 0 := hu.resolve_right unitsOfOne_pos.ne'
    rw [hv, h0]
    rfl
  | finite hm hv hr hf =>
    have hs : sign x = .positive := sign_of_rank_pos (by have := h.rank_eq; have := exponent_ge x; omega)
    have he := exponent_ge x
    have hshift : (0 - (exponent x - ((exponent x - 0).toNat : ℤ))).toNat = (-exponent x).toNat := by omega
    have hparts : mantissa x * 2 ^ (exponent x - 0).toNat = n.toNat * 2 ^ (-exponent x).toNat := by
      have hsum : (exponent x + 1074).toNat + (-exponent x).toNat = 1074 + (exponent x - 0).toNat := by omega
      have hpow := congrArg (· * 2 ^ (-exponent x).toNat) hu
      simp only [units] at hpow
      rw [Nat.mul_assoc, ← Nat.pow_add, two_pow_eq hsum, Nat.mul_left_comm, Nat.mul_comm n.toNat,
        Nat.mul_assoc] at hpow
      exact Nat.eq_of_mul_eq_mul_left unitsOfOne_pos hpow
    rw [hv, hs, UnpackedFloat.toInt, UnpackedFloat.roundToInt]
    simp only [decreaseExponent, shiftToExponent, Nat.shiftLeft_eq, hshift, hparts]
    exact congrArg Nat.cast (mantissa_repeat_shiftRightOne _ _)

theorem toUInt64_of_value {n : ℕ} (h : Nonneg x) (hn : n ≤ 2 ^ 53) (hv : value x = n) : x.toUInt64 = n.toUInt64 :=
  toUInt64_of_whole h (by rwa [toNat_toUInt64 hn]) (by rw [toNat_toUInt64 hn, h.value_eq_iff.mp hv])

end Metering.Binary64
