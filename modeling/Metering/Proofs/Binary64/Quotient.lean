import Metering.Proofs.Binary64.Whole

/-! # Quotients

A quotient is cut off with a note of what was lost. It is rounded as the number that is two bits longer and
says the same, so that a bound of the exact quotient carries over to its double.
-/
namespace Metering.Binary64
open Float.Model Float.Model.UnpackedFloat

variable {x y : Float}

/-- The mantissa with two more bits for what was cut off: nothing, less than half, half or more. -/
def sharpened (m : Nat) : Accuracy → Nat
  | .exact => 4 * m
  | .inexact .lt => 4 * m + 1
  | .inexact .eq => 4 * m + 2
  | .inexact .gt => 4 * m + 3

theorem sharpened_bounds (m : Nat) (a : Accuracy) : 4 * m ≤ sharpened m a ∧ sharpened m a < 4 * (m + 1) := by
  unfold sharpened
  split <;> omega

theorem repeat_two_sharpened (m : Nat) (a : Accuracy) :
    (2).repeat ExtendedMantissa.shiftRightOne ⟨sharpened m a, false, false⟩ =
      ExtendedMantissa.ofMantissaAndAccuracy m a := by
  unfold sharpened ExtendedMantissa.ofMantissaAndAccuracy
  simp only [Nat.repeat, ExtendedMantissa.shiftRightOne]
  split <;> simp <;> omega

theorem repeat_add_two (em : ExtendedMantissa) (d : Nat) :
    (d + 2).repeat ExtendedMantissa.shiftRightOne em =
      d.repeat ExtendedMantissa.shiftRightOne ((2).repeat ExtendedMantissa.shiftRightOne em) := by
  induction d with
  | zero => rfl
  | succ d ih =>
    rw [Nat.add_right_comm, Nat.repeat, ih]
    rfl

theorem log2_sharpened {m : Nat} (hm : 0 < m) (a : Accuracy) : (sharpened m a).log2 = m.log2 + 2 := by
  obtain ⟨hle,hlt⟩ := sharpened_bounds m a
  have hlow : 2 ^ m.log2 ≤ m := Nat.log2_self_le (by omega)
  have hhigh : m < 2 ^ (m.log2 + 1) := Nat.lt_log2_self
  have hsucc : 2 ^ (m.log2 + 2 + 1) = 4 * 2 ^ (m.log2 + 1) := by ring
  have hfirst : 2 ^ (m.log2 + 2) = 4 * 2 ^ m.log2 := by ring
  apply log2_eq <;> omega

/-- Rounding looks at no more than the longer number. -/
theorem roundWithAccuracy_sharpened {m : Nat} {e : Int} (s : Sign) (a : Accuracy) (hm : 52 ≤ m.log2) :
    roundWithAccuracy .binary64 s m e a = roundWithAccuracy .binary64 s (sharpened m a) (e - 2) .exact := by
  have hpos : 0 < m := by
    rcases Nat.eq_zero_or_pos m with rfl | hpos
    · simp at hm
    · exact hpos
  have hbits : (Format.binary64.mantissaBits : Int) = 53 := rfl
  have htotal : totalExponent (sharpened m a) (e - 2) = totalExponent m e := by
    rw [totalExponent, totalExponent, log2_sharpened hpos]
    push_cast
    ring
  have htarget : e ≤ Format.binary64.targetExponent (totalExponent m e) := by
    rw [Format.targetExponent, totalExponent, hbits]
    omega
  have hshift : shiftToTargetExponent .binary64 (sharpened m a) (e - 2) .exact =
      shiftToTargetExponent .binary64 m e a := by
    rw [shiftToTargetExponent, shiftToTargetExponent, htotal]
    generalize Format.binary64.targetExponent (totalExponent m e) = t at *
    have hd : (t - (e - 2)).toNat = (t - e).toNat + 2 := by omega
    have hend : e - 2 + (((t - e).toNat + 2 : Nat) : Int) = e + ((t - e).toNat : Int) := by omega
    rw [shiftToExponent, shiftToExponent, hd]
    rw [hend, ← repeat_two_sharpened m a]
    exact congrArg (·, _) (repeat_add_two _ _)
  rw [roundWithAccuracy, roundWithAccuracy, hshift]

theorem isNaN_div (hx : x.isNaN = false) (hf : field y ≠ 2047) (hm : 0 < mantissa y) : (x / y).isNaN = false := by
  rw [div_eq_pack]
  apply isNaN_pack
  rw [unpack_finite hf hm]
  cases shape hx with
  | infinity hu _ => rw [hu]; rfl
  | zero hu _ => rw [hu]; rfl
  | finite _ hu _ _ =>
    rw [hu, UnpackedFloat.div]
    dsimp only
    rw [roundWithAccuracy]
    dsimp only
    split <;> rfl

theorem divCore_normal {m n : Nat} {e f : Int} (hm : m.log2 = 52) (hn : n.log2 = 52) (hlow : -1021 ≤ e - f) :
    divCore .binary64 m e n f =
      (m * 2 ^ 53 / n, e - f - 53, accuracyOfFraction (m * 2 ^ 53 % n) n) := by
  have hbits : (Format.binary64.mantissaBits : Int) = 53 := rfl
  have hmin : Format.binary64.minExponent = -1074 := rfl
  have htarget : min (e - f) (Format.binary64.targetExponent (totalExponent m e - totalExponent n f)) = e - f - 53 := by
    rw [Format.targetExponent, totalExponent, totalExponent, hbits, hmin, hm, hn]
    omega
  have hshift : (e - f - (e - f - 53)).toNat = 53 := by omega
  rw [divCore, htarget, hshift, Nat.shiftLeft_eq]

/-- A quotient of normal numbers has no higher rank than any number of units that is not below it. -/
theorem rank_div_le {n : Nat} (hx : Unsigned x) (hy : Unsigned y) (hfx : field x ≠ 2047) (hfy : field y ≠ 2047)
    (hmx : 2 ^ 52 ≤ mantissa x) (hmy : 2 ^ 52 ≤ mantissa y) (hlow : -1019 ≤ exponent x - exponent y)
    (hle : 4 * (mantissa x * 2 ^ 53 / mantissa y + 1) * 2 ^ (exponent x - exponent y + 1019).toNat ≤ n) :
    Unsigned (x / y) ∧ rank (x / y) ≤ nearestRank n := by
  have hlx := log2_eq hmx (mantissa_lt x)
  have hly := log2_eq hmy (mantissa_lt y)
  have hpos : 0 < mantissa y := by omega
  have hquotient : 2 ^ 52 ≤ mantissa x * 2 ^ 53 / mantissa y := by
    have hlt := mantissa_lt y
    rw [Nat.le_div_iff_mul_le hpos]
    nlinarith
  have hdiv : x / y = Float.ofModel (.pack (roundWithAccuracy .binary64 .positive
      (sharpened (mantissa x * 2 ^ 53 / mantissa y)
        (accuracyOfFraction (mantissa x * 2 ^ 53 % mantissa y) (mantissa y)))
      (exponent x - exponent y - 53 - 2) .exact)) := by
    rw [div_eq_pack, unpack_finite hfx (by omega), unpack_finite hfy hpos, hx.unsigned, hy.unsigned, UnpackedFloat.div,
      divCore_normal hlx hly (by omega)]
    dsimp only
    rw [← roundWithAccuracy_sharpened _ _ ((Nat.le_log2 (by omega)).mpr hquotient)]
    rfl
  -- Which remainder was cut off does not matter: two more bits bound it from above.
  generalize accuracyOfFraction (mantissa x * 2 ^ 53 % mantissa y) (mantissa y) = a at hdiv
  generalize mantissa x * 2 ^ 53 / mantissa y = q at *
  obtain ⟨_,hsharp⟩ := sharpened_bounds q a
  have hlog := log2_sharpened (m := q) (by omega) a
  have hq := (Nat.le_log2 (by omega)).mpr hquotient
  obtain ⟨r,t,hr,heq,hc,hrank⟩ := roundWithAccuracy_units (m := sharpened q a) (e := exponent x - exponent y - 53 - 2)
    .positive (by omega) (by omega) (.inl (by omega))
  have hexp : (exponent x - exponent y - 53 - 2 + 1074).toNat = (exponent x - exponent y + 1019).toNat := by omega
  rw [hexp] at hrank
  rw [heq] at hdiv
  have hword := toNat_pack_canonical hr hc hrank
  rw [← hdiv] at hword
  have hunsigned := unsigned_of_word hword (Nat.min_le_right _ _)
  refine ⟨hunsigned, ?_⟩
  rw [hunsigned.rank_eq, hword]
  exact Int.ofNat_le.mpr ((Nat.min_le_left _ _).trans (nearestRank_mono ((Nat.mul_le_mul_right _ hsharp.le).trans hle)))

theorem exponent_toFloat {n : UInt64} {b : Nat} (h0 : 0 < n.toNat) (hb : n.toNat < 2 ^ b) (h53 : b ≤ 53) :
    -52 ≤ exponent n.toFloat ∧ exponent n.toFloat ≤ b - 53 := by
  have htop : n.toNat ≤ 2 ^ 53 := hb.le.trans (Nat.pow_le_pow_right (by decide) h53)
  have hu := units_toFloat htop
  have hm := mantissa_lt n.toFloat
  have hnormal := normal_toFloat h0 htop
  have he := exponent_ge n.toFloat
  rw [units] at hu
  constructor
  · by_contra hlt
    have hle : 2 ^ (53 + (exponent n.toFloat + 1074).toNat) ≤ unitsOfOne := two_pow_le_unitsOfOne (by omega)
    have hone : 1 * unitsOfOne ≤ n.toNat * unitsOfOne := Nat.mul_le_mul_right _ h0
    have hstrict := Nat.mul_lt_mul_of_pos_right hm (Nat.two_pow_pos (exponent n.toFloat + 1074).toNat)
    rw [← Nat.pow_add] at hstrict
    omega
  · by_contra hlt
    have hsplit : 52 + (exponent n.toFloat + 1074).toNat = 1074 + (exponent n.toFloat + 52).toNat := by omega
    have hle : n.toNat < 2 ^ (exponent n.toFloat + 52).toNat :=
      hb.trans_le (Nat.pow_le_pow_right (by decide) (by omega))
    have hstrict := Nat.mul_lt_mul_of_pos_left hle unitsOfOne_pos
    have hmul := Nat.mul_le_mul_right (2 ^ (exponent n.toFloat + 1074).toNat) hnormal
    rw [← Nat.pow_add, two_pow_eq hsplit, hu, Nat.mul_comm n.toNat] at hmul
    omega

/-- A double between 99.999 and 100. -/
def almostHundred : Float := Float.ofBits 0x4058fff800000000

theorem units_almostHundred {k : Nat} (hk : k = 1028) : units almostHundred = 204799 * 2 ^ 35 * 2 ^ k := by
  have hm : mantissa almostHundred = 204799 * 2 ^ 35 := rfl
  have he : (exponent almostHundred + 1074).toNat = 1028 := rfl
  rw [units, hm, he, hk]

/-- The quotient by a thousand stays below 100 in units, with what was cut off. -/
theorem thousandth_units {k : UInt64} (hpos : 0 < k.toNat) (hk : k.toNat < 100000) :
    4 * (mantissa k.toFloat * 2 ^ 53 / (1000 * 2 ^ 43) + 1) * 2 ^ (exponent k.toFloat - -43 + 1019).toNat ≤
      units almostHundred := by
  obtain ⟨hlow,hhigh⟩ := exponent_toFloat hpos (hk.trans (by decide : 100000 < 2 ^ 17)) (by decide)
  have hu := units_toFloat (n := k) (by omega)
  obtain ⟨d,hd⟩ : ∃ d, d = 1028 := ⟨_, rfl⟩
  have hunit : 2 ^ 46 * 2 ^ d = unitsOfOne := by rw [← Nat.pow_add, unitsOfOne_eq (by omega)]
  have hexp : (exponent k.toFloat + 1074).toNat = (exponent k.toFloat - -43 + 1019).toNat + 12 := by omega
  have hsmall : 4 * 2 ^ (exponent k.toFloat - -43 + 1019).toNat ≤ 2 ^ d := by
    have hpow : 4 * 2 ^ (exponent k.toFloat - -43 + 1019).toNat = 2 ^ (2 + (exponent k.toFloat - -43 + 1019).toNat) := by
      rw [Nat.pow_add]
    rw [hpow]
    exact Nat.pow_le_pow_right (by decide) (by omega)
  rw [units, hexp, Nat.pow_add, ← hunit] at hu
  rw [units_almostHundred hd]
  have hq := Nat.div_mul_le_self (mantissa k.toFloat * 2 ^ 53) (1000 * 2 ^ 43)
  generalize mantissa k.toFloat * 2 ^ 53 / (1000 * 2 ^ 43) = q at *
  generalize 2 ^ (exponent k.toFloat - -43 + 1019).toNat = p at *
  generalize 2 ^ d = r at *
  have hqp := Nat.mul_le_mul_right p hq
  have hkr : k.toNat * r ≤ 99999 * r := Nat.mul_le_mul_right r (by omega)
  nlinarith

theorem thousandth {k : UInt64} (hk : k.toNat < 100000) : 0 ≤ k.toFloat / 1000 ∧ k.toFloat / 1000 < 100 := by
  have hhundred : (100 : Float).isNaN = false := rfl
  suffices h : Unsigned (k.toFloat / 1000) ∧ rank (k.toFloat / 1000) ≤ rank almostHundred by
    rw [le_iff_rank isNaN_zero h.1.number, lt_iff_rank h.1.number hhundred]
    exact ⟨h.1.toNonneg.nonneg, h.2.trans_lt (by decide)⟩
  rcases Nat.eq_zero_or_pos k.toNat with h0 | hpos
  · have hzero : k = 0 := UInt64.toNat_inj.mp h0
    rw [hzero]
    exact ⟨unsigned_zero, by decide⟩
  · have htop : k.toNat ≤ 2 ^ 53 := by omega
    have hlimit : Unsigned almostHundred := unsigned_of_word (w := 0x4058fff800000000) rfl (by decide)
    have hthousand : Unsigned (1000 : Float) := unsigned_of_word (w := 0x408f400000000000) rfl (by decide)
    have hmantissa : mantissa 1000 = 1000 * 2 ^ 43 := rfl
    have hexponent : exponent 1000 = -43 := rfl
    obtain ⟨hlow,_⟩ := exponent_toFloat hpos (hk.trans (by decide : 100000 < 2 ^ 17)) (by decide)
    rw [← hlimit.toNonneg.nearestRank_units]
    apply rank_div_le (unsigned_toFloat k) hthousand (field_toFloat htop) (by decide) (normal_toFloat hpos htop)
      (by rw [hmantissa]; decide) (by rw [hexponent]; omega)
    rw [hmantissa, hexponent]
    exact thousandth_units hpos hk

end Metering.Binary64
