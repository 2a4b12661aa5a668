import Metering.Proofs.Binary64.Rank

/-! # Doubles put together

The word of a double that an operation packs: sign, exponent and mantissa of a canonical result give
the word as one sum. Negation and exact results are read off from it.
-/
namespace Metering.Binary64
open Float.Model Float.Model.UnpackedFloat

def signBit (s : Sign) : Nat := s.toBitVec.toNat

theorem signBit_lt (s : Sign) : signBit s < 2 := s.toBitVec.isLt

theorem toNat_packComponents (s : Sign) (e : BitVec 11) (m : BitVec 52) :
    (packComponents .binary64 s e m).toNat = signBit s * 2 ^ 63 + e.toNat * 2 ^ 52 + m.toNat := by
  have he : e.toNat < 2 ^ 11 := e.isLt
  have hm : m.toNat < 2 ^ 52 := m.isLt
  rw [packComponents, BitVec.toNat_append, BitVec.toNat_append,
    ← Nat.shiftLeft_add_eq_or_of_lt hm, ← Nat.shiftLeft_add_eq_or_of_lt he, Nat.shiftLeft_eq,
    Nat.shiftLeft_eq, signBit]
  omega

theorem toNat_pack (u : UnpackedFloat) :
    (Float.ofModel (Float.Model.pack u)).toBits.toNat = (UnpackedFloat.pack .binary64 u).toNat := rfl

theorem ofModel_pack_unpack (x : Float) : Float.ofModel (.pack x.toModel.unpack) = x :=
  Float.ofBits_toBits x

-- An operation reads its operands apart, and packs what comes of them.

theorem neg_eq_pack (x : Float) : -x = Float.ofModel (.pack x.toModel.unpack.neg) := rfl

theorem add_eq_pack (x y : Float) :
    x + y = Float.ofModel (.pack (.add .binary64 x.toModel.unpack y.toModel.unpack)) := rfl

theorem mul_eq_pack (x y : Float) :
    x * y = Float.ofModel (.pack (.mul .binary64 x.toModel.unpack y.toModel.unpack)) := rfl

theorem div_eq_pack (x y : Float) :
    x / y = Float.ofModel (.pack (.div .binary64 x.toModel.unpack y.toModel.unpack)) := rfl

theorem toNat_packedInfinity (s : Sign) :
    (packedInfinity .binary64 s).toNat = signBit s * 2 ^ 63 + 2047 * 2 ^ 52 := by
  have he : (-1#11 : BitVec 11).toNat = 2047 := by decide
  have hm : (0 : BitVec 52).toNat = 0 := by decide
  rw [packedInfinity, toNat_packComponents, hm, he, Nat.add_zero]

theorem toNat_pack_infinity (s : Sign) :
    (Float.ofModel (Float.Model.pack (.infinity s))).toBits.toNat =
      signBit s * 2 ^ 63 + 2047 * 2 ^ 52 := by
  rw [toNat_pack, UnpackedFloat.pack, toNat_packedInfinity]

theorem toNat_pack_zero (s : Sign) :
    (Float.ofModel (Float.Model.pack (.zero s))).toBits.toNat = signBit s * 2 ^ 63 := by
  have he : (0 : BitVec 11).toNat = 0 := by decide
  have hm : (0 : BitVec 52).toNat = 0 := by decide
  rw [toNat_pack, UnpackedFloat.pack, packedZero, toNat_packComponents, hm, he]
  omega

theorem log2_eq {m k : Nat} (h1 : 2 ^ k ≤ m) (h2 : m < 2 ^ (k + 1)) : m.log2 = k := by
  have hm : m ≠ 0 := by
    have := Nat.two_pow_pos k
    omega
  exact (Nat.log2_eq_iff hm).mpr ⟨h1, h2⟩

/-- Exponent and mantissa of a finite double, the mantissa as large as the exponent allows. -/
def Canonical (m : Nat) (e : Int) : Prop :=
  0 < m ∧ m < 2 ^ 53 ∧ -1074 ≤ e ∧ (2 ^ 52 ≤ m ∨ e = -1074)

theorem canonical_parts {x : Float} (hf : field x ≠ 2047) (hm : 0 < mantissa x) :
    Canonical (mantissa x) (exponent x) :=
  have hb := mantissa_bounds hf
  ⟨hm, hb.1, hb.2.1, hb.2.2.2.1⟩

theorem biased (e : Int) : (e + Format.binary64.exponentBias + Format.binary64.mantissaBitsWithoutImplicit).toNat =
    (e + 1075).toNat := by
  change (e + (1023 : Nat) + (52 : Nat)).toNat = _
  omega

theorem toNat_pack_finite {s : Sign} {m : Nat} {e : Int} (hm : 0 < m) (hc : Canonical m e)
    (he : e ≤ 971) :
    ((Float.ofModel (Float.Model.pack (.finite s m e hm))).toBits.toNat : Int) =
      signBit s * 2 ^ 63 + ((e + 1074) * 2 ^ 52 + m) := by
  obtain ⟨_,h2,h3,h4⟩ := hc
  have hbits : Format.binary64.mantissaBits = 53 := rfl
  rw [toNat_pack, UnpackedFloat.pack]
  simp only [biased e, hbits]
  rw [if_neg (by omega)]
  by_cases hn : 2 ^ 52 ≤ m
  · rw [if_pos (by rw [log2_eq hn h2]), toNat_packComponents, BitVec.toNat_ofNat, BitVec.toNat_ofNat]
    change ((_ * 2 ^ 63 + (e + 1075).toNat % 2 ^ 11 * 2 ^ 52 + m % 2 ^ 52 : Nat) : Int) = _
    omega
  · have hl : m.log2 < 52 := (Nat.log2_lt (by omega)).mpr (by omega)
    rw [if_neg (by omega), toNat_packComponents, BitVec.toNat_ofNat]
    change ((_ * 2 ^ 63 + 0 * 2 ^ 52 + m % 2 ^ 52 : Nat) : Int) = _
    omega

theorem toNat_pack_positive {m : Nat} {e : Int} (hm : 0 < m) (hc : Canonical m e) (he : e ≤ 971) :
    ((Float.ofModel (Float.Model.pack (.finite .positive m e hm))).toBits.toNat : Int) =
      (e + 1074) * 2 ^ 52 + m := by
  have hb : signBit .positive = 0 := rfl
  rw [toNat_pack_finite hm hc he, hb, Int.natCast_zero, Int.zero_mul, Int.zero_add]

theorem toNat_pack_overflow {s : Sign} {m : Nat} {e : Int} (hm : 0 < m) (he : 971 < e) :
    (Float.ofModel (Float.Model.pack (.finite s m e hm))).toBits.toNat =
      signBit s * 2 ^ 63 + 2047 * 2 ^ 52 := by
  rw [toNat_pack, UnpackedFloat.pack]
  simp only [biased e]
  rw [if_pos (by omega), toNat_packedInfinity]

theorem eq_of_toNat_toBits {x y : Float} (h : x.toBits.toNat = y.toBits.toNat) : x = y :=
  Float.toBits_inj.mp (UInt64.toNat_inj.mp h)

theorem signBit_sign (x : Float) : x.toBits.toNat = signBit (sign x) * 2 ^ 63 + x.toBits.toNat % 2 ^ 63 := by
  have hw : x.toBits.toNat < 2 ^ 64 := x.toBits.toNat_lt
  rw [sign, negative]
  by_cases hn : 2 ^ 63 ≤ x.toBits.toNat
  · rw [if_pos (by simpa using hn)]
    change _ = 1 * 2 ^ 63 + _
    omega
  · rw [if_neg (by simpa using hn)]
    change _ = 0 * 2 ^ 63 + _
    omega

theorem toNat_toBits_of_positive {x : Float} (h : sign x = .positive) :
    x.toBits.toNat = field x * 2 ^ 52 + fraction x := by
  have hw := signBit_sign x
  have hb : signBit .positive = 0 := rfl
  rw [h, hb, Nat.zero_mul, Nat.zero_add] at hw
  rw [hw, toNat_toBits_mod]

theorem sign_eq_of_toNat {x : Float} {s : Sign} {n : Nat} (hn : n < 2 ^ 63)
    (h : x.toBits.toNat = signBit s * 2 ^ 63 + n) : sign x = s ∧ x.toBits.toNat % 2 ^ 63 = n := by
  have hb := signBit_lt s
  refine ⟨?_, by omega⟩
  rw [sign, negative]
  cases s with
  | negative =>
    change _ = 1 * 2 ^ 63 + n at h
    rw [if_pos (by simp; omega)]
  | positive =>
    change _ = 0 * 2 ^ 63 + n at h
    rw [if_neg (by simp; omega)]

theorem apply_inj {s : Sign} {a b : Int} (h : s.apply a = s.apply b) : a = b := by
  cases s with
  | negative => exact Int.neg_inj.mp h
  | positive => exact h

def withSign (s : Sign) : UnpackedFloat → UnpackedFloat
  | .notANumber => .notANumber
  | .infinity _ => .infinity s
  | .zero _ => .zero s
  | .finite _ m e hm => .finite s m e hm

/-- Packing sees the sign in the top bit alone, and packs no number as NaN. -/
theorem exists_word_withSign {u : UnpackedFloat} (hu : u.isNaN = false) :
    ∃ w ≤ 2047 * 2 ^ 52, ∀ s, (Float.ofModel (.pack (withSign s u))).toBits.toNat = signBit s * 2 ^ 63 + w := by
  cases u with
  | notANumber => cases hu
  | infinity _ => exact ⟨2047 * 2 ^ 52, Nat.le_refl _, toNat_pack_infinity⟩
  | zero _ => exact ⟨0, Nat.zero_le _, fun s => by rw [withSign, toNat_pack_zero, Nat.add_zero]⟩
  | finite _ m e hm =>
    rcases Int.lt_or_le 971 e with he | he
    · exact ⟨2047 * 2 ^ 52, Nat.le_refl _, fun s => toNat_pack_overflow hm he⟩
    · -- The exponent that is packed is not the last one, whatever the mantissa.
      have hlow : (BitVec.ofNat 52 m).toNat < 2 ^ 52 := (BitVec.ofNat 52 m).isLt
      have hexp : (BitVec.ofNat 11 (e + 1075).toNat).toNat ≤ 2046 := by
        rw [BitVec.toNat_ofNat]
        omega
      have hpack (s : Sign) : (Float.ofModel (.pack (.finite s m e hm))).toBits.toNat =
          (if m.log2 + 1 = 53 then packComponents .binary64 s (BitVec.ofNat 11 (e + 1075).toNat) (BitVec.ofNat 52 m)
            else packComponents .binary64 s 0#11 (BitVec.ofNat 52 m)).toNat := by
        rw [toNat_pack, UnpackedFloat.pack]
        simp only [biased e]
        rw [if_neg (by omega)]
        rfl
      by_cases hn : m.log2 + 1 = 53
      · refine ⟨(BitVec.ofNat 11 (e + 1075).toNat).toNat * 2 ^ 52 + (BitVec.ofNat 52 m).toNat, by omega, fun s => ?_⟩
        rw [withSign, hpack, if_pos hn, toNat_packComponents, Nat.add_assoc]
      · refine ⟨(BitVec.ofNat 52 m).toNat, by omega, fun s => ?_⟩
        have hzero : (0#11).toNat = 0 := rfl
        rw [withSign, hpack, if_neg hn, toNat_packComponents, hzero, Nat.zero_mul, Nat.add_zero]

theorem exists_sign {u : UnpackedFloat} (hu : u.isNaN = false) : ∃ s, u = withSign s u ∧ u.neg = withSign (-s) u := by
  cases u with
  | notANumber => cases hu
  | infinity s => exact ⟨s, rfl, rfl⟩
  | zero s => exact ⟨s, rfl, rfl⟩
  | finite s m e hm => exact ⟨s, rfl, rfl⟩

theorem isNaN_of_magnitude {x : Float} {s : Sign} {w : Nat} (h : x.toBits.toNat = signBit s * 2 ^ 63 + w)
    (hw : w ≤ 2047 * 2 ^ 52) : x.isNaN = false := by
  have hb := signBit_lt s
  rw [← Bool.not_eq_true, isNaN_iff, field, fraction, h]
  omega

theorem isNaN_pack {u : UnpackedFloat} (h : u.isNaN = false) : (Float.ofModel (.pack u)).isNaN = false := by
  obtain ⟨w,hw,hpack⟩ := exists_word_withSign h
  obtain ⟨s,hs,_⟩ := exists_sign h
  have hword := hpack s
  rw [← hs] at hword
  exact isNaN_of_magnitude hword hw

theorem toNat_pack_withSign {x : Float} (h : x.isNaN = false) (s : Sign) :
    (Float.ofModel (.pack (withSign s x.toModel.unpack))).toBits.toNat =
      signBit s * 2 ^ 63 + x.toBits.toNat % 2 ^ 63 := by
  cases shape h with
  | infinity hu hr =>
    have hw := apply_inj (a := (x.toBits.toNat % 2 ^ 63 : Nat)) hr
    rw [hu, withSign, toNat_pack_infinity]
    omega
  | zero hu hr =>
    have h0 : (sign x).apply 0 = 0 := by cases sign x <;> rfl
    have hw := apply_inj (a := (x.toBits.toNat % 2 ^ 63 : Nat)) (hr.trans h0.symm)
    rw [hu, withSign, toNat_pack_zero]
    omega
  | finite hm hu hr hf =>
    have hw := apply_inj (a := (x.toBits.toNat % 2 ^ 63 : Nat)) hr
    have hp := toNat_pack_finite (s := s) hm (canonical_parts hf hm) (mantissa_bounds hf).2.2.1
    rw [hu, withSign]
    omega

theorem toBits_ofBits {w : UInt64} (h : w.toNat / 2 ^ 52 % 2 ^ 11 ≠ 2047) :
    (Float.ofBits w).toBits = w := by
  have hv : Format.binary64.Valid w.toBitVec := by
    refine ⟨fun he => absurd ?_ h⟩
    have ht := toNat_unpackExponent w.toBitVec
    rw [he] at ht
    exact ht.symm
  exact UInt64.toBitVec_inj.mp (pack_unpack_of_valid hv)

theorem toNat_toBits_neg {x : Float} (h : x.isNaN = false) :
    (-x).toBits.toNat = signBit (-sign x) * 2 ^ 63 + x.toBits.toNat % 2 ^ 63 := by
  have hu : x.toModel.unpack.neg = withSign (-sign x) x.toModel.unpack := by
    cases shape h with
    | infinity hu hr => rw [hu, withSign, UnpackedFloat.neg]
    | zero hu hr => rw [hu, withSign, UnpackedFloat.neg]
    | finite hm hu hr hf => rw [hu, withSign, UnpackedFloat.neg]
  rw [neg_eq_pack, hu, toNat_pack_withSign h]

theorem toNat_toBits_abs {x : Float} (h : x.isNaN = false) :
    x.abs.toBits.toNat = x.toBits.toNat % 2 ^ 63 := by
  have hu : x.toModel.unpack.abs = withSign .positive x.toModel.unpack := by
    cases x.toModel.unpack <;> rfl
  have hb : signBit .positive = 0 := rfl
  change (Float.ofModel (.pack x.toModel.unpack.abs)).toBits.toNat = _
  rw [hu, toNat_pack_withSign h, hb, Nat.zero_mul, Nat.zero_add]

theorem isNaN_eq_of_mod {x y : Float} (h : x.toBits.toNat % 2 ^ 63 = y.toBits.toNat % 2 ^ 63) :
    x.isNaN = y.isNaN := by
  rw [Bool.eq_iff_iff, isNaN_iff, isNaN_iff]
  have hx := toNat_toBits_mod x
  have hy := toNat_toBits_mod y
  have h1 := fraction_lt x
  have h2 := fraction_lt y
  have hf : field x = field y := by omega
  have hr : fraction x = fraction y := by omega
  rw [hf, hr]

theorem isNaN_neg {x : Float} (h : x.isNaN = false) : (-x).isNaN = false := by
  have hn := toNat_toBits_neg h
  have hm : x.toBits.toNat % 2 ^ 63 < 2 ^ 63 := Nat.mod_lt _ (by decide)
  rw [isNaN_eq_of_mod (sign_eq_of_toNat hm hn).2, h]

theorem isNaN_of_neg {x : Float} (h : (-x).isNaN = false) : x.isNaN = false := by
  rw [← Bool.not_eq_true]
  intro hn
  have hp : (Float.ofModel (.pack .notANumber)).isNaN = true := rfl
  rw [neg_eq_pack, unpack_of_isNaN hn, UnpackedFloat.neg, hp] at h
  cases h

/-- Negating twice gives back the double, zeros with their signs included. -/
theorem neg_neg {x : Float} (h : x.isNaN = false) : - -x = x := by
  have hm : x.toBits.toNat % 2 ^ 63 < 2 ^ 63 := Nat.mod_lt _ (by decide)
  obtain ⟨hs,hr⟩ := sign_eq_of_toNat hm (toNat_toBits_neg h)
  have htwice : - -sign x = sign x := by cases sign x <;> rfl
  apply eq_of_toNat_toBits
  rw [toNat_toBits_neg (isNaN_neg h), hs, hr, htwice, ← signBit_sign x]

theorem rank_neg {x : Float} (h : x.isNaN = false) : rank (-x) = - rank x := by
  have hm : x.toBits.toNat % 2 ^ 63 < 2 ^ 63 := Nat.mod_lt _ (by decide)
  obtain ⟨hs,hr⟩ := sign_eq_of_toNat hm (toNat_toBits_neg h)
  rw [rank, rank, hs, hr]
  cases sign x with
  | negative => exact (Int.neg_neg _).symm
  | positive => rfl

theorem isNaN_abs {x : Float} (h : x.isNaN = false) : x.abs.isNaN = false := by
  have ha := toNat_toBits_abs h
  rw [isNaN_eq_of_mod (x := x.abs) (y := x) (by omega), h]

theorem rank_abs {x : Float} (h : x.isNaN = false) : rank x.abs = |rank x| := by
  have hm : x.toBits.toNat % 2 ^ 63 < 2 ^ 63 := Nat.mod_lt _ (by decide)
  have ha := toNat_toBits_abs h
  obtain ⟨hs,hr⟩ := sign_eq_of_toNat (s := .positive) (n := x.toBits.toNat % 2 ^ 63) hm
    (by rw [ha]; exact (Nat.zero_add _).symm)
  rw [rank, rank, hs, hr]
  cases sign x with
  | negative =>
    rw [Sign.apply, Sign.apply, abs_neg]
    exact (abs_of_nonneg (Int.natCast_nonneg _)).symm
  | positive => exact (abs_of_nonneg (Int.natCast_nonneg _)).symm

end Metering.Binary64
