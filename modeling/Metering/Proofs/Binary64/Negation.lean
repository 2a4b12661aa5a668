import Metering.Proofs.Binary64.Whole

/-! # Negation

Negation flips the sign bit and nothing else. It passes through products, since rounding sees the
magnitude alone.
-/
namespace Metering.Binary64
open Float.Model Float.Model.UnpackedFloat

variable {x : Float}

theorem parts_neg (h : x.isNaN = false) :
    sign (-x) = -sign x ∧ field (-x) = field x ∧ fraction (-x) = fraction x := by
  have hm : x.toBits.toNat % 2 ^ 63 < 2 ^ 63 := Nat.mod_lt _ (by decide)
  obtain ⟨hs,hr⟩ := sign_eq_of_toNat hm (toNat_toBits_neg h)
  rw [toNat_toBits_mod, toNat_toBits_mod] at hr
  have hx := fraction_lt x
  have hn := fraction_lt (-x)
  exact ⟨hs, by omega, by omega⟩

theorem mantissa_neg (h : x.isNaN = false) : mantissa (-x) = mantissa x := by
  obtain ⟨_,hf,hr⟩ := parts_neg h
  rw [mantissa, mantissa, hf, hr]

theorem exponent_neg (h : x.isNaN = false) : exponent (-x) = exponent x := by
  rw [exponent, exponent, (parts_neg h).2.1]

theorem value_neg (h : x.isNaN = false) : value (-x) = -value x := by
  rw [value, value, mantissa_neg h, exponent_neg h, (parts_neg h).1, ← neg_mul, ← Int.cast_neg]
  cases sign x with
  | negative => exact congrArg (fun n : ℤ => (n : ℚ) * _) (Int.neg_neg _).symm
  | positive => rfl

theorem unpack_neg (x : Float) : (-x).toModel.unpack = x.toModel.unpack.neg := by
  cases h : x.isNaN with
  | true =>
    have hn : (Float.ofModel (.pack .notANumber)).toModel.unpack = .notANumber := rfl
    rw [neg_eq_pack, unpack_of_isNaN h, UnpackedFloat.neg, hn]
  | false =>
    obtain ⟨hs,hf,hr⟩ := parts_neg h
    rw [unpack_toModel, unpack_toModel]
    simp only [hs, hf, hr, mantissa_neg h, exponent_neg h]
    split <;> split <;> rfl

theorem neg_ofModel_pack (u : UnpackedFloat) : -Float.ofModel (.pack u) = Float.ofModel (.pack u.neg) := by
  cases hu : u.isNaN with
  | true =>
    cases u with
    | notANumber => rfl
    | _ => cases hu
  | false =>
    obtain ⟨w,hw,hpack⟩ := exists_word_withSign hu
    obtain ⟨s,hs,hn⟩ := exists_sign hu
    have hword := hpack s
    rw [← hs] at hword
    obtain ⟨hsign,hrest⟩ := sign_eq_of_toNat (by omega) hword
    apply eq_of_toNat_toBits
    rw [toNat_toBits_neg (isNaN_pack hu), hsign, hrest, hn, hpack]

theorem roundWithAccuracy_neg (s : Sign) (m : Nat) (e : Int) (a : Accuracy) :
    roundWithAccuracy .binary64 (-s) m e a = (roundWithAccuracy .binary64 s m e a).neg := by
  rw [roundWithAccuracy, roundWithAccuracy]
  dsimp only
  split <;> rfl

theorem neg_mul_sign (s t : Sign) : -s * t = -(s * t) := by
  cases s <;> cases t <;> rfl

theorem mul_unpacked_neg (u w : UnpackedFloat) :
    UnpackedFloat.mul .binary64 u.neg w = (UnpackedFloat.mul .binary64 u w).neg := by
  cases u <;> cases w <;>
    simp only [UnpackedFloat.mul, UnpackedFloat.neg, neg_mul_sign, roundWithAccuracy_neg]

theorem mul_neg_left (x y : Float) : -x * y = -(x * y) := by
  rw [mul_eq_pack, mul_eq_pack, unpack_neg, mul_unpacked_neg, neg_ofModel_pack]

end Metering.Binary64
