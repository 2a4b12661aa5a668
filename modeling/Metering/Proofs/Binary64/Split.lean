import Metering.Proofs.Binary64.Negation

/-! # Splitting and scaling back

Every finite double other than zero is the fraction times the power of two that it splits into, and scaling the
fraction by the exponent gives back its bits. A subnormal double is lifted once to be split.
-/
namespace Metering.Binary64
open Float.Model Float.Model.UnpackedFloat

variable {x : Float}

/-- The ways in which a double is split: not at all, once it is lifted, or by its bits. -/
inductive Mode (x : Float) : Prop
  | kept (hk : rank x = 0 ∨ field x = 2047)
  | subnormal (h0 : field x = 0) (hr : fraction x ≠ 0)
  | normal (h0 : field x ≠ 0) (hf : field x ≠ 2047)

theorem mode (x : Float) : Mode x := by
  by_cases h0 : field x = 0
  · by_cases hr : fraction x = 0
    · exact .kept (.inl (rank_eq_zero_iff.mpr ⟨h0, hr⟩))
    · exact .subnormal h0 hr
  · by_cases hf : field x = 2047
    · exact .kept (.inr hf)
    · exact .normal h0 hf

theorem guard_of_kept (h : x.isNaN = false) (hk : rank x = 0 ∨ field x = 2047) : (x == 0 || !isFinite x) = true := by
  rw [← Bool.not_eq_false, guard_eq_false_iff h]
  exact fun hn => hk.elim hn.1 hn.2

theorem split_of_kept (h : x.isNaN = false) (hk : rank x = 0 ∨ field x = 2047) : split x = (x, 0) :=
  if_pos (guard_of_kept h hk)

theorem value_eq_zero_iff : value x = 0 ↔ rank x = 0 := by
  have hpow : (2 : ℚ) ^ exponent x ≠ 0 := zpow_ne_zero _ (by decide)
  have hm : mantissa x = 0 ↔ field x = 0 ∧ fraction x = 0 := by
    unfold mantissa
    split <;> omega
  rw [rank_eq_zero_iff, ← hm, value, mul_eq_zero_iff_right hpow, Int.cast_eq_zero]
  cases sign x <;> simp only [Sign.apply] <;> omega

theorem abs_value (x : Float) : |value x| = mantissa x * 2 ^ exponent x := by
  have happly : |(((sign x).apply (mantissa x) : ℤ) : ℚ)| = mantissa x := by
    cases sign x with
    | negative => rw [Sign.apply, Int.cast_neg, abs_neg, Int.cast_natCast, Nat.abs_cast]
    | positive => rw [Sign.apply, Int.cast_natCast, Nat.abs_cast]
  rw [value, abs_mul, happly, abs_of_pos (zpow_pos (by decide) _)]

theorem value_lifted (hs : sign x = .positive) (h0 : field x = 0) (hr : fraction x ≠ 0) :
    value x = value (x * power 2 64) * 2 ^ (-64 : ℤ) := by
  obtain ⟨l,hl,h1,h2,hw⟩ := toNat_toBits_lifted hs h0 hr
  obtain ⟨ls,lm,le⟩ := parts_of_word (x := x * power 2 64) (e := l - 1062) h2 (by omega) (by omega) (.inl h1)
    (by rw [hw]; push_cast; omega)
  have hm : mantissa x = fraction x := if_pos h0
  have he : exponent x = ((52 - l : ℕ) : ℤ) + (l - 1062) + -64 := by
    unfold exponent
    omega
  rw [value, value, hs, ls, lm, le, hm, he, zpow_add₀ two_ne_zero, zpow_add₀ two_ne_zero, zpow_natCast]
  simp only [Sign.apply]
  push_cast
  ring

theorem lifted (h0 : field x = 0) (hr : fraction x ≠ 0) :
    sign (x * power 2 64) = sign x ∧ 13 ≤ field (x * power 2 64) ∧ field (x * power 2 64) ≤ 64 ∧
      value x = value (x * power 2 64) * 2 ^ (-64 : ℤ) := by
  have hx : x.isNaN = false := isNaN_of_field (by omega)
  cases hs : sign x with
  | positive =>
    obtain ⟨ls,l1,l2⟩ := parts_lifted hs h0 hr
    exact ⟨ls, l1, l2, value_lifted hs h0 hr⟩
  | negative =>
    obtain ⟨ns,nf,nr⟩ := parts_neg hx
    have hneg : sign (-x) = .positive := by rw [ns, hs]; rfl
    obtain ⟨ls,l1,l2⟩ := parts_lifted hneg (by rw [nf, h0]) (by rwa [nr])
    have hv := value_lifted hneg (by rw [nf, h0]) (by rwa [nr])
    rw [mul_neg_left] at ls l1 l2 hv
    have hn : (x * power 2 64).isNaN = false := isNaN_of_neg (isNaN_of_field (by omega))
    obtain ⟨ms,mf,_⟩ := parts_neg hn
    rw [value_neg hn, value_neg hx, neg_mul, neg_inj] at hv
    refine ⟨?_, by omega, by omega, hv⟩
    rw [ms] at ls
    cases ht : sign (x * power 2 64) with
    | negative => rfl
    | positive => rw [ht] at ls; cases ls

theorem splitNormal_neg (h : x.isNaN = false) : splitNormal (-x) = (-(splitNormal x).1, (splitNormal x).2) := by
  obtain ⟨hs,hf,hr⟩ := parts_neg h
  have hlt := fraction_lt x
  have hword := toNat_toBits_splitNormal x
  obtain ⟨ps,pmod⟩ := sign_eq_of_toNat (by omega) hword
  have hfraction : (splitNormal (-x)).1 = -(splitNormal x).1 := by
    apply eq_of_toNat_toBits
    rw [toNat_toBits_splitNormal, toNat_toBits_neg (isNaN_of_magnitude hword (by omega)), ps, pmod, hs, hr]
  have hexponent : (splitNormal (-x)).2 = (splitNormal x).2 := by rw [splitNormal, splitNormal, hf]
  exact Prod.ext hfraction hexponent

theorem split_neg (h : x.isNaN = false) : split (-x) = (-(split x).1, (split x).2) := by
  obtain ⟨_,nf,nr⟩ := parts_neg h
  cases mode x with
  | kept hk =>
    have hkneg : rank (-x) = 0 ∨ field (-x) = 2047 := by rwa [rank_neg h, Int.neg_eq_zero, nf]
    rw [split_of_kept h hk, split_of_kept (isNaN_neg h) hkneg]
  | subnormal h0 hr =>
    obtain ⟨_,_,hf,_⟩ := lifted h0 hr
    rw [split_of_subnormal h0 hr, split_of_subnormal (nf.trans h0) (nr.trans_ne hr), mul_neg_left,
      splitNormal_neg (isNaN_of_field (by omega))]
  | normal h0 hf =>
    rw [split_of_normal h0 hf, split_of_normal (nf.trans_ne h0) (nf.trans_ne hf), splitNormal_neg h]

theorem scale_neg (f : Float) (e : Int) : scale (-f) e = -scale f e := by
  rw [scale, scale, mul_neg_left, mul_neg_left]

theorem value_splitNormal (h0 : field x ≠ 0) : value (splitNormal x).1 * 2 ^ (splitNormal x).2 = value x := by
  obtain ⟨ps,pf,pr⟩ := parts_splitNormal x
  have hm : mantissa (splitNormal x).1 = mantissa x := by
    rw [mantissa_of_normal (by omega), mantissa_of_normal h0, pr]
  have he : exponent (splitNormal x).1 + (splitNormal x).2 = exponent x := by
    rw [exponent, exponent, pf, splitNormal]
    dsimp only
    omega
  rw [value, value, ps, hm, mul_assoc, ← zpow_add₀ (by decide), he]

theorem abs_value_splitNormal (x : Float) :
    1 / 2 ≤ |value (splitNormal x).1| ∧ |value (splitNormal x).1| < 1 := by
  obtain ⟨_,pf,pr⟩ := parts_splitNormal x
  have hr := fraction_lt x
  have he : exponent (splitNormal x).1 = -53 := by
    rw [exponent, pf]
    rfl
  have hm : mantissa (splitNormal x).1 = fraction x + 2 ^ 52 := by rw [mantissa_of_normal (by omega), pr]
  have hlow : (2 : ℚ) ^ 52 ≤ (fraction x + 2 ^ 52 : Nat) := by exact_mod_cast Nat.le_add_left _ _
  have hhigh : ((fraction x + 2 ^ 52 : Nat) : ℚ) < 2 ^ 53 := by exact_mod_cast (by omega)
  rw [abs_value, hm, he]
  constructor
  · calc (1 / 2 : ℚ) = 2 ^ 52 * 2 ^ (-53 : ℤ) := by norm_num
      _ ≤ _ := mul_le_mul_of_nonneg_right hlow (by positivity)
  · calc _ < (2 : ℚ) ^ 53 * 2 ^ (-53 : ℤ) := mul_lt_mul_of_pos_right hhigh (by positivity)
      _ = 1 := by norm_num

/-- `f * 2 ^ e` is exactly the value of `x`, with the fraction in its range. -/
structure Splits (x f : Float) (e : ℤ) : Prop where
  finite : isFinite f = true
  sign_eq : sign f = sign x
  low : 1 / 2 ≤ |value f|
  high : |value f| < 1
  exponent_ge : -1073 ≤ e
  exponent_le : e ≤ 1024
  value_eq : value f * 2 ^ e = value x

theorem splits_of_normal (h0 : field x ≠ 0) (hf : field x ≠ 2047) : Splits x (splitNormal x).1 (splitNormal x).2 := by
  obtain ⟨ps,pf,_⟩ := parts_splitNormal x
  obtain ⟨hlow,hhigh⟩ := abs_value_splitNormal x
  have hlt := field_lt x
  have he : (splitNormal x).2 = field x - 1022 := rfl
  refine ⟨?_, ps, hlow, hhigh, by omega, by omega, value_splitNormal h0⟩
  rw [isFinite, pf]
  rfl

theorem splits_of_subnormal (h0 : field x = 0) (hr : fraction x ≠ 0) :
    Splits x (splitNormal (x * power 2 64)).1 ((splitNormal (x * power 2 64)).2 - 64) := by
  obtain ⟨ls,l1,l2,hv⟩ := lifted h0 hr
  have hs := splits_of_normal (x := x * power 2 64) (by omega) (by omega)
  have he : (splitNormal (x * power 2 64)).2 = field (x * power 2 64) - 1022 := rfl
  refine ⟨hs.finite, hs.sign_eq.trans ls, hs.low, hs.high, by omega, by omega, ?_⟩
  rw [hv, ← hs.value_eq, mul_assoc, ← zpow_add₀ two_ne_zero]
  rfl

theorem splits_split (hk : ¬ (rank x = 0 ∨ field x = 2047)) : Splits x (split x).1 (split x).2 := by
  cases mode x with
  | kept hkept => exact absurd hkept hk
  | subnormal h0 hr =>
    rw [split_of_subnormal h0 hr]
    exact splits_of_subnormal h0 hr
  | normal h0 hf =>
    rw [split_of_normal h0 hf]
    exact splits_of_normal h0 hf

/-- One step of splitting, with `again` for what is lifted. -/
def splitBy (again : Float → Option (Float × Int)) (x : Float) : Option (Float × Int) :=
  if x == 0 || !isFinite x then some (x, 0)
  else if field x = 0 then (again (x * power 2 64)).map fun s => (s.1, s.2 - 64)
  else some (splitNormal x)

/-- Splitting that lifts `depth` times at most. -/
def splitWithin : Nat → Float → Option (Float × Int)
  | 0 => splitBy fun _ => none
  | depth + 1 => splitBy (splitWithin depth)

theorem splitBy_of_normal (again : Float → Option (Float × Int)) (h0 : field x ≠ 0) (hf : field x ≠ 2047) :
    splitBy again x = some (splitNormal x) := by
  rw [splitBy, guard_of_normal h0 hf, if_neg Bool.false_ne_true, if_neg h0]

/-- What has been lifted is normal, hence no further lifting follows. -/
theorem splitWithin_succ (h : x.isNaN = false) (depth : Nat) : splitWithin (depth + 1) x = some (split x) := by
  rw [splitWithin]
  cases mode x with
  | kept hk => rw [splitBy, if_pos (guard_of_kept h hk), split_of_kept h hk]
  | subnormal h0 hr =>
    obtain ⟨_,_,hf,_⟩ := lifted h0 hr
    have hnext : splitWithin depth (x * power 2 64) = some (splitNormal (x * power 2 64)) := by
      cases depth <;> exact splitBy_of_normal _ (by omega) (by omega)
    rw [splitBy, guard_of_subnormal h0 hr, if_neg Bool.false_ne_true, if_pos h0, hnext, split_of_subnormal h0 hr]
    rfl
  | normal h0 hf => rw [splitBy_of_normal _ h0 hf, split_of_normal h0 hf]

theorem scale_zero (h : x.isNaN = false) : scale x 0 = x := by
  have hone : power 2 0 = 1 := by rw [power_two (by decide) (by decide), one_eq_twoPow]
  change x * power 2 0 * power 2 0 = x
  rw [hone, mul_one_of_number h, mul_one_of_number h]

theorem scale_split_of_pos (hp : 0 < rank x) (hf : field x ≠ 2047) : scale (split x).1 (split x).2 = x := by
  obtain ⟨ps,pf,hlow,hhigh⟩ := parts_split hp hf
  obtain ⟨_,hr⟩ := rank_scale_rounded ps (by omega) (by omega) (by omega) (e := (split x).2) (by omega)
  rw [if_pos (by omega), rounded_split hp hf] at hr
  have hx := rank_of_positive (sign_of_rank_pos hp)
  have hs := rank_of_positive (sign_of_rank_pos (hr ▸ hp))
  apply eq_of_toNat_toBits
  omega

theorem scale_split (h : x.isNaN = false) : scale (split x).1 (split x).2 = x := by
  by_cases hk : rank x = 0 ∨ field x = 2047
  · rw [split_of_kept h hk]
    exact scale_zero h
  · obtain ⟨hr,hf⟩ := not_or.mp hk
    rcases Int.lt_or_gt_of_ne hr with hneg | hpos
    · have hn : scale (split (-x)).1 (split (-x)).2 = -x :=
        scale_split_of_pos (by rw [rank_neg h]; omega) ((parts_neg h).2.1.trans_ne hf)
      rw [split_neg h, scale_neg] at hn
      have hnumber : (scale (split x).1 (split x).2).isNaN = false := isNaN_of_neg (by rw [hn, isNaN_neg h])
      rw [← neg_neg hnumber, hn, neg_neg h]
    · exact scale_split_of_pos hpos hf

/-- Splitting lifts a double once at most, it is exact on every finite double but zero, it leaves the others as
they are, and scaling gives back the bits of all of them. -/
theorem split_exact {v : Float} (h : v.isNaN = false) :
    splitWithin 1 v = some (split v) ∧ scale (split v).1 (split v).2 = v ∧
      (isFinite v = true → value v ≠ 0 → Splits v (split v).1 (split v).2) ∧
      (isFinite v = false ∨ value v = 0 → split v = (v, 0)) := by
  have hfinite : isFinite v = true ↔ field v ≠ 2047 := bne_iff_ne
  refine ⟨splitWithin_succ h 0, scale_split h, ?_, ?_⟩
  · intro hf h0
    exact splits_split (not_or.mpr ⟨value_eq_zero_iff.not.mp h0, hfinite.mp hf⟩)
  · intro hk
    rw [← Bool.not_eq_true, hfinite, not_not, value_eq_zero_iff] at hk
    exact split_of_kept h hk.symm

def leastNegative : Float := Float.ofBits 0x8000000000000001

def minusHalf : Float := Float.ofBits 0xbfe0000000000000

def minusZero : Float := Float.ofBits 0x8000000000000000

theorem split_leastNegative : split leastNegative = (minusHalf, -1073) := by
  have h0 : field leastNegative = 0 := rfl
  have hr : fraction leastNegative ≠ 0 := by decide
  have hlifted : leastNegative * power 2 64 = Float.ofBits 0x80d0000000000000 := by
    rw [power_two (by decide) (by decide)]
    exact eq_of_toNat_toBits (by decide +kernel)
  have hnormal : splitNormal (Float.ofBits 0x80d0000000000000) = (minusHalf, -1009) :=
    Prod.ext (eq_of_toNat_toBits (by decide +kernel)) rfl
  rw [split_of_subnormal h0 hr, hlifted, hnormal]
  rfl

theorem split_exact_leastNegative :
    leastNegative.isNaN = false ∧ splitWithin 1 leastNegative = some (minusHalf, -1073) ∧
      scale minusHalf (-1073) = leastNegative ∧ Splits leastNegative minusHalf (-1073) ∧
      split minusZero = (minusZero, 0) ∧ scale minusZero 0 = minusZero := by
  have hnumber : leastNegative.isNaN = false := rfl
  have hvalue : value leastNegative ≠ 0 := by
    rw [Ne, value_eq_zero_iff]
    decide
  obtain ⟨hdepth,hscale,hsplits,_⟩ := split_exact hnumber
  have hs := hsplits rfl hvalue
  rw [split_leastNegative] at hdepth hscale hs
  have hzero : minusZero.isNaN = false := rfl
  obtain ⟨_,hback,_,hkept⟩ := split_exact hzero
  have hsplit := hkept (.inr (value_eq_zero_iff.mpr rfl))
  rw [hsplit] at hback
  exact ⟨hnumber, hdepth, hscale, hs, hsplit, hback⟩

end Metering.Binary64
