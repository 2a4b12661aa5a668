import Metering.Proofs.Binary64.Scale

/-! # Rounding below the normal range

What is scaled below the normal range becomes the nearest multiple of the least subnormal double, a
tie going to the even one. The rank that a value would have, were exponents unbounded, gives the
rank of the double nearest to it; this keeps order, and moves no double.
-/
namespace Metering.Binary64
open Float.Model Float.Model.UnpackedFloat

/-- `m / 2 ^ d` rounded to the nearest integer, a tie going to the even one. -/
def nearest (m d : Nat) : Nat :=
  if 2 * (m % 2 ^ d) < 2 ^ d ∨ 2 * (m % 2 ^ d) = 2 ^ d ∧ m / 2 ^ d % 2 = 0 then m / 2 ^ d
  else m / 2 ^ d + 1

/-- What rounds to `k` or below: all up to halfway above `k`, and halfway itself where `k` is even. -/
theorem nearest_le_iff {m d k : Nat} :
    nearest m d ≤ k ↔ 2 * m < (2 * k + 1) * 2 ^ d ∨ 2 * m = (2 * k + 1) * 2 ^ d ∧ k % 2 = 0 := by
  have hm := Nat.div_add_mod m (2 ^ d)
  have hr := Nat.mod_lt m (Nat.two_pow_pos d)
  have hk : (2 * k + 1) * 2 ^ d = 2 * (2 ^ d * k) + 2 ^ d := by ring
  rw [nearest, hk]
  generalize m / 2 ^ d = q at *
  generalize m % 2 ^ d = r at *
  generalize 2 ^ d = p at *
  rcases Nat.lt_trichotomy q k with h | rfl | h
  · have hle : p * (q + 1) ≤ p * k := Nat.mul_le_mul_left p h
    rw [Nat.mul_add, Nat.mul_one] at hle
    split <;> omega
  · split <;> omega
  · have hle : p * (k + 1) ≤ p * q := Nat.mul_le_mul_left p h
    rw [Nat.mul_add, Nat.mul_one] at hle
    split <;> omega

theorem nearest_mono {m d m' d' : Nat} (h : m * 2 ^ d' ≤ m' * 2 ^ d) : nearest m d ≤ nearest m' d' := by
  have h' := nearest_le_iff.mp (Nat.le_refl (nearest m' d'))
  have hd := Nat.two_pow_pos d
  have hd' := Nat.two_pow_pos d'
  rw [nearest_le_iff]
  generalize nearest m' d' = k at *
  rcases h' with hlt | ⟨heq,heven⟩
  · left
    refine Nat.lt_of_mul_lt_mul_right (a := 2 ^ d') ?_
    calc 2 * m * 2 ^ d' = 2 * (m * 2 ^ d') := Nat.mul_assoc _ _ _
      _ ≤ 2 * m' * 2 ^ d := by rw [Nat.mul_assoc]; exact Nat.mul_le_mul_left 2 h
      _ < (2 * k + 1) * 2 ^ d' * 2 ^ d := Nat.mul_lt_mul_of_pos_right hlt hd
      _ = (2 * k + 1) * 2 ^ d * 2 ^ d' := Nat.mul_right_comm _ _ _
  · have hle : 2 * m ≤ (2 * k + 1) * 2 ^ d := by
      refine Nat.le_of_mul_le_mul_right ?_ hd'
      calc 2 * m * 2 ^ d' = 2 * (m * 2 ^ d') := Nat.mul_assoc _ _ _
        _ ≤ 2 * m' * 2 ^ d := by rw [Nat.mul_assoc]; exact Nat.mul_le_mul_left 2 h
        _ = (2 * k + 1) * 2 ^ d * 2 ^ d' := by rw [heq, Nat.mul_right_comm]
    rcases Nat.lt_or_eq_of_le hle with hlt | he
    · exact .inl hlt
    · exact .inr ⟨he, heven⟩

theorem nearest_congr {m d m' d' : Nat} (h : m * 2 ^ d' = m' * 2 ^ d) : nearest m d = nearest m' d' :=
  Nat.le_antisymm (nearest_mono (Nat.le_of_eq h)) (nearest_mono (Nat.le_of_eq h.symm))

@[simp] theorem nearest_zero (m : Nat) : nearest m 0 = m := by
  simp [nearest, Nat.mod_one]

theorem nearest_mul (k d : Nat) : nearest (k * 2 ^ d) d = k := by
  have h : k * 2 ^ d * 2 ^ 0 = k * 2 ^ d := Nat.mul_one _
  rw [nearest_congr h, nearest_zero]

theorem nearest_le_of_le {m d k : Nat} (h : m ≤ k * 2 ^ d) : nearest m d ≤ k := by
  rw [← nearest_mul k d]
  exact nearest_mono (Nat.mul_le_mul_right _ h)

/-- Shifting keeps the next bit and whether anything lies below it. -/
theorem repeat_shiftRightOne_succ (m d : Nat) :
    (d + 1).repeat ExtendedMantissa.shiftRightOne ⟨m, false, false⟩ =
      ⟨m / 2 ^ (d + 1), m / 2 ^ d % 2 != 0, m % 2 ^ d != 0⟩ := by
  induction d with
  | zero => simp [Nat.repeat, ExtendedMantissa.shiftRightOne, Nat.mod_one]
  | succ d ih =>
    have hq : m / 2 ^ (d + 1) / 2 = m / 2 ^ (d + 1 + 1) := by
      rw [Nat.div_div_eq_div_mul, ← Nat.pow_succ]
    have hr : (m / 2 ^ d % 2 != 0 || m % 2 ^ d != 0) = (m % 2 ^ (d + 1) != 0) := by
      have hp := Nat.two_pow_pos d
      rw [Nat.pow_succ, Nat.mod_mul, Bool.eq_iff_iff, Bool.or_eq_true, bne_iff_ne, bne_iff_ne,
        bne_iff_ne, Ne, Ne, Ne, Nat.add_eq_zero_iff, Nat.mul_eq_zero]
      omega
    rw [Nat.repeat, ih, ExtendedMantissa.shiftRightOne, hq, hr]

theorem roundedMantissa_repeat (m d : Nat) :
    (d.repeat ExtendedMantissa.shiftRightOne ⟨m, false, false⟩).roundedMantissa = nearest m d := by
  cases d with
  | zero => exact (nearest_zero m).symm
  | succ d =>
    have hm : m % 2 ^ (d + 1) = m % 2 ^ d + 2 ^ d * (m / 2 ^ d % 2) := by rw [Nat.pow_succ, Nat.mod_mul]
    have hr := Nat.mod_lt m (Nat.two_pow_pos d)
    rw [repeat_shiftRightOne_succ, nearest, hm, Nat.pow_succ]
    generalize m / (2 ^ d * 2) = q at *
    generalize m % 2 ^ d = r at *
    rcases Nat.mod_two_eq_zero_or_one (m / 2 ^ d) with hb | hb <;> rw [hb]
    · rw [if_pos (by omega)]
      cases h0 : (r != 0) <;> rfl
    · cases h0 : (r != 0) with
      | false =>
        rw [bne_eq_false_iff_eq] at h0
        change q + q % 2 = _
        split <;> omega
      | true =>
        rw [bne_iff_ne] at h0
        rw [if_neg (by omega)]
        rfl

/-- An exact value below the normal range is rounded to a multiple of the least subnormal. -/
theorem roundWithAccuracy_low {m d : Nat} {e : Int} (s : Sign) (hm : m < 2 ^ (52 + d)) (h0 : 0 < m)
    (he : e + d = -1074) :
    roundWithAccuracy .binary64 s m e .exact =
      if h : nearest m d = 0 then .zero s
      else .finite s (nearest m d) (-1074) (Nat.pos_of_ne_zero h) := by
  have hbits : (Format.binary64.mantissaBits : Int) = 53 := rfl
  have hmin : Format.binary64.minExponent = -1074 := rfl
  have hlog : m.log2 < 52 + d := (Nat.log2_lt (by omega)).mpr hm
  have hd : (-1074 - e).toNat = d := by omega
  have h1 : shiftToTargetExponent .binary64 m e .exact =
      (d.repeat ExtendedMantissa.shiftRightOne ⟨m, false, false⟩, -1074) := by
    have ht : Format.binary64.targetExponent (totalExponent m e) = -1074 := by
      rw [Format.targetExponent, totalExponent, hbits, hmin]
      omega
    rw [shiftToTargetExponent, ht, shiftToExponent, hd, he]
    rfl
  have hle : nearest m d ≤ 2 ^ 52 :=
    nearest_le_of_le (by rw [← Nat.pow_add]; exact Nat.le_of_lt hm)
  have h2 : shiftToTargetExponent .binary64 (nearest m d) (-1074) .exact =
      (⟨nearest m d, false, false⟩, -1074) := by
    have hlog : (nearest m d).log2 < 53 := by
      rcases Nat.eq_zero_or_pos (nearest m d) with hz | hp
      · rw [hz]
        decide
      · exact (Nat.log2_lt (by omega)).mpr (by omega)
    have ht : Format.binary64.targetExponent (totalExponent (nearest m d) (-1074)) = -1074 := by
      rw [Format.targetExponent, totalExponent, hbits, hmin]
      omega
    rw [shiftToTargetExponent, ht, shiftToExponent]
    rfl
  rw [roundWithAccuracy, h1]
  simp only [roundedMantissa_repeat, h2]

theorem toNat_toBits_mul_twoPow_low {x : Float} {n : Int} (hs : sign x = .positive) (h0 : field x ≠ 0)
    (hx : field x < 2047) (h1 : -1022 ≤ n) (h2 : n ≤ 1023) (hlow : field x + n ≤ 0) :
    (x * twoPow n).toBits.toNat = nearest (mantissa x) (1 - (field x + n)).toNat := by
  obtain ⟨ts,tf,tm,te⟩ := parts_twoPow h1 h2
  have hr := fraction_lt x
  have hm := mantissa_of_normal h0
  have he : exponent x = field x - 1075 := by
    rw [exponent]
    omega
  obtain ⟨d,hd⟩ := Int.eq_ofNat_of_zero_le (a := 1 - (field x + n)) (by omega)
  have hdt : (1 - ((field x : Int) + n)).toNat = d := by omega
  have hm53 : mantissa x < 2 ^ 53 := by omega
  have hlt : mantissa x * 2 ^ 52 < 2 ^ (52 + (d + 52)) := by
    have h53 : (2 : Nat) ^ 53 ≤ 2 ^ (d + 52) := Nat.pow_le_pow_right (by decide) (by omega)
    rw [Nat.pow_add, Nat.mul_comm (2 ^ 52)]
    exact Nat.mul_lt_mul_of_pos_right (by omega) (by decide)
  -- The mantissa `2 ^ 52` of the power of two shifts both sides of the quotient.
  have hnear : nearest (mantissa x * 2 ^ 52) (d + 52) = nearest (mantissa x) d :=
    nearest_congr (by rw [Nat.pow_add, Nat.mul_assoc, Nat.mul_comm (2 ^ 52)])
  have hround := roundWithAccuracy_low (s := .positive) hlt (Nat.mul_pos (by omega) (by decide))
    (e := exponent x + exponent (twoPow n)) (by rw [he, te]; push_cast; omega)
  rw [hnear] at hround
  have hss : (Sign.positive * Sign.positive) = .positive := rfl
  rw [mul_eq_pack, unpack_finite (by omega) (by omega), unpack_finite (by omega) (by omega), UnpackedFloat.mul, hs, ts,
    hss, tm, hround, hdt]
  have hle : nearest (mantissa x) d ≤ 2 ^ 52 :=
    nearest_le_of_le (by
      have h2d : (2 : Nat) ^ 1 ≤ 2 ^ d := Nat.pow_le_pow_right (by decide) (by omega)
      have := Nat.mul_le_mul_left (2 ^ 52) h2d
      omega)
  split
  · rename_i hz
    rw [hz, toNat_pack_zero]
    rfl
  · rename_i hz
    have hc : Canonical (nearest (mantissa x) d) (-1074) := ⟨by omega, by omega, by omega, .inr rfl⟩
    have hk := toNat_pack_positive hc.1 hc (by omega)
    omega

/-- The rank of the double nearest to a positive value, from the rank that the value would have were
exponents unbounded. -/
def rounded (p : Int) : Int :=
  if 2 ^ 52 ≤ p then p else nearest (2 ^ 52 + p % 2 ^ 52).toNat (1 - p / 2 ^ 52).toNat

theorem rounded_of_normal {p : Int} (h : 2 ^ 52 ≤ p) : rounded p = p := if_pos h

theorem rounded_nonneg (p : Int) : 0 ≤ rounded p := by
  rw [rounded]
  split <;> omega

theorem rounded_of_low {p : Int} (h : p < 2 ^ 52) :
    rounded p = nearest (2 ^ 52 + p % 2 ^ 52).toNat (1 - p / 2 ^ 52).toNat := if_neg (by omega)

theorem rounded_low_le {p : Int} (h : p < 2 ^ 52) : rounded p ≤ 2 ^ 52 := by
  have hd : (2 : Nat) ^ 1 ≤ 2 ^ (1 - p / 2 ^ 52).toNat := Nat.pow_le_pow_right (by decide) (by omega)
  have hmul := Nat.mul_le_mul_left (2 ^ 52) hd
  have hle := nearest_le_of_le (m := (2 ^ 52 + p % 2 ^ 52).toNat) (d := (1 - p / 2 ^ 52).toNat)
    (k := 2 ^ 52) (by omega)
  rw [rounded_of_low h]
  exact_mod_cast hle

theorem rounded_mono {p q : Int} (h : p ≤ q) : rounded p ≤ rounded q := by
  rcases Int.lt_or_le p (2 ^ 52) with hp | hp
  · rcases Int.lt_or_le q (2 ^ 52) with hq | hq
    · rw [rounded_of_low hp, rounded_of_low hq, Int.ofNat_le]
      apply nearest_mono
      -- A larger exponent makes up for a smaller mantissa.
      rcases Int.lt_or_eq_of_le (Int.ediv_le_ediv (by decide : (0 : Int) < 2 ^ 52) h) with hd | hd
      · have hpow : (2 : Nat) ^ ((1 - q / 2 ^ 52).toNat + 1) ≤ 2 ^ (1 - p / 2 ^ 52).toNat :=
          Nat.pow_le_pow_right (by decide) (by omega)
        calc (2 ^ 52 + p % 2 ^ 52).toNat * 2 ^ (1 - q / 2 ^ 52).toNat
            ≤ 2 ^ 53 * 2 ^ (1 - q / 2 ^ 52).toNat := Nat.mul_le_mul_right _ (by omega)
          _ = 2 ^ 52 * 2 ^ ((1 - q / 2 ^ 52).toNat + 1) := by ring
          _ ≤ 2 ^ 52 * 2 ^ (1 - p / 2 ^ 52).toNat := Nat.mul_le_mul_left _ hpow
          _ ≤ (2 ^ 52 + q % 2 ^ 52).toNat * 2 ^ (1 - p / 2 ^ 52).toNat :=
            Nat.mul_le_mul_right _ (by omega)
      · rw [hd]
        exact Nat.mul_le_mul_right _ (by omega)
    · rw [rounded_of_normal hq]
      exact (rounded_low_le hp).trans hq
  · rw [rounded_of_normal hp, rounded_of_normal (hp.trans h)]
    exact h

theorem rank_scale_rounded {f : Float} {e : Int} (hs : sign f = .positive) (h1 : 1022 ≤ field f)
    (h2 : field f ≤ 1023) (hlow : -1090 ≤ e) (hhigh : e ≤ 1040) :
    (scale f e).isNaN = false ∧
      rank (scale f e) =
        if field f + e < 2047 then rounded (rank f + e * 2 ^ 52) else 2047 * 2 ^ 52 := by
  have hr := fraction_lt f
  have hw := toNat_toBits_of_positive hs
  have hrank := rank_of_positive hs
  rcases Int.lt_or_le 0 (field f + e) with hn | hn
  · obtain ⟨sn,sr⟩ := rank_scale hs h1 h2 hn hhigh
    refine ⟨sn, ?_⟩
    rw [sr, rounded_of_normal (by omega)]
  · have ht := tdiv_two_bounds e
    have hm := toNat_toBits_mul_twoPow (n := e.tdiv 2) hs (by omega) (by omega) (by omega) (by omega)
      (by omega)
    rw [if_pos (by omega)] at hm
    obtain ⟨hs',hf',hr'⟩ := parts_of_toNat (x := f * twoPow (e.tdiv 2))
      (f := (field f + e.tdiv 2).toNat) (r := fraction f) (by omega) hr (by omega)
    have hk := toNat_toBits_mul_twoPow_low (n := e - e.tdiv 2) hs' (by omega) (by omega) (by omega)
      (by omega) (by omega)
    have hd : (1 - (((field f + e.tdiv 2).toNat : Int) + (e - e.tdiv 2))).toNat =
        (1 - (rank f + e * 2 ^ 52) / 2 ^ 52).toNat := by omega
    have hmant : fraction f + 2 ^ 52 = (2 ^ 52 + (rank f + e * 2 ^ 52) % 2 ^ 52).toNat := by omega
    have hfit : (scale f e).toBits.toNat = rounded (rank f + e * 2 ^ 52) := by
      rw [rounded_of_low (by omega), scale, power_two (by omega) (by omega),
        power_two (by omega) (by omega), hk, mantissa_of_normal (by omega), hf', hr', hd, hmant]
    have hle := rounded_low_le (p := rank f + e * 2 ^ 52) (by omega)
    rw [if_pos (by omega)]
    exact rank_of_word hfit (by omega)

/-- Rounding moves no double. -/
theorem rounded_split {x : Float} (hp : 0 < rank x) (hf : field x ≠ 2047) :
    rounded (rank (split x).1 + (split x).2 * 2 ^ 52) = rank x := by
  have hs := sign_of_rank_pos hp
  have hx := rank_of_positive hs
  have hw := toNat_toBits_of_positive hs
  by_cases h0 : field x = 0
  · have hr : fraction x ≠ 0 := by omega
    obtain ⟨l,hl,h1,h2,hlift⟩ := toNat_toBits_lifted hs h0 hr
    obtain ⟨ps,p1,p2⟩ := parts_lifted hs h0 hr
    have hrank := rank_of_positive ps
    have hsplit := rank_split (x := x * power 2 64) (by omega) (by omega) (by omega)
    rw [split_of_normal (by omega) (by omega)] at hsplit
    have hnear := nearest_mul (fraction x) (52 - l)
    rw [split_of_subnormal h0 hr]
    dsimp only
    generalize fraction x * 2 ^ (52 - l) = m at *
    have hpl : rank (splitNormal (x * power 2 64)).1 +
        ((splitNormal (x * power 2 64)).2 - 64) * 2 ^ 52 = ((l : Int) - 52) * 2 ^ 52 + m := by
      omega
    have hd : (1 - (((l : Int) - 52) * 2 ^ 52 + m) / 2 ^ 52).toNat = 52 - l := by omega
    have hm : (2 ^ 52 + (((l : Int) - 52) * 2 ^ 52 + m) % 2 ^ 52).toNat = m := by omega
    rw [hpl, rounded_of_low (by omega), hd, hm, hnear]
    omega
  · rw [rank_split hp hf h0, rounded_of_normal]
    omega

end Metering.Binary64
