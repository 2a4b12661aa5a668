import Metering.Proofs.Binary64.Sum

/-! # Products keep order

The product of two unsigned doubles is the double nearest to the product of their units, so that it keeps order
in both factors. Powers of two are computed by squaring up to infinity; hence what is scaled further down gets no
larger.
-/
namespace Metering.Binary64
open Float.Model Float.Model.UnpackedFloat

/-- The rank of the double nearest to `n / 2 ^ d` units, were there no largest one. -/
def quotientRank (d n : Nat) : Nat :=
  (n.log2 - 52 - d) * 2 ^ 52 + nearest n (max (n.log2 - 52) d)

theorem quotientRank_mono {d n n' : Nat} (h : n ≤ n') : quotientRank d n ≤ quotientRank d n' := by
  have hlog := log2_mono h
  unfold quotientRank
  rcases Nat.lt_or_ge (max (n.log2 - 52) d) (max (n'.log2 - 52) d) with hlt | hge
  · have hmax : max (n'.log2 - 52) d = n'.log2 - 52 := by omega
    have hshift : nearest n (max (n.log2 - 52) d) ≤ nearest n (n.log2 - 52) :=
      nearest_mono (Nat.mul_le_mul_left n (Nat.pow_le_pow_right (by decide) (Nat.le_max_left _ _)))
    have hlow := (nearest_bounds n).1
    have hhigh := (nearest_bounds n').2 (by omega)
    rw [hmax]
    omega
  · have heq : max (n'.log2 - 52) d = max (n.log2 - 52) d := by omega
    have hmono : nearest n (max (n.log2 - 52) d) ≤ nearest n' (max (n.log2 - 52) d) :=
      nearest_mono (Nat.mul_le_mul_right _ h)
    rw [heq]
    omega

@[simp] theorem quotientRank_zero (d : Nat) : quotientRank d 0 = 0 := by
  simp [quotientRank, nearest]

theorem quotientRank_mul_two_pow {m a d : Nat} (hm : 0 < m) (ha : a ≤ max (m.log2 + a - 52) d) :
    quotientRank d (m * 2 ^ a) =
      (m.log2 + a - 52 - d) * 2 ^ 52 + nearest m (max (m.log2 + a - 52) d - a) := by
  have hnear : nearest (m * 2 ^ a) (max (m.log2 + a - 52) d) = nearest m (max (m.log2 + a - 52) d - a) := by
    apply nearest_congr
    rw [Nat.mul_assoc, ← Nat.pow_add, Nat.add_sub_cancel' ha]
  rw [quotientRank, log2_mul_two_pow hm, hnear]

/-- A rounded product as a word: the mantissas are multiplied and the exponents added. -/
theorem toNat_pack_product {m d : Nat} {e : Int} (hm : 0 < m) (hd : d = 1074) (he : -2148 ≤ e)
    (hwide : 52 ≤ m.log2 ∨ e = -2148) :
    (Float.ofModel (.pack (roundWithAccuracy .binary64 .positive m e .exact))).toBits.toNat =
      min (quotientRank d (m * 2 ^ (e + 2148).toNat)) (2047 * 2 ^ 52) := by
  obtain ⟨a,ha⟩ := Int.eq_ofNat_of_zero_le (a := e + 2148) (by omega)
  have hat : (e + 2148).toNat = a := by omega
  rw [hat]
  rcases Int.lt_or_le (m.log2 + e) (-1022) with hlow | hnormal
  · have hlt : m < 2 ^ (52 + (d - a)) := (Nat.log2_lt (by omega)).mp (by omega)
    have hmax : max (m.log2 + a - 52) d = d := by omega
    have hzero : m.log2 + a - 52 - d = 0 := by omega
    rw [quotientRank_mul_two_pow hm (by omega), roundWithAccuracy_low .positive hlt hm (by omega), hmax, hzero,
      Nat.zero_mul, Nat.zero_add]
    have hle : nearest m (d - a) ≤ 2 ^ 52 := nearest_le_of_le (by rw [← Nat.pow_add]; exact hlt.le)
    split
    · rename_i hz
      rw [hz, toNat_pack_zero]
      rfl
    · rename_i hz
      exact toNat_pack_canonical (t := -1074) _ ⟨by omega, by omega, by omega, .inr rfl⟩ (by omega)
  · have hbits : 52 ≤ m.log2 := by omega
    have hmax : max (m.log2 + a - 52) d - a = m.log2 - 52 := by omega
    obtain ⟨r,t,hr,heq,hc,hrank⟩ := roundWithAccuracy_wide (e := e) .positive hm (by omega) (.inl hbits)
    rw [heq, quotientRank_mul_two_pow hm (by omega), hmax]
    exact toNat_pack_canonical hr hc (by push_cast; omega)

variable {x y x' y' : Float}

structure Magnitude (x : Float) : Prop extends Unsigned x where
  finite : field x ≠ 2047

theorem Magnitude.unpack (hx : Magnitude x) :
    (mantissa x = 0 ∧ x.toModel.unpack = .zero .positive) ∨
      ∃ hm, x.toModel.unpack = .finite .positive (mantissa x) (exponent x) hm := by
  have hu := unpack_toModel x
  rw [if_neg hx.finite, hx.unsigned] at hu
  by_cases hm : mantissa x = 0
  · rw [dif_pos hm] at hu
    exact .inl ⟨hm, hu⟩
  · rw [dif_neg hm] at hu
    exact .inr ⟨_, hu⟩

theorem units_mul_units (x y : Float) :
    units x * units y = mantissa x * mantissa y * 2 ^ (exponent x + exponent y + 2148).toNat := by
  have hlx := exponent_ge x
  have hly := exponent_ge y
  have hexp : (exponent x + exponent y + 2148).toNat = (exponent x + 1074).toNat + (exponent y + 1074).toNat := by
    omega
  rw [hexp, Nat.pow_add, units, units]
  ring

/-- One normal factor gives the product enough bits. -/
theorem wide_mul (px : 0 < mantissa x) (py : 0 < mantissa y) :
    52 ≤ (mantissa x * mantissa y).log2 ∨ exponent x + exponent y = -2148 := by
  have hpos := Nat.mul_pos px py
  rcases mantissa_normal x with h | h
  · exact .inl ((Nat.le_log2 (by omega)).mpr (h.trans (Nat.le_mul_of_pos_right _ py)))
  · rcases mantissa_normal y with h' | h'
    · exact .inl ((Nat.le_log2 (by omega)).mpr (h'.trans (Nat.le_mul_of_pos_left _ px)))
    · exact .inr (by omega)

/-- The product is the double nearest to the product of the units, infinity past the largest finite double. -/
theorem toNat_toBits_mul (hx : Magnitude x) (hy : Magnitude y) {d : Nat} (hd : d = 1074) :
    (x * y).toBits.toNat = min (quotientRank d (units x * units y)) (2047 * 2 ^ 52) := by
  rcases hx.unpack with ⟨zx,ux⟩ | ⟨px,ux⟩
  · have hzero : UnpackedFloat.mul .binary64 (.zero .positive) y.toModel.unpack = .zero .positive := by
      rcases hy.unpack with ⟨_,uy⟩ | ⟨_,uy⟩ <;> rw [uy] <;> rfl
    rw [mul_eq_pack, ux, hzero, units, zx, Nat.zero_mul, Nat.zero_mul, quotientRank_zero, toNat_pack_zero]
    rfl
  · rcases hy.unpack with ⟨zy,uy⟩ | ⟨py,uy⟩
    · have hzero : UnpackedFloat.mul .binary64 x.toModel.unpack (.zero .positive) = .zero .positive := by
        rw [ux]
        rfl
      rw [mul_eq_pack, uy, hzero, units, units, zy, Nat.zero_mul, Nat.mul_zero, quotientRank_zero, toNat_pack_zero]
      rfl
    · have hlx := exponent_ge x
      have hly := exponent_ge y
      rw [mul_eq_pack, ux, uy, UnpackedFloat.mul, units_mul_units]
      exact toNat_pack_product (Nat.mul_pos px py) hd (by omega) (wide_mul px py)

theorem unsigned_mul (hx : Magnitude x) (hy : Magnitude y) : Unsigned (x * y) :=
  unsigned_of_word (toNat_toBits_mul hx hy rfl) (Nat.min_le_right _ _)

theorem rank_mul_mono (hx : Magnitude x) (hy : Magnitude y) (hx' : Magnitude x') (hy' : Magnitude y')
    (hxx : rank x ≤ rank x') (hyy : rank y ≤ rank y') : rank (x * y) ≤ rank (x' * y') := by
  have hunits := Nat.mul_le_mul (hx.toNonneg.units_le hx'.toNonneg hxx) (hy.toNonneg.units_le hy'.toNonneg hyy)
  obtain ⟨d,hd⟩ : ∃ d, d = 1074 := ⟨_, rfl⟩
  rw [(unsigned_mul hx hy).rank_eq, (unsigned_mul hx' hy').rank_eq, toNat_toBits_mul hx hy hd,
    toNat_toBits_mul hx' hy' hd]
  exact Int.ofNat_le.mpr (min_le_min_right _ (quotientRank_mono hunits))

def cappedPow (n : Nat) : Float :=
  if n ≤ 1023 then twoPow n else infinity

theorem cappedPow_of_le {n : Nat} (h : n ≤ 1023) : cappedPow n = twoPow n := if_pos h

theorem cappedPow_of_lt {n : Nat} (h : 1023 < n) : cappedPow n = infinity := if_neg (by omega)

theorem unpack_twoPow {n : Nat} (h : n ≤ 1023) :
    (twoPow n).toModel.unpack = .finite .positive (2 ^ 52) (n - 52) (by decide) := by
  obtain ⟨hs,hf,hm,he⟩ := parts_twoPow (n := n) (by omega) (by omega)
  have hu := unpack_finite (x := twoPow n) (by omega) (by omega)
  simpa only [hs, hm, he] using hu

theorem unpack_infinity : infinity.toModel.unpack = .infinity .positive := by
  have hu := unpack_toModel infinity
  rwa [if_pos (by rfl), if_pos (by rfl)] at hu

theorem cappedPow_mul (m n : Nat) : cappedPow m * cappedPow n = cappedPow (m + n) := by
  have hinf : Float.ofModel (.pack (.infinity .positive)) = infinity := rfl
  rcases Nat.lt_or_ge 1023 m with hm | hm <;> rcases Nat.lt_or_ge 1023 n with hn | hn
  · rw [mul_eq_pack, cappedPow_of_lt hm, cappedPow_of_lt hn, cappedPow_of_lt (by omega), unpack_infinity]
    exact hinf
  · rw [mul_eq_pack, cappedPow_of_lt hm, cappedPow_of_le hn, cappedPow_of_lt (by omega), unpack_infinity, unpack_twoPow hn]
    exact hinf
  · rw [mul_eq_pack, cappedPow_of_le hm, cappedPow_of_lt hn, cappedPow_of_lt (by omega), unpack_infinity, unpack_twoPow hm]
    exact hinf
  · rw [cappedPow_of_le hm, cappedPow_of_le hn]
    rcases Nat.lt_or_ge 1023 (m + n) with h | h
    · obtain ⟨hs,hf,_,_⟩ := parts_twoPow (n := m) (by omega) (by omega)
      have hw := toNat_toBits_mul_twoPow (n := n) hs (by omega) (by omega) (by omega) (by omega) (by omega)
      rw [if_neg (by omega)] at hw
      rw [cappedPow_of_lt h]
      exact eq_of_toNat_toBits (by exact_mod_cast hw)
    · rw [cappedPow_of_le h, twoPow_mul (by omega) (by omega) (by omega) (by omega) (by omega) (by omega), Nat.cast_add]

theorem powerLoop_cappedPow (a b n : Nat) : powerLoop (cappedPow b) (cappedPow a) n = cappedPow (a + b * n) := by
  induction n using Nat.strongRecOn generalizing a b with
  | ind n ih =>
    have hn : b * n = b * (n % 2) + (b + b) * (n / 2) := by
      conv_lhs => rw [← Nat.mod_add_div n 2]
      ring
    have hacc : (if n % 2 = 1 then cappedPow a * cappedPow b else cappedPow a) = cappedPow (a + b * (n % 2)) := by
      rcases Nat.mod_two_eq_zero_or_one n with h2 | h2
      · rw [if_neg (by omega), h2, Nat.mul_zero, Nat.add_zero]
      · rw [if_pos h2, h2, Nat.mul_one, cappedPow_mul]
    rw [powerLoop]
    simp only [hacc]
    split
    · rename_i h2
      rw [hn, h2, Nat.mul_zero, Nat.add_zero]
    · rw [cappedPow_mul, ih (n / 2) (by omega), hn, Nat.add_assoc]

theorem powerLoop_two (n : Nat) : powerLoop 2 1 n = cappedPow n := by
  have h1 : (1 : Float) = cappedPow 0 := one_eq_twoPow.trans (cappedPow_of_le (by decide)).symm
  have h2 : (2 : Float) = cappedPow 1 := two_eq_twoPow.trans (cappedPow_of_le (by decide)).symm
  rw [h1, h2, powerLoop_cappedPow, Nat.zero_add, Nat.one_mul]

theorem magnitude_of_word {w : Nat} (h : x.toBits.toNat = w) (hw : w < 2047 * 2 ^ 52) : Magnitude x ∧ rank x = w := by
  have hu := unsigned_of_word h hw.le
  have hr := hu.rank_eq
  refine ⟨⟨hu, ?_⟩, by omega⟩
  rw [field, h]
  omega

theorem rank_twoPow {n : Int} (h1 : -1022 ≤ n) (h2 : n ≤ 1023) :
    Magnitude (twoPow n) ∧ rank (twoPow n) = (n + 1023) * 2 ^ 52 := by
  obtain ⟨hf,hr⟩ := magnitude_of_word (toNat_toBits_twoPow h1 h2) (by omega)
  exact ⟨hf, by omega⟩

/-- The reciprocals of the largest powers of two, the last of them subnormal. -/
theorem rank_reciprocal {n : Int} (h1 : -1023 ≤ n) (h2 : n ≤ -1021) :
    Magnitude (power 2 n) ∧ rank (power 2 n) ≤ 2 * 2 ^ 52 := by
  have hword : (power 2 n).toBits.toNat ≤ 2 * 2 ^ 52 := by
    obtain rfl | rfl | rfl : n = -1023 ∨ n = -1022 ∨ n = -1021 := by omega
    all_goals decide +kernel
  obtain ⟨hf,hr⟩ := magnitude_of_word (x := power 2 n) rfl (by omega)
  exact ⟨hf, by omega⟩

theorem power_two_le {n m : Int} (h : n ≤ m) (h1 : -1020 ≤ m) (h2 : m ≤ 1023) :
    Magnitude (power 2 n) ∧ rank (power 2 n) ≤ rank (twoPow m) := by
  obtain ⟨_,hm⟩ := rank_twoPow (n := m) (by omega) h2
  rw [hm]
  rcases Int.lt_or_le n (-1020) with hlow | hn
  · rcases Int.lt_or_le n (-1023) with hzero | hn
    · have hp : power 2 n = 0 := by
        rw [power, if_pos (by omega), powerLoop_two, cappedPow_of_lt (by omega)]
        rfl
      rw [hp]
      exact ⟨⟨unsigned_zero, by decide⟩, by rw [rank_zero]; omega⟩
    · obtain ⟨hf,hr⟩ := rank_reciprocal hn (by omega)
      exact ⟨hf, by omega⟩
  · obtain ⟨hf,hr⟩ := rank_twoPow (n := n) (by omega) (by omega)
    rw [power_two hn (by omega), hr]
    exact ⟨hf, by omega⟩

theorem Magnitude.mul_of_le (hx : Magnitude x) (hy : Magnitude y) (hx' : Magnitude x') (hy' : Magnitude y')
    (hxx : rank x ≤ rank x') (hyy : rank y ≤ rank y') (h : Magnitude (x' * y')) :
    Magnitude (x * y) ∧ rank (x * y) ≤ rank (x' * y') := by
  have hle := rank_mul_mono hx hy hx' hy' hxx hyy
  have hr := (unsigned_mul hx hy).rank_eq
  have hr' := h.toUnsigned.rank_eq
  have hw := toNat_toBits_of_positive h.unsigned
  have hlt := field_lt (x' * y')
  have hfr := fraction_lt (x' * y')
  have hf := h.finite
  exact ⟨(magnitude_of_word rfl (by omega)).1, hle⟩

theorem rank_scale_le {f : Float} {e : Int} (hs : sign f = .positive) (h1 : 1022 ≤ field f) (h2 : field f ≤ 1023)
    (he : e ≤ -1090) : Nonneg (scale f e) ∧ rank (scale f e) ≤ rank (scale f (-1090)) := by
  have hf : Magnitude f := ⟨⟨isNaN_of_field (by omega), hs⟩, by omega⟩
  have ht := tdiv_two_bounds e
  have hfr := fraction_lt f
  have hw := toNat_toBits_of_positive hs
  obtain ⟨ft,_⟩ := rank_twoPow (n := -545) (by decide) (by decide)
  obtain ⟨f1,r1⟩ := power_two_le (n := e.tdiv 2) (m := -545) (by omega) (by decide) (by decide)
  obtain ⟨f2,r2⟩ := power_two_le (n := e - e.tdiv 2) (m := -545) (by omega) (by decide) (by decide)
  have hm := toNat_toBits_mul_twoPow (n := -545) hs (by omega) (by omega) (by decide) (by decide) (by omega)
  rw [if_pos (by omega)] at hm
  obtain ⟨fm,_⟩ := magnitude_of_word (x := f * twoPow (-545)) rfl (by omega)
  obtain ⟨fp,rp⟩ := hf.mul_of_le f1 hf ft (le_refl _) r1 fm
  have hscale : scale f (-1090) = f * twoPow (-545) * twoPow (-545) := by
    rw [scale, ← power_two (by decide) (by decide)]
    rfl
  rw [hscale]
  exact ⟨(unsigned_mul fp f2).toNonneg, rank_mul_mono fp f2 fm ft rp r2⟩

/-- What is scaled by less than the least normal power of two is subnormal or zero. -/
theorem rank_scale_lt {f : Float} {e : Int} (hs : sign f = .positive) (h1 : 1022 ≤ field f) (h2 : field f ≤ 1023)
    (he : e ≤ -1024) : Nonneg (scale f e) ∧ rank (scale f e) < 2 ^ 52 := by
  have hfr := fraction_lt f
  have hrank := rank_of_positive hs
  have hw := toNat_toBits_of_positive hs
  have hzero : rounded 0 = 2 ^ 51 := by decide
  have hlow : ∀ e : Int, -1090 ≤ e → e ≤ -1024 → Nonneg (scale f e) ∧ rank (scale f e) < 2 ^ 52 := by
    intro e h h'
    obtain ⟨sn,sr⟩ := rank_scale_rounded hs h1 h2 h (by omega)
    have hmono := rounded_mono (p := rank f + e * 2 ^ 52) (q := 0) (by omega)
    have hpos := rounded_nonneg (rank f + e * 2 ^ 52)
    rw [if_pos (by omega)] at sr
    exact ⟨⟨sn, by omega⟩, by omega⟩
  rcases Int.lt_or_le e (-1090) with h | h
  · obtain ⟨sn,sr⟩ := rank_scale_le hs h1 h2 h.le
    exact ⟨sn, sr.trans_lt (hlow (-1090) (le_refl _) (by decide)).2⟩
  · exact hlow e h he

end Metering.Binary64
