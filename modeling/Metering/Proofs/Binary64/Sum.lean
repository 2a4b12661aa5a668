import Metering.Proofs.Binary64.Rounding

/-! # Sums of doubles

A double that is not negative is a number of units, each as large as the least subnormal double. A sum
is the double nearest to the sum of the units, so that it keeps order in both operands. Converting a
word rounds in the same way.
-/
namespace Metering.Binary64
open Float.Model Float.Model.UnpackedFloat

/-- The magnitude in units of the least subnormal double. -/
def units (x : Float) : Nat :=
  mantissa x * 2 ^ (exponent x + 1074).toNat

/-- The rank of the double nearest to `n` units, were there no largest one. -/
def nearestRank (n : Nat) : Nat :=
  (n.log2 - 52) * 2 ^ 52 + nearest n (n.log2 - 52)

theorem le_nearest {m d k : Nat} (h : k * 2 ^ d ≤ m) : k ≤ nearest m d := by
  have hle : nearest (k * 2 ^ d) d ≤ nearest m d := nearest_mono (Nat.mul_le_mul_right _ h)
  rwa [nearest_mul] at hle

theorem nearest_bounds (n : Nat) :
    nearest n (n.log2 - 52) ≤ 2 ^ 53 ∧ (52 < n.log2 → 2 ^ 52 ≤ nearest n (n.log2 - 52)) := by
  constructor
  · have hlt : n < 2 ^ (n.log2 + 1) := Nat.lt_log2_self
    have hle : 2 ^ (n.log2 + 1) ≤ 2 ^ (53 + (n.log2 - 52)) := Nat.pow_le_pow_right (by decide) (by omega)
    apply nearest_le_of_le
    rw [← Nat.pow_add]
    omega
  · intro h
    apply le_nearest
    rw [← Nat.pow_add, Nat.add_sub_cancel' (by omega)]
    exact Nat.log2_self_le (by rintro rfl; simp at h)

theorem log2_mono {n n' : Nat} (h : n ≤ n') : n.log2 ≤ n'.log2 := by
  rcases Nat.eq_zero_or_pos n with rfl | hn
  · exact Nat.zero_le _
  · exact (Nat.le_log2 (by omega)).mpr ((Nat.log2_self_le (by omega)).trans h)

theorem nearestRank_mono {n n' : Nat} (h : n ≤ n') : nearestRank n ≤ nearestRank n' := by
  have hlog := log2_mono h
  obtain ⟨hle,_⟩ := nearest_bounds n
  obtain ⟨_,hge⟩ := nearest_bounds n'
  unfold nearestRank
  rcases Nat.lt_or_ge (n.log2 - 52) (n'.log2 - 52) with hlt | hge'
  · have := hge (by omega)
    omega
  · have heq : n.log2 - 52 = n'.log2 - 52 := by omega
    have hmono : nearest n (n'.log2 - 52) ≤ nearest n' (n'.log2 - 52) := nearest_mono (Nat.mul_le_mul_right _ h)
    rw [heq]
    omega

/-- A number that has all its bits is rounded alike in every place. -/
theorem nearestRank_mul_two_pow {m d : Nat} (hm : 0 < m) (hwide : 52 ≤ m.log2 ∨ d = 0) :
    nearestRank (m * 2 ^ d) = (m.log2 - 52 + d) * 2 ^ 52 + nearest m (m.log2 - 52) := by
  have hshift : (m * 2 ^ d).log2 - 52 = m.log2 - 52 + d := by
    rw [log2_mul_two_pow hm]
    omega
  have hnear : nearest (m * 2 ^ d) (m.log2 - 52 + d) = nearest m (m.log2 - 52) :=
    nearest_congr (by rw [Nat.pow_add]; ring)
  rw [nearestRank, hshift, hnear]

/-- What has the bits of a mantissa at some exponent is not rounded. -/
theorem nearestRank_canonical {m : Nat} {e : Int} (hm : m < 2 ^ 53) (he : -1074 ≤ e)
    (hc : 2 ^ 52 ≤ m ∨ e = -1074) :
    (nearestRank (m * 2 ^ (e + 1074).toNat) : Int) = (e + 1074) * 2 ^ 52 + m := by
  rcases Nat.eq_zero_or_pos m with rfl | hpos
  · have hlast : e = -1074 := hc.resolve_left (by decide)
    rw [hlast, Nat.zero_mul]
    rfl
  · have hlog : m.log2 - 52 = 0 := by
      have hlt := (Nat.log2_lt (Nat.ne_of_gt hpos)).mpr hm
      omega
    have hwide : 52 ≤ m.log2 ∨ (e + 1074).toNat = 0 :=
      hc.imp (Nat.le_log2 (Nat.ne_of_gt hpos)).mpr fun hlast => by rw [hlast]; rfl
    rw [nearestRank_mul_two_pow hpos hwide, hlog, nearest_zero]
    push_cast
    omega

/-- The first shift leaves a mantissa of 53 bits and what was cut off. -/
theorem shiftToTargetExponent_eq {m : Nat} {e : Int} (he : -1074 ≤ e + (m.log2 - 52 : Nat)) :
    shiftToTargetExponent .binary64 m e .exact =
      ((m.log2 - 52).repeat ExtendedMantissa.shiftRightOne ⟨m, false, false⟩, e + (m.log2 - 52 : Nat)) := by
  have hbits : (Format.binary64.mantissaBits : Int) = 53 := rfl
  have hmin : Format.binary64.minExponent = -1074 := rfl
  have hd : (Format.binary64.targetExponent (totalExponent m e) - e).toNat = m.log2 - 52 := by
    rw [Format.targetExponent, totalExponent, hbits, hmin]
    omega
  rw [shiftToTargetExponent, shiftToExponent, hd]
  rfl

/-- The second shift drops nothing of a mantissa that the first one has left. -/
theorem roundWithAccuracy_of_nearest {m r k : Nat} {e : Int} (s : Sign) (he : -1074 ≤ e + (m.log2 - 52 : Nat))
    (hnear : nearest m (m.log2 - 52) = r * 2 ^ k) (hc : Canonical r (e + (m.log2 - 52 : Nat) + k)) :
    roundWithAccuracy .binary64 s m e .exact = .finite s r (e + (m.log2 - 52 : Nat) + k) hc.1 := by
  have hsecond := shiftToTargetExponent_exact hc
  rw [roundWithAccuracy, shiftToTargetExponent_eq he]
  simp only [roundedMantissa_repeat, hnear, hsecond, Nat.ne_of_gt hc.1, dite_false]

theorem roundWithAccuracy_wide {m : Nat} {e : Int} (s : Sign) (hm : 0 < m) (he : -1074 ≤ e + (m.log2 - 52 : Nat))
    (hwide : 52 ≤ m.log2 ∨ e = -1074) :
    ∃ r t hr, roundWithAccuracy .binary64 s m e .exact = .finite s r t hr ∧ Canonical r t ∧
      (t + 1074) * 2 ^ 52 + r = (e + (m.log2 - 52 : Nat) + 1074) * 2 ^ 52 + nearest m (m.log2 - 52) := by
  obtain ⟨hle,hge⟩ := nearest_bounds m
  have hnormal : 2 ^ 52 ≤ nearest m (m.log2 - 52) ∨ e + (m.log2 - 52 : Nat) = -1074 := by
    rcases Nat.lt_or_ge 52 m.log2 with h | h
    · exact .inl (hge h)
    · rw [Nat.sub_eq_zero_of_le h, nearest_zero]
      exact hwide.imp (Nat.le_log2 (Nat.ne_of_gt hm)).mp fun hlast => by omega
  have hpos : 0 < nearest m (m.log2 - 52) := by
    rcases Nat.lt_or_ge 52 m.log2 with h | h
    · have := hge h
      omega
    · rwa [Nat.sub_eq_zero_of_le h, nearest_zero]
  rcases Nat.lt_or_eq_of_le hle with hlt | htop
  · have hc : Canonical (nearest m (m.log2 - 52)) (e + (m.log2 - 52 : Nat) + (0 : Nat)) :=
      ⟨hpos, hlt, by omega, by simpa using hnormal⟩
    exact ⟨_, _, hc.1, roundWithAccuracy_of_nearest s he (by simp) hc, hc, by omega⟩
  · -- The carry goes to the exponent.
    have hc : Canonical (2 ^ 52) (e + (m.log2 - 52 : Nat) + (1 : Nat)) := ⟨by decide, by decide, by omega, .inl (by decide)⟩
    exact ⟨_, _, hc.1, roundWithAccuracy_of_nearest s he htop hc, hc, by omega⟩

theorem roundWithAccuracy_units {m : Nat} {e : Int} (s : Sign) (hm : 0 < m) (he : -1074 ≤ e)
    (hwide : 52 ≤ m.log2 ∨ e = -1074) :
    ∃ r t hr, roundWithAccuracy .binary64 s m e .exact = .finite s r t hr ∧ Canonical r t ∧
      (t + 1074) * 2 ^ 52 + r = nearestRank (m * 2 ^ (e + 1074).toNat) := by
  have hrank := nearestRank_mul_two_pow (d := (e + 1074).toNat) hm (hwide.imp id fun h => by rw [h]; rfl)
  obtain ⟨r,t,hr,heq,hc,hsum⟩ := roundWithAccuracy_wide s hm (by omega) hwide
  exact ⟨r, t, hr, heq, hc, by omega⟩

theorem round_units {m : Nat} {e : Int} (s : Sign) (hm : 0 < m) (he : -1074 ≤ e) :
    ∃ r t hr, UnpackedFloat.round .binary64 s m e = .finite s r t hr ∧ Canonical r t ∧
      (t + 1074) * 2 ^ 52 + r = nearestRank (m * 2 ^ (e + 1074).toNat) := by
  have hbits : (Format.binary64.mantissaBits : Int) = 53 := rfl
  have hmin : Format.binary64.minExponent = -1074 := rfl
  have htarget : Format.binary64.targetExponent (totalExponent m e) = max (m.log2 + e - 52) (-1074) := by
    rw [Format.targetExponent, totalExponent, hbits, hmin]
    omega
  simp only [UnpackedFloat.round, htarget, decreaseExponent]
  generalize hk : (e - max (m.log2 + e - 52) (-1074)).toNat = k
  have hlog := log2_mul_two_pow hm k
  have hunits : m * 2 ^ k * 2 ^ (e - k + 1074).toNat = m * 2 ^ (e + 1074).toNat := by
    rw [Nat.mul_assoc, ← Nat.pow_add]
    congr 2
    omega
  rw [Nat.shiftLeft_eq, ← hunits]
  exact roundWithAccuracy_units s (Nat.mul_pos hm (Nat.two_pow_pos k)) (by omega) (by omega)

theorem toNat_pack_canonical {r n : Nat} {t : Int} (hr : 0 < r) (hcanonical : Canonical r t)
    (hrank : (t + 1074) * 2 ^ 52 + r = (n : Int)) :
    (Float.ofModel (.pack (.finite .positive r t hr))).toBits.toNat = min n (2047 * 2 ^ 52) := by
  obtain ⟨_,h53,hlow,hnormal⟩ := hcanonical
  have hb : signBit .positive = 0 := rfl
  rcases Int.lt_or_le 971 t with ht | ht
  · rw [toNat_pack_overflow hr ht, hb, Nat.zero_mul, Nat.zero_add, Nat.min_eq_right]
    omega
  · have hword := toNat_pack_positive hr ⟨hr, h53, hlow, hnormal⟩ ht
    omega

theorem toNat_pack_round {m : Nat} {e : Int} (hm : 0 < m) (he : -1074 ≤ e) :
    (Float.ofModel (.pack (.round .binary64 .positive m e))).toBits.toNat =
      min (nearestRank (m * 2 ^ (e + 1074).toNat)) (2047 * 2 ^ 52) := by
  obtain ⟨r,t,hr,heq,hc,hrank⟩ := round_units .positive hm he
  rw [heq]
  exact toNat_pack_canonical hr hc hrank

theorem toNat_pack_normalize (n : Nat) {e : Int} (he : -1074 ≤ e) :
    (Float.ofModel (.pack (.normalize .binary64 n e .positive))).toBits.toNat =
      min (nearestRank (n * 2 ^ (e + 1074).toNat)) (2047 * 2 ^ 52) := by
  rcases Nat.eq_zero_or_pos n with rfl | hn
  · rw [Nat.zero_mul]
    exact toNat_pack_zero .positive
  · have hgt : compare (n : Int) 0 = .gt := compare_gt_iff_gt.mpr (by omega)
    rw [UnpackedFloat.normalize, hgt]
    exact toNat_pack_round hn he

/-- Neither NaN nor below zero. -/
structure Nonneg (x : Float) : Prop where
  number : x.isNaN = false
  nonneg : 0 ≤ rank x

/-- Neither NaN nor signed. -/
structure Unsigned (x : Float) : Prop where
  number : x.isNaN = false
  unsigned : sign x = .positive

variable {x y z : Float}

theorem Unsigned.rank_eq (h : Unsigned x) : rank x = x.toBits.toNat :=
  rank_of_positive h.unsigned

theorem Unsigned.toNonneg (h : Unsigned x) : Nonneg x :=
  ⟨h.number, by rw [h.rank_eq]; exact Int.natCast_nonneg _⟩

theorem unsigned_of_word {w : Nat} (h : x.toBits.toNat = w) (hw : w ≤ 2047 * 2 ^ 52) : Unsigned x := by
  refine ⟨(rank_of_word (w := w) (by exact_mod_cast h) (by exact_mod_cast hw)).1, ?_⟩
  exact (parts_of_toNat (f := w / 2 ^ 52) (r := w % 2 ^ 52) (by omega) (Nat.mod_lt _ (by decide)) (by omega)).1

theorem Nonneg.le_top (h : Nonneg x) : rank x ≤ 2047 * 2 ^ 52 :=
  rank_le_infinity h.number

theorem Nonneg.rank_eq (h : Nonneg x) : rank x = (exponent x + 1074) * 2 ^ 52 + mantissa x := by
  have hr := Binary64.rank_eq x
  have hn := h.nonneg
  have hparts : (field x * 2 ^ 52 + fraction x : Nat) = (exponent x + 1074) * 2 ^ 52 + mantissa x := by
    unfold mantissa exponent
    split <;> omega
  cases hs : sign x with
  | positive => rw [hr, hs, Sign.apply, hparts]
  | negative =>
    rw [hs, Sign.apply, hparts] at hr
    omega

theorem mantissa_lt (x : Float) : mantissa x < 2 ^ 53 := by
  have := fraction_lt x
  unfold mantissa
  split <;> omega

theorem exponent_ge (x : Float) : -1074 ≤ exponent x := by
  unfold exponent
  omega

theorem mantissa_normal (x : Float) : 2 ^ 52 ≤ mantissa x ∨ exponent x = -1074 := by
  unfold mantissa exponent
  split <;> omega

theorem Nonneg.nearestRank_units (h : Nonneg x) : (nearestRank (units x) : Int) = rank x := by
  rw [units, nearestRank_canonical (mantissa_lt x) (exponent_ge x) (mantissa_normal x), h.rank_eq]

theorem Nonneg.units_le (hx : Nonneg x) (hy : Nonneg y) (h : rank x ≤ rank y) : units x ≤ units y := by
  rcases Int.lt_or_eq_of_le h with hlt | heq
  · by_contra hgt
    have hmono := nearestRank_mono (Nat.le_of_not_le hgt)
    have hrx := hx.nearestRank_units
    have hry := hy.nearestRank_units
    omega
  · have hex := hx.rank_eq
    have hey := hy.rank_eq
    have hmx := mantissa_lt x
    have hmy := mantissa_lt y
    have hcx := mantissa_normal x
    have hcy := mantissa_normal y
    have hlx := exponent_ge x
    have hly := exponent_ge y
    have he : exponent x = exponent y := by omega
    have hm : mantissa x = mantissa y := by omega
    rw [units, units, he, hm]

theorem units_zero_of_rank (hx : Nonneg x) (h : rank x = 0) : units x = 0 := by
  have he := hx.rank_eq
  have hl := exponent_ge x
  have hm : mantissa x = 0 := by omega
  rw [units, hm, Nat.zero_mul]

theorem unsigned_zero : Unsigned (0 : Float) :=
  unsigned_of_word (w := 0) rfl (by decide)

theorem units_zero : units (0 : Float) = 0 :=
  units_zero_of_rank unsigned_zero.toNonneg rfl

/-- The mantissas of finite doubles over the smaller exponent are summed. -/
theorem add_finite (hx : sign x = .positive) (hy : sign y = .positive) (hfx : field x ≠ 2047) (hfy : field y ≠ 2047)
    (hmx : 0 < mantissa x) (hmy : 0 < mantissa y) :
    (x + y).toBits.toNat = min (nearestRank (units x + units y)) (2047 * 2 ^ 52) := by
  have hlx := exponent_ge x
  have hly := exponent_ge y
  have hsum : mantissa x * 2 ^ (exponent x - min (exponent x) (exponent y)).toNat *
        2 ^ (min (exponent x) (exponent y) + 1074).toNat = units x ∧
      mantissa y * 2 ^ (exponent y - min (exponent x) (exponent y)).toNat *
        2 ^ (min (exponent x) (exponent y) + 1074).toNat = units y := by
    constructor <;> rw [units, Nat.mul_assoc, ← Nat.pow_add] <;> congr 2 <;> omega
  have hadd : x + y = Float.ofModel (.pack (.normalize .binary64
      ((mantissa x * 2 ^ (exponent x - min (exponent x) (exponent y)).toNat +
        mantissa y * 2 ^ (exponent y - min (exponent x) (exponent y)).toNat : Nat) : Int)
      (min (exponent x) (exponent y)) .positive)) := by
    rw [add_eq_pack, unpack_finite hfx hmx, unpack_finite hfy hmy, hx, hy, UnpackedFloat.add]
    simp only [decreaseExponent, Sign.apply, Nat.shiftLeft_eq, Int.natCast_add]
  rw [hadd, toNat_pack_normalize _ (by omega), Nat.add_mul, hsum.1, hsum.2]

theorem toNat_pack_positive_infinity :
    (Float.ofModel (.pack (.infinity .positive))).toBits.toNat = 2047 * 2 ^ 52 := by
  have hb : signBit .positive = 0 := rfl
  rw [toNat_pack_infinity, hb, Nat.zero_mul, Nat.zero_add]

theorem sign_of_infinity (hy : Nonneg y) (hr : rank y = (sign y).apply (2047 * 2 ^ 52)) : sign y = .positive := by
  have hnonneg := hy.nonneg
  cases hs : sign y with
  | positive => rfl
  | negative =>
    rw [hr, hs, Sign.apply] at hnonneg
    omega

theorem toNat_toBits_add_infinity (hx : Unsigned x) (hv : y.toModel.unpack = .infinity .positive) :
    (x + y).toBits.toNat = 2047 * 2 ^ 52 := by
  have hadd : UnpackedFloat.add .binary64 x.toModel.unpack (.infinity .positive) = .infinity .positive := by
    cases shape hx.number with
    | infinity hu _ => rw [hu, hx.unsigned]; rfl
    | zero hu _ => rw [hu]; rfl
    | finite _ hu _ _ => rw [hu]; rfl
  rw [add_eq_pack, hv, hadd, toNat_pack_positive_infinity]

theorem add_eq_left (hx : Unsigned x) (hv : y.toModel.unpack = .zero (sign y)) : x + y = x := by
  have hadd : UnpackedFloat.add .binary64 x.toModel.unpack (.zero (sign y)) = x.toModel.unpack := by
    cases shape hx.number with
    | infinity hu _ => rw [hu]; rfl
    | zero hu _ =>
      rw [hu, hx.unsigned]
      cases sign y <;> rfl
    | finite _ hu _ _ => rw [hu]; rfl
  rw [add_eq_pack, hv, hadd, ofModel_pack_unpack]

theorem toNat_toBits_add_finite (hx : Unsigned x) (hs : sign y = .positive) (hf : field y ≠ 2047) (hm : 0 < mantissa y) :
    (x + y).toBits.toNat = min (nearestRank (units x + units y)) (2047 * 2 ^ 52) := by
  have hv := unpack_finite hf hm
  have hy : Nonneg y := ⟨isNaN_of_field hf, by rw [rank_of_positive hs]; exact Int.natCast_nonneg _⟩
  have hny := hy.nearestRank_units
  have hty := hy.le_top
  cases shape hx.number with
  | infinity hu hr =>
    rw [hx.unsigned, Sign.apply] at hr
    have hadd : UnpackedFloat.add .binary64 (.infinity .positive) y.toModel.unpack = .infinity .positive := by
      rw [hv]
      rfl
    have hlx := nearestRank_mono (Nat.le_add_right (units x) (units y))
    have hnx := hx.toNonneg.nearestRank_units
    rw [add_eq_pack, hu, hx.unsigned, hadd, toNat_pack_positive_infinity, Nat.min_eq_right (by omega)]
  | zero hu hr =>
    have hzero := units_zero_of_rank hx.toNonneg hr
    have hadd : UnpackedFloat.add .binary64 (.zero (sign x)) y.toModel.unpack = y.toModel.unpack := by
      rw [hv]
      rfl
    have hwy := rank_of_positive hs
    rw [add_eq_pack, hu, hadd, ofModel_pack_unpack, hzero, Nat.zero_add, Nat.min_eq_left (by omega)]
    omega
  | finite hm' hu hr hf' => exact add_finite hx.unsigned hs hf' hf hm' hm

/-- The sum is the double nearest to the sum of the units, infinity past the largest finite double. -/
theorem toNat_toBits_add (hx : Unsigned x) (hy : Nonneg y) :
    (x + y).toBits.toNat = min (nearestRank (units x + units y)) (2047 * 2 ^ 52) := by
  have hnx := hx.toNonneg.nearestRank_units
  have hny := hy.nearestRank_units
  have htx := hx.toNonneg.le_top
  have hwx := hx.rank_eq
  cases shape hy.number with
  | infinity hv hr =>
    have hs := sign_of_infinity hy hr
    have hly := nearestRank_mono (Nat.le_add_left (units y) (units x))
    rw [hs] at hv
    rw [hs, Sign.apply] at hr
    rw [toNat_toBits_add_infinity hx hv, Nat.min_eq_right (by omega)]
  | zero hv hr =>
    rw [add_eq_left hx hv, units_zero_of_rank hy hr, Nat.add_zero, Nat.min_eq_left (by omega)]
    omega
  | finite hm hv hr hf =>
    have hs : sign y = .positive := sign_of_rank_pos (by have := hy.rank_eq; have := exponent_ge y; omega)
    exact toNat_toBits_add_finite hx hs hf hm

theorem Unsigned.add (hx : Unsigned x) (hy : Nonneg y) : Unsigned (x + y) :=
  unsigned_of_word (toNat_toBits_add hx hy) (Nat.min_le_right _ _)

theorem rank_add (hx : Unsigned x) (hy : Nonneg y) :
    rank (x + y) = (min (nearestRank (units x + units y)) (2047 * 2 ^ 52) : Nat) := by
  rw [(hx.add hy).rank_eq, toNat_toBits_add hx hy]

theorem rank_add_mono {x' y' : Float} (hx : Unsigned x) (hy : Nonneg y) (hx' : Unsigned x') (hy' : Nonneg y')
    (hxx : rank x ≤ rank x') (hyy : rank y ≤ rank y') : rank (x + y) ≤ rank (x' + y') := by
  have hunits := Nat.add_le_add (hx.toNonneg.units_le hx'.toNonneg hxx) (hy.units_le hy' hyy)
  rw [rank_add hx hy, rank_add hx' hy']
  exact Int.ofNat_le.mpr (min_le_min_right _ (nearestRank_mono hunits))

theorem rank_le_add (hx : Unsigned x) (hy : Nonneg y) : rank x ≤ rank (x + y) := by
  have hmono := nearestRank_mono (Nat.le_add_right (units x) (units y))
  have hnx := hx.toNonneg.nearestRank_units
  have htop := hx.toNonneg.le_top
  rw [rank_add hx hy, Nat.cast_min]
  exact le_min (by omega) htop

@[irreducible] def unitsOfOne : Nat := 2 ^ 1074

theorem unitsOfOne_eq {e : Nat} (h : e = 1074) : 2 ^ e = unitsOfOne := by
  rw [h]
  unfold unitsOfOne
  rfl

theorem unitsOfOne_pos : 0 < unitsOfOne := by
  obtain ⟨e,he⟩ : ∃ e, e = 1074 := ⟨_, rfl⟩
  rw [← unitsOfOne_eq he]
  exact Nat.two_pow_pos e

theorem two_pow_eq {k d : Nat} (h : k = 1074 + d) : 2 ^ k = unitsOfOne * 2 ^ d := by
  obtain ⟨e,he⟩ : ∃ e, e = 1074 := ⟨_, rfl⟩
  rw [h, ← he, Nat.pow_add, unitsOfOne_eq he]

theorem two_pow_le_unitsOfOne {k : Nat} (h : k ≤ 1074) : 2 ^ k ≤ unitsOfOne := by
  obtain ⟨e,he⟩ : ∃ e, e = 1074 := ⟨_, rfl⟩
  rw [← unitsOfOne_eq he]
  exact Nat.pow_le_pow_right (by decide) (by omega)

theorem toNat_toBits_toFloat (n : UInt64) :
    n.toFloat.toBits.toNat = min (nearestRank (n.toNat * unitsOfOne)) (2047 * 2 ^ 52) := by
  have hword : n.toFloat = Float.ofModel (.pack (.normalize .binary64 (n.toNat : Int) 0 .positive)) := rfl
  rw [hword, toNat_pack_normalize n.toNat (by decide), unitsOfOne_eq (by decide)]

theorem unsigned_toFloat (n : UInt64) : Unsigned n.toFloat :=
  unsigned_of_word (toNat_toBits_toFloat n) (Nat.min_le_right _ _)

theorem rank_toFloat_mono {n m : UInt64} (h : n.toNat ≤ m.toNat) : rank n.toFloat ≤ rank m.toFloat := by
  rw [(unsigned_toFloat n).rank_eq, (unsigned_toFloat m).rank_eq, toNat_toBits_toFloat, toNat_toBits_toFloat]
  exact Int.ofNat_le.mpr (min_le_min_right _ (nearestRank_mono (Nat.mul_le_mul_right unitsOfOne h)))

end Metering.Binary64
