import Metering.Proofs.Binary64.Product

/-! # Splitting and scaling

A positive double splits into a fraction in `[0.5, 1)` and an exponent; scaling by an exponent adds
to the exponent bits. On normal doubles one undoes the other.
-/
namespace Metering.Binary64
open Float.Model Float.Model.UnpackedFloat

theorem tdiv_two_bounds (e : Int) : -1 ≤ 2 * e.tdiv 2 - e ∧ 2 * e.tdiv 2 - e ≤ 1 := by
  have h := Int.mul_tdiv_add_tmod e 2
  have h1 := Int.tmod_two_eq e
  omega

/-- Scaling a fraction adds to its exponent bits, or overflows. -/
theorem toNat_toBits_scale {f : Float} {e : Int} (hs : sign f = .positive) (h1 : 1022 ≤ field f)
    (h2 : field f ≤ 1023) (hlow : 1 ≤ field f + e) (hhigh : e ≤ 1040) :
    ((scale f e).toBits.toNat : Int) =
      if field f + e < 2047 then f.toBits.toNat + e * 2 ^ 52 else 2047 * 2 ^ 52 := by
  have ht := tdiv_two_bounds e
  have hr := fraction_lt f
  have hw := toNat_toBits_of_positive hs
  have hm := toNat_toBits_mul_twoPow (n := e.tdiv 2) hs (by omega) (by omega) (by omega) (by omega)
    (by omega)
  rw [if_pos (by omega)] at hm
  obtain ⟨hs',hf',_⟩ := parts_of_toNat (x := f * twoPow (e.tdiv 2))
    (f := (field f + e.tdiv 2).toNat) (r := fraction f) (by omega) hr (by omega)
  have hk := toNat_toBits_mul_twoPow (n := e - e.tdiv 2) hs' (by omega) (by omega) (by omega)
    (by omega) (by omega)
  rw [scale, power_two (by omega) (by omega), power_two (by omega) (by omega), hk, hm]
  split <;> split <;> omega

theorem and_maskedWord {w : Nat} (h : w < 2 ^ 64) :
    w &&& 0x800fffffffffffff = w / 2 ^ 63 * 2 ^ 63 + w % 2 ^ 52 := by
  have htop : 0x800fffffffffffff / 2 ^ 63 = 2 ^ 1 - 1 := rfl
  have hmask : 0x800fffffffffffff % 2 ^ 63 = 2 ^ 52 - 1 := rfl
  have hd := Nat.div_add_mod (w &&& 0x800fffffffffffff) (2 ^ 63)
  rw [Nat.and_div_two_pow, Nat.and_mod_two_pow, htop, hmask, Nat.and_two_pow_sub_one_eq_mod,
    Nat.and_two_pow_sub_one_eq_mod] at hd
  omega

theorem or_exponentWord {s r : Nat} (hr : r < 2 ^ 52) :
    (s * 2 ^ 63 + r) ||| 0x3fe0000000000000 = s * 2 ^ 63 + (1022 * 2 ^ 52 + r) := by
  have hshift : 0x3fe0000000000000 = 1022 <<< 52 := rfl
  have htop : (s * 2 ^ 63 + r) / 2 ^ 63 = s := by omega
  have hlow : (s * 2 ^ 63 + r) % 2 ^ 63 = r := by omega
  have hd := Nat.div_add_mod ((s * 2 ^ 63 + r) ||| 0x3fe0000000000000) (2 ^ 63)
  rw [Nat.or_div_two_pow, Nat.or_mod_two_pow, htop, hlow] at hd
  change 2 ^ 63 * (s ||| 0) + (r ||| 1022 <<< 52) = _ at hd
  rw [Nat.or_zero, Nat.or_comm r, ← Nat.shiftLeft_add_eq_or_of_lt hr, Nat.shiftLeft_eq] at hd
  omega

theorem toNat_toBits_splitNormal (x : Float) :
    (splitNormal x).1.toBits.toNat = signBit (sign x) * 2 ^ 63 + (1022 * 2 ^ 52 + fraction x) := by
  have hr := fraction_lt x
  have hb := signBit_lt (sign x)
  have hw := signBit_sign x
  have htop : x.toBits.toNat / 2 ^ 63 = signBit (sign x) := by omega
  have hn : ((x.toBits &&& 0x800fffffffffffff) ||| 0x3fe0000000000000).toNat =
      signBit (sign x) * 2 ^ 63 + (1022 * 2 ^ 52 + fraction x) := by
    rw [UInt64.toNat_or, UInt64.toNat_and]
    change (x.toBits.toNat &&& 0x800fffffffffffff) ||| 0x3fe0000000000000 = _
    rw [and_maskedWord x.toBits.toNat_lt, htop]
    exact or_exponentWord hr
  rw [splitNormal, toBits_ofBits (by omega), hn]

theorem parts_splitNormal (x : Float) :
    sign (splitNormal x).1 = sign x ∧ field (splitNormal x).1 = 1022 ∧
      fraction (splitNormal x).1 = fraction x := by
  have hr := fraction_lt x
  obtain ⟨hs,hmod⟩ := sign_eq_of_toNat (by omega) (toNat_toBits_splitNormal x)
  have hf := fraction_lt (splitNormal x).1
  rw [toNat_toBits_mod] at hmod
  exact ⟨hs, by omega, by omega⟩

/-- A positive subnormal double is lifted into the normal range without rounding: its highest bit
becomes the implicit one. -/
theorem toNat_toBits_lifted {x : Float} (hs : sign x = .positive) (hf : field x = 0)
    (hr : fraction x ≠ 0) :
    ∃ l ≤ 51, 2 ^ 52 ≤ fraction x * 2 ^ (52 - l) ∧ fraction x * 2 ^ (52 - l) < 2 ^ 53 ∧
      (x * power 2 64).toBits.toNat = (l + 12) * 2 ^ 52 + fraction x * 2 ^ (52 - l) := by
  obtain ⟨ts,tf,tm,te⟩ := parts_twoPow (n := 64) (by decide) (by decide)
  have hlt := fraction_lt x
  have hm : mantissa x = fraction x := by rw [mantissa, if_pos hf]
  have he : exponent x = -1074 := by rw [exponent, hf]; rfl
  have hl : (fraction x).log2 ≤ 51 := by
    have := (Nat.log2_lt hr).mpr hlt
    omega
  have hlow : 2 ^ (fraction x).log2 ≤ fraction x := Nat.log2_self_le hr
  have hhigh : fraction x < 2 ^ ((fraction x).log2 + 1) := Nat.lt_log2_self
  -- Shifted by `52 - l`, the highest bit of the fraction becomes the implicit one.
  generalize (fraction x).log2 = l at *
  have hpow : (2 : Nat) ^ l * 2 ^ (52 - l) = 2 ^ 52 := by
    rw [← Nat.pow_add]
    congr 1
    omega
  have h1 : 2 ^ 52 ≤ fraction x * 2 ^ (52 - l) := by
    rw [← hpow]
    exact Nat.mul_le_mul_right _ hlow
  have h2 : fraction x * 2 ^ (52 - l) < 2 ^ 53 := by
    have h53 : (2 : Nat) ^ 53 = 2 ^ (l + 1) * 2 ^ (52 - l) := by
      rw [← Nat.pow_add]
      congr 1
      omega
    rw [h53]
    exact Nat.mul_lt_mul_of_pos_right hhigh (Nat.two_pow_pos _)
  have hprod : mantissa x * mantissa (twoPow 64) = fraction x * 2 ^ (52 - l) * 2 ^ l := by
    rw [hm, tm, Nat.mul_assoc, Nat.mul_comm (2 ^ (52 - l)), hpow]
  have hsum : exponent x + exponent (twoPow 64) + l = l - 1062 := by omega
  have hc : Canonical (fraction x * 2 ^ (52 - l)) (exponent x + exponent (twoPow 64) + l) :=
    ⟨by omega, h2, by omega, .inl h1⟩
  have hk := toNat_pack_positive hc.1 hc (by omega)
  rw [← mul_positive hs ts (by omega) (by omega) hprod hc] at hk
  rw [power_two (by decide) (by decide)]
  exact ⟨l, hl, h1, h2, by omega⟩

theorem parts_lifted {x : Float} (hs : sign x = .positive) (hf : field x = 0) (hr : fraction x ≠ 0) :
    sign (x * power 2 64) = .positive ∧ 13 ≤ field (x * power 2 64) ∧ field (x * power 2 64) ≤ 64 := by
  obtain ⟨l,hl,h1,h2,hw⟩ := toNat_toBits_lifted hs hf hr
  generalize fraction x * 2 ^ (52 - l) = m at *
  obtain ⟨ps,pf,_⟩ := parts_of_toNat (x := x * power 2 64) (f := l + 13) (r := m - 2 ^ 52)
    (by omega) (by omega) (by rw [hw]; omega)
  exact ⟨ps, by omega, by omega⟩

theorem sign_of_rank_pos {x : Float} (h : 0 < rank x) : sign x = .positive := by
  have hr : rank x = (sign x).apply (x.toBits.toNat % 2 ^ 63 : Nat) := rfl
  cases hs : sign x with
  | negative =>
    rw [hs, Sign.apply] at hr
    omega
  | positive => rfl

theorem rank_of_positive {x : Float} (h : sign x = .positive) : rank x = x.toBits.toNat := by
  rw [rank_eq, h, Sign.apply, toNat_toBits_of_positive h]

theorem rank_of_word {x : Float} {w : Int} (h : x.toBits.toNat = w) (hw : w ≤ 2047 * 2 ^ 52) :
    x.isNaN = false ∧ rank x = w := by
  obtain ⟨hs,hf,hr⟩ := parts_of_toNat (x := x) (f := x.toBits.toNat / 2 ^ 52)
    (r := x.toBits.toNat % 2 ^ 52) (by omega) (Nat.mod_lt _ (by decide)) (by omega)
  refine ⟨?_, ?_⟩
  · rw [← Bool.not_eq_true, isNaN_iff]
    omega
  · rw [rank_of_positive hs, h]

theorem rank_scale {f : Float} {e : Int} (hs : sign f = .positive) (h1 : 1022 ≤ field f)
    (h2 : field f ≤ 1023) (hlow : 1 ≤ field f + e) (hhigh : e ≤ 1040) :
    (scale f e).isNaN = false ∧
      rank (scale f e) = if field f + e < 2047 then rank f + e * 2 ^ 52 else 2047 * 2 ^ 52 := by
  have hr := fraction_lt f
  have hf := toNat_toBits_of_positive hs
  rw [rank_of_positive hs]
  apply rank_of_word (toNat_toBits_scale hs h1 h2 hlow hhigh)
  split <;> omega

theorem isNaN_of_field {x : Float} (h : field x ≠ 2047) : x.isNaN = false := by
  rw [← Bool.not_eq_true, isNaN_iff]
  exact fun hn => h hn.1

theorem rank_zero : rank 0 = 0 := rfl

theorem isNaN_zero : (0 : Float).isNaN = false := rfl

theorem rank_eq_zero_iff {x : Float} : rank x = 0 ↔ field x = 0 ∧ fraction x = 0 := by
  have hr := fraction_lt x
  rw [rank_eq]
  cases sign x <;> simp only [Sign.apply] <;> omega

theorem guard_eq_false_iff {x : Float} (h : x.isNaN = false) :
    (x == 0 || !isFinite x) = false ↔ rank x ≠ 0 ∧ field x ≠ 2047 := by
  rw [Bool.or_eq_false_iff, ← Bool.not_eq_true, beq_iff_rank h isNaN_zero, rank_zero, Bool.not_eq_false', isFinite,
    bne_iff_ne]

theorem guard_of_normal {x : Float} (h0 : field x ≠ 0) (hf : field x ≠ 2047) : (x == 0 || !isFinite x) = false := by
  rw [guard_eq_false_iff (isNaN_of_field hf), Ne, rank_eq_zero_iff]
  exact ⟨fun hz => h0 hz.1, hf⟩

theorem guard_of_subnormal {x : Float} (h0 : field x = 0) (hr : fraction x ≠ 0) : (x == 0 || !isFinite x) = false := by
  rw [guard_eq_false_iff (isNaN_of_field (by omega)), Ne, rank_eq_zero_iff]
  exact ⟨fun hz => hr hz.2, by omega⟩

theorem split_of_normal {x : Float} (h0 : field x ≠ 0) (hf : field x ≠ 2047) : split x = splitNormal x := by
  rw [split, guard_of_normal h0 hf, if_neg Bool.false_ne_true, if_neg h0]

theorem split_of_subnormal {x : Float} (h0 : field x = 0) (hr : fraction x ≠ 0) :
    split x = ((splitNormal (x * power 2 64)).1, (splitNormal (x * power 2 64)).2 - 64) := by
  rw [split, guard_of_subnormal h0 hr, if_neg Bool.false_ne_true, if_pos h0]

theorem parts_split {x : Float} (hp : 0 < rank x) (hf : field x ≠ 2047) :
    sign (split x).1 = .positive ∧ field (split x).1 = 1022 ∧ -1073 ≤ (split x).2 ∧
      (split x).2 ≤ 1024 := by
  have hs := sign_of_rank_pos hp
  have hlt := field_lt x
  by_cases h0 : field x = 0
  · have hr : fraction x ≠ 0 := fun hz => hp.ne' (rank_eq_zero_iff.mpr ⟨h0, hz⟩)
    obtain ⟨ls,l1,l2⟩ := parts_lifted hs h0 hr
    obtain ⟨ps,pf,_⟩ := parts_splitNormal (x * power 2 64)
    rw [split_of_subnormal h0 hr]
    refine ⟨ps.trans ls, pf, ?_, ?_⟩ <;> rw [splitNormal] <;> dsimp only <;> omega
  · obtain ⟨ps,pf,_⟩ := parts_splitNormal x
    rw [split_of_normal h0 hf]
    refine ⟨ps.trans hs, pf, ?_, ?_⟩ <;> rw [splitNormal] <;> dsimp only <;> omega

/-- Fraction and exponent of a normal double make up its rank. -/
theorem rank_split {x : Float} (hp : 0 < rank x) (hf : field x ≠ 2047) (h0 : field x ≠ 0) :
    rank (split x).1 + (split x).2 * 2 ^ 52 = rank x := by
  have hs := sign_of_rank_pos hp
  have hx := rank_of_positive hs
  have hm := toNat_toBits_of_positive hs
  obtain ⟨ps,pf,pr⟩ := parts_splitNormal x
  have hw := toNat_toBits_of_positive (ps.trans hs)
  have he : (splitNormal x).2 = field x - 1022 := rfl
  rw [split_of_normal h0 hf, rank_of_positive (ps.trans hs), he]
  omega

theorem rank_largest : rank largest = 2047 * 2 ^ 52 - 1 := rfl

theorem field_largest : field largest = 2046 := rfl

theorem rank_infinity : rank infinity = 2047 * 2 ^ 52 := rfl

theorem isNaN_infinity : infinity.isNaN = false := rfl

theorem rank_lt_top_iff {v : Float} (hp : 0 < rank v) :
    field v ≠ 2047 ↔ rank v < 2047 * 2 ^ 52 := by
  have hk := rank_eq v
  have hr := fraction_lt v
  have hlt := field_lt v
  rw [sign_of_rank_pos hp, Sign.apply] at hk
  omega

theorem rank_le_top {v : Float} (hn : v.isNaN = false) (hp : 0 < rank v) :
    rank v ≤ 2047 * 2 ^ 52 := by
  have hk := rank_eq v
  have hr := fraction_lt v
  have hlt := field_lt v
  have hnan := isNaN_iff v
  rw [sign_of_rank_pos hp, Sign.apply] at hk
  rw [hn] at hnan
  simp only [Bool.false_eq_true, false_iff, not_and, not_not] at hnan
  omega

theorem rank_le_infinity {x : Float} (h : x.isNaN = false) : rank x ≤ 2047 * 2 ^ 52 := by
  rcases Int.lt_or_le 0 (rank x) with hp | hp
  · exact rank_le_top h hp
  · omega

theorem eq_infinity_of_rank {x : Float} (h : rank x = 2047 * 2 ^ 52) : x = infinity := by
  have hx := rank_of_positive (sign_of_rank_pos (x := x) (by omega))
  have hi := rank_of_positive (sign_of_rank_pos (x := infinity) (by rw [rank_infinity]; decide))
  rw [rank_infinity] at hi
  apply eq_of_toNat_toBits
  omega

end Metering.Binary64
