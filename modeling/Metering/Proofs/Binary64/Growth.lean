import Metering.Proofs.Binary64.Monotone

/-! # Growing products

Multiplying by one changes nothing, hence a positive double that is multiplied by more than one gets no
smaller, up to infinity. What is multiplied by NaN is NaN.
-/
namespace Metering.Binary64
open Float.Model Float.Model.UnpackedFloat

variable {x y : Float}

theorem isNaN_mul_right (x : Float) (h : y.isNaN = true) : (x * y).isNaN = true := by
  have hu : UnpackedFloat.mul .binary64 x.toModel.unpack .notANumber = .notANumber := by
    cases x.toModel.unpack <;> rfl
  rw [mul_eq_pack, unpack_of_isNaN h, hu]
  rfl

theorem magnitude_one : Magnitude 1 :=
  (magnitude_of_word (w := 0x3ff0000000000000) rfl (by decide)).1

theorem unpack_of_pos (hx : Unsigned x) (px : 0 < rank x) :
    x.toModel.unpack = .infinity .positive ∨ ∃ m e hm, x.toModel.unpack = .finite .positive m e hm := by
  cases shape hx.number with
  | infinity hu _ => exact .inl (hx.unsigned ▸ hu)
  | zero _ hr => exact absurd hr px.ne'
  | finite hm hu _ _ => exact .inr ⟨_, _, hm, hx.unsigned ▸ hu⟩

theorem mul_infinity (hx : Unsigned x) (hy : Unsigned y) (px : 0 < rank x) (py : 0 < rank y)
    (h : x.toModel.unpack = .infinity .positive ∨ y.toModel.unpack = .infinity .positive) : x * y = infinity := by
  rw [mul_eq_pack]
  rcases h with h | h <;> rw [h]
  · rcases unpack_of_pos hy py with hv | ⟨m,e,hm,hv⟩ <;> rw [hv] <;> rfl
  · rcases unpack_of_pos hx px with hu | ⟨m,e,hm,hu⟩ <;> rw [hu] <;> rfl

theorem unsigned_infinity : Unsigned infinity :=
  unsigned_of_word (w := 2047 * 2 ^ 52) rfl (Nat.le_refl _)

theorem infinity_or_magnitude (hx : Unsigned x) : x.toModel.unpack = .infinity .positive ∨ Magnitude x := by
  by_cases hf : field x = 2047
  · refine .inl ?_
    have htop : rank x = 2047 * 2 ^ 52 := by
      have hw := toNat_toBits_of_positive hx.unsigned
      have hle := hx.toNonneg.le_top
      have hr := hx.rank_eq
      omega
    rw [eq_infinity_of_rank htop, unpack_infinity]
  · exact .inr ⟨hx, hf⟩

/-- A positive double times a factor that is not below one. -/
theorem rank_le_mul (hx : Unsigned x) (hy : Unsigned y) (px : 0 < rank x) (hone : rank 1 ≤ rank y) :
    Unsigned (x * y) ∧ rank x ≤ rank (x * y) := by
  have py : 0 < rank y := lt_of_lt_of_le (by decide) hone
  have htop (h : x.toModel.unpack = .infinity .positive ∨ y.toModel.unpack = .infinity .positive) :
      Unsigned (x * y) ∧ rank x ≤ rank (x * y) := by
    rw [mul_infinity hx hy px py h]
    exact ⟨unsigned_infinity, hx.toNonneg.le_top⟩
  rcases infinity_or_magnitude hx with h | mx
  · exact htop (.inl h)
  · rcases infinity_or_magnitude hy with h | my
    · exact htop (.inr h)
    · have hle := rank_mul_mono mx magnitude_one mx my (le_refl _) hone
      rw [mul_one_of_number hx.number] at hle
      exact ⟨unsigned_mul mx my, hle⟩

end Metering.Binary64
