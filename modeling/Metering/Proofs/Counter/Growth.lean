import Metering.Proofs.Counter.Calls

/-! # Counters never go down

Each call keeps or raises both cells in rank, whichever of them takes the amount, and a sum of doubles
keeps order in both of its operands. What is reported is therefore never less than before, infinity included.
-/
namespace Metering.Counter
open Binary64

variable {σ : Type} {c : Counter σ}

theorem unsigned_get (h : Unsigned c.rest) : Unsigned c.get :=
  h.add (unsigned_toFloat c.whole).toNonneg

variable [Sampler σ]

theorem grown_call (h : Unsigned c.rest) (a : Act) :
    Unsigned (c.call a).1.rest ∧ rank c.get ≤ rank (c.call a).1.get := by
  have hword := (unsigned_toFloat c.whole).toNonneg
  have hstep := booked c a
  generalize c.call a = r at hstep
  cases hstep with
  | refused _ => exact ⟨h, le_rfl⟩
  | @whole w haccepted _ hw =>
    have hle : c.whole.toNat ≤ w.toNat := by
      have hpos : 0 ≤ value a.amount := by
        rw [(Act.refusal?_eq_none_iff.mp haccepted).value_eq]
        positivity
      have hcast : (c.whole.toNat : ℚ) ≤ w.toNat := by linarith
      exact_mod_cast hcast
    exact ⟨h, rank_add_mono h hword h (unsigned_toFloat w).toNonneg le_rfl (rank_toFloat_mono hle)⟩
  | rest haccepted _ =>
    have ha := Act.refusal?_eq_none_iff.mp haccepted
    exact ⟨h.add ha, rank_add_mono h hword (h.add ha) hword (rank_le_add h ha) le_rfl⟩

theorem grown_run (h : Unsigned c.rest) (acts : List Act) :
    Unsigned (reached call acts c).rest ∧ rank c.get ≤ rank (reached call acts c).get := by
  induction acts generalizing c with
  | nil => exact ⟨h, le_rfl⟩
  | cons a rest ih =>
    obtain ⟨hcall,hle⟩ := grown_call h a
    obtain ⟨hrun,hle'⟩ := ih hcall
    exact ⟨hrun, hle.trans hle'⟩

/-- After any calls a counter reports a number that is not negative, and after any more calls no less. -/
theorem never_down (created : Time) (sampler : Option σ) (acts more : List Act) :
    let c := reached call acts { created, sampler }
    let d := reached call (acts ++ more) { created, sampler }
    c.get.isNaN = false ∧ 0 ≤ c.get ∧ c.get ≤ d.get := by
  intro c d
  have hrest : Unsigned c.rest := (grown_run (c := { created, sampler }) unsigned_zero acts).1
  have hget := unsigned_get hrest
  obtain ⟨hmore,hle⟩ := grown_run hrest more
  have hd : d = reached call more c := reached_append call acts more _
  rw [← hd] at hmore hle
  refine ⟨hget.number, ?_, (le_iff_rank hget.number (unsigned_get hmore).number).mpr hle⟩
  rw [le_iff_rank isNaN_zero hget.number, rank_zero]
  exact hget.toNonneg.nonneg

end Metering.Counter
