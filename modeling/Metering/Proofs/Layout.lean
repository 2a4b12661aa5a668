import Metering.Layout
import Metering.Proofs.Binary64.Growth
import Metering.Proofs.Histogram.Acceptance

/-! # Exponential layouts

From a positive start and by a factor above one the bounds never fall, up to infinity, so that a histogram
accepts them. The checks let NaN pass, both as a start and as a factor; just then NaN is among the bounds.
-/
namespace Metering.Layout
open Binary64

variable {start factor : Float} {count : Nat} {bounds : List Float}

theorem exponential_eq_ok_iff : exponential start factor count = .ok bounds ↔
    (1 ≤ count ∧ ¬ start ≤ 0 ∧ ¬ factor ≤ 1) ∧ powers factor start count = bounds := by
  unfold exponential
  split
  next h => simp; omega
  next h =>
    split
    next h => simp [h]
    next hs =>
      split
      next h => simp [h]
      next hf => simp [hs, hf]; omega

theorem length_powers (factor start : Float) (n : Nat) : (powers factor start n).length = n := by
  induction n generalizing start with
  | zero => rfl
  | succ n ih => rw [powers, List.length_cons, ih]

/-- Neither NaN nor zero nor signed. -/
structure Positive (x : Float) : Prop extends Unsigned x where
  pos : 0 < rank x

theorem positive_of_not_le {x : Float} (hx : x.isNaN = false) (h : ¬ x ≤ 0) : Positive x := by
  rw [le_iff_rank hx isNaN_zero, rank_zero, not_le] at h
  exact ⟨⟨hx, sign_of_rank_pos h⟩, h⟩

theorem powers_ascending (hs : Positive start) (hf : Unsigned factor) (hone : rank 1 ≤ rank factor) (n : Nat) :
    (∀ b ∈ powers factor start n, b.isNaN = false ∧ rank start ≤ rank b) ∧
      (powers factor start n).Pairwise (· ≤ ·) := by
  induction n generalizing start with
  | zero => exact ⟨fun _ hb => absurd hb List.not_mem_nil, .nil⟩
  | succ n ih =>
    obtain ⟨hnext,hle⟩ := rank_le_mul hs.toUnsigned hf hs.pos hone
    have hpositive : Positive (start * factor) := ⟨hnext, hs.pos.trans_le hle⟩
    obtain ⟨hall,hrest⟩ := ih hpositive
    have habove : ∀ b ∈ powers factor (start * factor) n, b.isNaN = false ∧ rank start ≤ rank b :=
      fun b hb => (hall b hb).imp_right hle.trans
    rw [powers]
    refine ⟨List.forall_mem_cons.mpr ⟨⟨hs.number, le_refl _⟩, habove⟩, List.pairwise_cons.mpr ⟨?_, hrest⟩⟩
    intro b hb
    obtain ⟨hnumber,hrank⟩ := habove b hb
    exact (le_iff_rank hs.number hnumber).mpr hrank

/-- What makes a list of bounds usable: a histogram completes it to its own bounds, whatever the other options. -/
structure Usable (bounds : List Float) : Prop where
  ascending : bounds.Pairwise (· ≤ ·)
  number : ∀ b ∈ bounds, b.isNaN = false
  accepted : ∀ o : HistogramOptions, (∃ c, { o with buckets := none }.config = .ok c) →
    ∃ c, { o with buckets := some bounds }.config = .ok c ∧
      (o.nativeOnly = false → HistogramOptions.Completed bounds c.bounds.toList)

theorem accepted_of_number (hne : bounds ≠ []) (hb : ∀ b ∈ bounds, b.isNaN = false) (o : HistogramOptions)
    (ho : ∃ c, { o with buckets := none }.config = .ok c) :
    ∃ c, { o with buckets := some bounds }.config = .ok c ∧
      (o.nativeOnly = false → HistogramOptions.Completed bounds c.bounds.toList) := by
  have hsound := (HistogramOptions.config_ok_iff_sound _).mp ho
  have hgiven : { o with buckets := some bounds }.Sound :=
    ⟨hsound.kinds, .inr fun given hg => Option.some.inj hg ▸ hb, hsound.resolution, hsound.thresholds⟩
  obtain ⟨c,hc⟩ := (HistogramOptions.config_ok_iff_sound _).mpr hgiven
  refine ⟨c, hc, fun hnative => ?_⟩
  have hconfigured := HistogramOptions.configured_of_config hc
  refine hconfigured.bounds fun hempty => ?_
  rcases hconfigured.empty_iff.mp hempty with h | ⟨h,_⟩
  · rw [hnative] at h
    cases h
  · exact hne (Option.some.inj h)

/-- NaN as a start or as a factor that is multiplied by stands among the bounds. -/
theorem number_of_powers {n : Nat} (h : ∀ b ∈ powers factor start (n + 1), b.isNaN = false) :
    start.isNaN = false ∧ (factor.isNaN = false ∨ n = 0) := by
  refine ⟨h start List.mem_cons_self, ?_⟩
  cases n with
  | zero => exact .inr rfl
  | succ n =>
    have hnext := h (start * factor) (List.mem_cons_of_mem _ List.mem_cons_self)
    cases hf : factor.isNaN with
    | false => exact .inl rfl
    | true =>
      rw [isNaN_mul_right start hf] at hnext
      cases hnext

theorem usable_powers {n : Nat} (hs : Positive start) (hf : ¬ factor ≤ 1) (h : factor.isNaN = false ∨ n = 0) :
    Usable (powers factor start (n + 1)) := by
  have hne : powers factor start (n + 1) ≠ [] := List.cons_ne_nil _ _
  rcases h with hnumber | rfl
  · have hone : rank 1 < rank factor := by rwa [le_iff_rank hnumber rfl, not_le] at hf
    have hpos : 0 < rank factor := lt_trans (by decide) hone
    obtain ⟨hall,hascending⟩ := powers_ascending hs ⟨hnumber, sign_of_rank_pos hpos⟩ hone.le (n + 1)
    have hnumbers := fun b hb => (hall b hb).1
    exact ⟨hascending, hnumbers, accepted_of_number hne hnumbers⟩
  · have hnumbers : ∀ b ∈ [start], b.isNaN = false := fun b hb => List.mem_singleton.mp hb ▸ hs.number
    exact ⟨List.pairwise_singleton _ _, hnumbers, accepted_of_number hne hnumbers⟩

/-- What is laid out has the length and the start that were asked for, and is usable just when neither the
start is NaN nor a factor that is multiplied by. -/
theorem exponential_usable (h : exponential start factor count = .ok bounds) :
    bounds.length = count ∧ bounds.head? = some start ∧
      (Usable bounds ↔ start.isNaN = false ∧ (factor.isNaN = false ∨ count = 1)) := by
  obtain ⟨⟨hcount,hs,hf⟩,rfl⟩ := exponential_eq_ok_iff.mp h
  obtain ⟨n,rfl⟩ := Nat.exists_eq_add_of_le' hcount
  have hone : n + 1 = 1 ↔ n = 0 := by omega
  refine ⟨length_powers _ _ _, rfl, ?_⟩
  rw [hone]
  constructor
  · exact fun husable => number_of_powers husable.number
  · rintro ⟨hnumber,hfactor⟩
    exact usable_powers (positive_of_not_le hnumber hs) hf hfactor

/-- The least double three times by the largest one: the fourth bound is infinite. -/
def widest : List Float :=
  [Float.ofBits 0x0000000000000001, Float.ofBits 0x3ccfffffffffffff, Float.ofBits 0x7ccffffffffffffe, infinity]

theorem exponential_widest : exponential (Float.ofBits 1) largest 4 = .ok widest := rfl

theorem exponential_usable_widest :
    exponential (Float.ofBits 1) largest 4 = .ok widest ∧ widest.length = 4 ∧ widest.head? = some (Float.ofBits 1) ∧
      Usable widest := by
  obtain ⟨hlength,hhead,husable⟩ := exponential_usable exponential_widest
  exact ⟨exponential_widest, hlength, hhead, husable.mpr ⟨rfl, .inl rfl⟩⟩

/-- NaN is not below or at zero, so that it is taken for a start. -/
theorem not_exponential_usable_nan :
    ¬ ∀ (start factor : Float) (count : Nat) (bounds : List Float), exponential start factor count = .ok bounds →
      bounds.length = count ∧ bounds.head? = some start ∧ Usable bounds := by
  intro h
  obtain ⟨-,-,husable⟩ := h nan 2 1 [nan] rfl
  have hnumber := husable.number nan List.mem_cons_self
  exact absurd hnumber (by decide)

end Metering.Layout
