import Metering.Counter
import Metering.Proofs.Answers
import Metering.Proofs.Binary64.Whole

/-! # Calls on a counter

A refused amount leaves the counter as it was. An accepted one is added to exactly one of the cells: as it
is to the word where it is whole and there is room, by one sum of doubles to the float otherwise.
-/
namespace Metering.Counter
open Binary64

inductive Act
  | increment
  | add (v : Float) (tag : Option Tag)

def Act.amount : Act → Float
  | .increment => 1
  | .add v _ => v

def Act.tag : Act → Option Tag
  | .increment => none
  | .add _ tag => tag

def Act.refusal? (a : Act) : Option Error :=
  if a.amount.isNaN then some .nanIncrement
  else if a.amount < 0 then some (.negativeIncrement a.amount)
  else none

variable {σ : Type} [Sampler σ]

def call (a : Act) (c : Counter σ) : Counter σ × Option Error :=
  match a with
  | .increment => (c.increment, none)
  | .add v tag =>
    match c.add v tag with
    | .ok c => (c, none)
    | .error e => (c, some e)

/-- A whole amount below 2 ^ 53 that a word at `total` has room for. -/
def Fits (total : ℚ) (v : Float) : Prop :=
  (value v).den = 1 ∧ value v < 2 ^ 53 ∧ total + value v < 2 ^ 64

instance (total : ℚ) (v : Float) : Decidable (Fits total v) :=
  inferInstanceAs (Decidable (_ ∧ _ ∧ _))

variable {c : Counter σ} {a : Act} {v : Float}

theorem nonneg_iff : Nonneg v ↔ v.isNaN = false ∧ ¬ v < 0 := by
  constructor
  · intro h
    refine ⟨h.number, fun hlt => ?_⟩
    have := (lt_iff_rank h.number isNaN_zero).mp hlt
    have := h.nonneg
    rw [rank_zero] at *
    omega
  · intro ⟨hn,hlt⟩
    refine ⟨hn, ?_⟩
    rw [lt_iff_rank hn isNaN_zero, rank_zero] at hlt
    omega

theorem Act.refusal?_eq_none_iff : a.refusal? = none ↔ Nonneg a.amount := by
  rw [nonneg_iff, refusal?]
  cases hn : a.amount.isNaN with
  | true => simp
  | false => by_cases hlt : a.amount < 0 <;> simp [hlt]

theorem exactLimit_eq : exactLimit = UInt64.toFloat 9007199254740992 := rfl

/-- Only whole amounts below 2 ^ 53 are read back as they were. -/
theorem isWhole_iff (hv : Nonneg v) : isWhole v = true ↔ ∃ n : ℕ, n < 2 ^ 53 ∧ value v = n := by
  have hlimit := (unsigned_toFloat 9007199254740992).toNonneg
  rw [isWhole, Bool.and_eq_true, decide_eq_true_eq, exactLimit_eq, lt_iff_rank hv.number hlimit.number,
    beq_iff_rank (unsigned_toFloat _).number hv.number]
  constructor
  · intro ⟨hlt,heq⟩
    have hn : v.toUInt64.toNat < 2 ^ 53 := by
      by_contra hge
      have hmono := rank_toFloat_mono (n := 9007199254740992) (m := v.toUInt64) (Nat.le_of_not_lt hge)
      omega
    have hunits : units v = v.toUInt64.toNat * unitsOfOne := by
      rw [← units_toFloat hn.le]
      exact Nat.le_antisymm (hv.units_le (unsigned_toFloat _).toNonneg heq.ge)
        ((unsigned_toFloat _).toNonneg.units_le hv heq.le)
    exact ⟨_, hn, hv.value_eq_iff.mpr hunits⟩
  · intro ⟨n,hn,hvalue⟩
    have hword := toNat_toUInt64 hn.le
    have hunits : units v = n.toUInt64.toNat * unitsOfOne := by rw [hword, hv.value_eq_iff.mp hvalue]
    have hrank := rank_of_whole hv (by omega) hunits
    rw [toUInt64_of_value hv hn.le hvalue]
    refine ⟨?_, hrank.symm⟩
    by_contra hge
    have hle := hlimit.units_le hv (Int.not_lt.mp hge)
    rw [units_toFloat (by decide), hunits, hword] at hle
    have := Nat.le_of_mul_le_mul_right hle unitsOfOne_pos
    exact absurd hn (Nat.not_lt.mpr this)

theorem fits_iff (hv : Nonneg v) {total : ℕ} :
    Fits total v ↔ ∃ n : ℕ, value v = n ∧ n < 2 ^ 53 ∧ total + n < 2 ^ 64 := by
  constructor
  · intro ⟨hden,hlt,hroom⟩
    have hpos : 0 ≤ value v := by
      rw [hv.value_eq]
      positivity
    have hvalue : value v = (value v).num.toNat := by
      have hnum : ((value v).num.toNat : ℤ) = (value v).num := Int.toNat_of_nonneg (Rat.num_nonneg.mpr hpos)
      exact (Rat.den_eq_one_iff _).mp hden ▸ by exact_mod_cast hnum.symm
    rw [hvalue] at hlt hroom
    exact ⟨_, hvalue, by exact_mod_cast hlt, by exact_mod_cast hroom⟩
  · intro ⟨n,hvalue,hlt,hroom⟩
    rw [Fits, hvalue]
    exact ⟨Rat.den_natCast n, by exact_mod_cast hlt, by exact_mod_cast hroom⟩

omit [Sampler σ] in
theorem addAmount_of_fits (hv : Nonneg v) (hf : Fits c.whole.toNat v) :
    ∃ w : UInt64, (w.toNat : ℚ) = c.whole.toNat + value v ∧ c.addAmount v = { c with whole := w } := by
  obtain ⟨n,hvalue,hn,hroom⟩ := (fits_iff hv).mp hf
  have hword := toNat_toUInt64 hn.le
  have hsum : (c.whole + n.toUInt64).toNat = c.whole.toNat + n := by
    rw [UInt64.toNat_add, hword, Nat.mod_eq_of_lt hroom]
  have hroom' : c.whole.toNat + n < UInt64.size := hroom
  refine ⟨c.whole + n.toUInt64, by rw [hsum, hvalue, Nat.cast_add], ?_⟩
  rw [addAmount, if_pos ((isWhole_iff hv).mpr ⟨n, hn, hvalue⟩), toUInt64_of_value hv hn.le hvalue, addWhole?,
    hword, if_pos hroom']
  rfl

omit [Sampler σ] in
theorem addAmount_of_not_fits (hv : Nonneg v) (hf : ¬ Fits c.whole.toNat v) : c.addAmount v = c.addRest v := by
  rw [addAmount]
  split
  · next hw =>
    obtain ⟨n,hn,hvalue⟩ := (isWhole_iff hv).mp hw
    have hfull : ¬ c.whole.toNat + n < UInt64.size := fun h => hf ((fits_iff hv).mpr ⟨n, hvalue, hn, h⟩)
    rw [toUInt64_of_value hv hn.le hvalue, addWhole?, toNat_toUInt64 hn.le, if_neg hfull]
    rfl
  · rfl

theorem increment_eq (c : Counter σ) : c.increment = (c.addAmount 1).offer 1 none := by
  have hw : isWhole 1 = true := rfl
  have hone : (1 : Float).toUInt64 = 1 := rfl
  rw [increment, addAmount, if_pos hw, hone]

/-- Everything that a call can do: what is refused changes nothing, and what is accepted is added to exactly
one of the cells and offered once. -/
inductive Booked (c : Counter σ) (a : Act) : Counter σ × Option Error → Prop
  | refused {e : Error} (h : a.refusal? = some e) : Booked c a (c, some e)
  | whole {w : UInt64} (h : a.refusal? = none) (hf : Fits c.whole.toNat a.amount)
      (hw : (w.toNat : ℚ) = c.whole.toNat + value a.amount) :
      Booked c a (({ c with whole := w } : Counter σ).offer a.amount a.tag, none)
  | rest (h : a.refusal? = none) (hf : ¬ Fits c.whole.toNat a.amount) :
      Booked c a ((c.addRest a.amount).offer a.amount a.tag, none)

theorem call_of_refused {e : Error} (h : a.refusal? = some e) (c : Counter σ) : c.call a = (c, some e) := by
  cases a with
  | increment =>
    have hone : Act.increment.refusal? = none := rfl
    rw [hone] at h
    cases h
  | add v tag =>
    rw [Act.refusal?, Act.amount] at h
    rw [call, add]
    split at h
    · next hn =>
      rw [if_pos hn]
      cases h
      rfl
    · next hn =>
      rw [if_neg hn]
      split at h
      · next hlt =>
        rw [if_pos hlt]
        cases h
        rfl
      · cases h

theorem call_of_accepted (h : a.refusal? = none) (c : Counter σ) :
    c.call a = ((c.addAmount a.amount).offer a.amount a.tag, none) := by
  cases a with
  | increment => exact congrArg (·, none) (increment_eq c)
  | add v tag =>
    obtain ⟨hn,hlt⟩ := nonneg_iff.mp (Act.refusal?_eq_none_iff.mp h)
    rw [Act.amount] at hn hlt
    rw [call, add, hn, if_neg Bool.false_ne_true, if_neg hlt]
    rfl

theorem booked (c : Counter σ) (a : Act) : Booked c a (c.call a) := by
  cases h : a.refusal? with
  | some e =>
    rw [call_of_refused h]
    exact .refused h
  | none =>
    have hv := Act.refusal?_eq_none_iff.mp h
    rw [call_of_accepted h]
    by_cases hf : Fits c.whole.toNat a.amount
    · obtain ⟨w,hw,heq⟩ := addAmount_of_fits hv hf
      rw [heq]
      exact .whole h hf hw
    · rw [addAmount_of_not_fits hv hf]
      exact .rest h hf

end Metering.Counter
