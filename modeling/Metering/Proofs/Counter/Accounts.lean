import Metering.Proofs.Counter.Calls

/-! # What a counter accounts for

After every run the word is the exact sum of the amounts that went to it, the float the sum of all others
in their order, and what was refused is in neither. Natural amounts up to 2 ^ 53 in total are reported
exactly.
-/
namespace Metering.Counter
open Binary64

def Act.offer (a : Act) : Offer :=
  ⟨a.amount, none, a.tag.map Tag.labels⟩

def accepted (acts : List Act) : List Act :=
  acts.filter (·.refusal?.isNone)

/-- The amounts of the word and those of the float: to the word goes what fits beside all that it was given. -/
def parted (vs : List Float) : List Float × List Float :=
  vs.foldl (fun p v => if Fits (p.1.map value).sum v then (p.1 ++ [v], p.2) else (p.1, p.2 ++ [v])) ([], [])

/-- A counter after its calls, against exact sums. Every accepted amount is in one of the parts, once. -/
structure Books (sampler : Option Recorder) (acts : List Act) (c : Counter) : Prop where
  each : ((parted ((accepted acts).map Act.amount)).1 ++ (parted ((accepted acts).map Act.amount)).2).Perm
    ((accepted acts).map Act.amount)
  whole : (c.whole.toNat : ℚ) = ((parted ((accepted acts).map Act.amount)).1.map value).sum
  rest : c.rest = (parted ((accepted acts).map Act.amount)).2.foldl (· + ·) 0
  offered : c.sampler.map (·.offers.toList) =
    sampler.map (·.offers.toList ++ (accepted acts).map Act.offer)

def Natural (v : Float) : Prop :=
  isFinite v = true ∧ ∃ n : ℕ, value v = n

variable {c d : Counter} {a : Act} {acts : List Act} {sampler : Option Recorder} {v : Float}

theorem parted_snoc (vs : List Float) (v : Float) :
    parted (vs ++ [v]) =
      if Fits ((parted vs).1.map value).sum v then ((parted vs).1 ++ [v], (parted vs).2)
      else ((parted vs).1, (parted vs).2 ++ [v]) := by
  rw [parted, List.foldl_append]
  rfl

theorem perm_parted (vs : List Float) : ((parted vs).1 ++ (parted vs).2).Perm vs := by
  induction vs using List.reverseRecOn with
  | nil => exact .refl _
  | append_singleton vs v ih =>
    rw [parted_snoc]
    split
    · rw [List.append_assoc]
      exact ((List.perm_append_comm).append_left _).trans (by simpa using ih.append_right [v])
    · simpa using ih.append_right [v]

theorem accepted_of_refused {e : Error} (h : a.refusal? = some e) (acts : List Act) :
    accepted (acts ++ [a]) = accepted acts := by
  simp [accepted, h]

theorem accepted_of_accepted (h : a.refusal? = none) (acts : List Act) :
    accepted (acts ++ [a]) = accepted acts ++ [a] := by
  simp [accepted, h]

theorem offers_offer (hs : c.sampler.map (·.offers.toList) = sampler.map (·.offers.toList ++ (accepted acts).map Act.offer))
    (h : a.refusal? = none) :
    (c.offer a.amount a.tag).sampler.map (·.offers.toList) =
      sampler.map (·.offers.toList ++ (accepted (acts ++ [a])).map Act.offer) := by
  rw [accepted_of_accepted h]
  cases hc : c.sampler <;> cases sampler <;> simp_all [offer, Sampler.offer, Recorder.offer, Act.offer]

theorem Books.call (hb : Books sampler acts c) (a : Act) : Books sampler (acts ++ [a]) (c.call a).1 := by
  have hstep := booked c a
  generalize c.call a = r at hstep
  have htotal := hb.whole
  cases hstep with
  | refused h =>
    have heq := accepted_of_refused h acts
    exact ⟨perm_parted _, heq ▸ hb.whole, heq ▸ hb.rest, heq ▸ hb.offered⟩
  | @whole w h hf hw =>
    have hparted := parted_snoc ((accepted acts).map Act.amount) a.amount
    rw [if_pos (htotal ▸ hf)] at hparted
    refine ⟨perm_parted _, ?_, ?_, offers_offer (c := { c with whole := w }) hb.offered h⟩
    · simp [accepted_of_accepted h, hparted, offer, hw, htotal]
    · simpa [accepted_of_accepted h, hparted, offer] using hb.rest
  | rest h hf =>
    have hparted := parted_snoc ((accepted acts).map Act.amount) a.amount
    rw [if_neg (htotal ▸ hf)] at hparted
    refine ⟨perm_parted _, ?_, ?_, offers_offer (c := c.addRest a.amount) hb.offered h⟩
    · simpa [accepted_of_accepted h, hparted, offer, addRest] using htotal
    · simp [accepted_of_accepted h, hparted, offer, addRest, hb.rest]

theorem books_run (created : Time) (sampler : Option Recorder) (acts : List Act) :
    Books sampler acts (reached call acts { created, sampler }) := by
  induction acts using List.reverseRecOn with
  | nil => exact ⟨perm_parted _, rfl, rfl, by simp [reached, accepted]⟩
  | append_singleton acts a ih =>
    rw [reached_append]
    exact ih.call a

theorem answers_eq (acts : List Act) (c : Counter) : answers call acts c = acts.map Act.refusal? := by
  induction acts generalizing c with
  | nil => rfl
  | cons a rest ih =>
    have hanswer : (c.call a).2 = a.refusal? := by
      have hstep := booked c a
      generalize c.call a = r at hstep
      cases hstep with
      | refused h => exact h.symm
      | whole h _ _ => exact h.symm
      | rest h _ => exact h.symm
    rw [answers, hanswer, ih, List.map_cons]

/-- Both cells together, in units. -/
def held (c : Counter) : ℕ :=
  units c.rest + c.whole.toNat * unitsOfOne

theorem Natural.nonneg (h : Natural v) : Nonneg v := by
  obtain ⟨hf,n,hn⟩ := h
  exact nonneg_of_value (by simpa [isFinite] using hf) (by rw [hn]; exact Nat.cast_nonneg n)

theorem natural_toFloat {n : UInt64} (h : n.toNat ≤ 2 ^ 53) : Natural n.toFloat :=
  ⟨by simpa [isFinite] using field_toFloat h, n.toNat, value_toFloat h⟩

theorem held_new (created : Time) (sampler : Option Recorder) : ({ created, sampler } : Counter).held = 0 * unitsOfOne := by
  change units (0 : Float) + 0 * unitsOfOne = _
  rw [units_zero, Nat.zero_add]

theorem held_call {n t : ℕ} (hc : Unsigned c.rest) (ha : Nonneg a.amount) (hn : value a.amount = n)
    (ht : c.held = t * unitsOfOne) (htop : t + n ≤ 2 ^ 53) :
    Unsigned (c.call a).1.rest ∧ (c.call a).1.held = (t + n) * unitsOfOne := by
  have haccepted := Act.refusal?_eq_none_iff.mpr ha
  have hunits := ha.value_eq_iff.mp hn
  have hstep := booked c a
  generalize c.call a = r at hstep
  cases hstep with
  | refused h =>
    rw [haccepted] at h
    cases h
  | @whole w h hf hw =>
    have hsum : w.toNat = c.whole.toNat + n := by
      rw [hn] at hw
      exact_mod_cast hw
    refine ⟨hc, ?_⟩
    rw [Nat.add_mul, ← ht]
    change units c.rest + w.toNat * unitsOfOne = units c.rest + c.whole.toNat * unitsOfOne + _
    rw [hsum, Nat.add_mul, Nat.add_assoc]
  | rest h hf =>
    have hwhole : c.whole.toNat ≤ t := Nat.le_of_mul_le_mul_right (ht ▸ Nat.le_add_left _ _) unitsOfOne_pos
    -- A natural amount goes to the float only if it is the whole total, with nothing there before.
    have hlarge : n = 2 ^ 53 := by
      by_contra hne
      exact hf ((fits_iff ha).mpr ⟨n, hn, by omega, by omega⟩)
    have hfirst : t = 0 := by omega
    rw [hfirst, Nat.zero_mul, held, Nat.add_eq_zero_iff] at ht
    obtain ⟨hrest,hempty⟩ := ht
    have hword := toNat_toUInt64 hlarge.le
    have hsum : c.rest + a.amount = n.toUInt64.toFloat :=
      add_eq_toFloat hc ha (by rw [hrest, hunits, hword, Nat.zero_add])
    refine ⟨hc.add ha, ?_⟩
    change units (c.rest + a.amount) + c.whole.toNat * unitsOfOne = _
    rw [hsum, hempty, units_toFloat (by omega), hword, hfirst, Nat.add_zero, Nat.zero_add]

theorem held_run (created : Time) (sampler : Option Recorder) (hn : ∀ a ∈ acts, Natural a.amount)
    (htop : (acts.map fun a => value a.amount).sum ≤ 2 ^ 53) :
    ∃ t : ℕ, (acts.map fun a => value a.amount).sum = t ∧
      Unsigned (reached call acts { created, sampler }).rest ∧
      (reached call acts { created, sampler }).held = t * unitsOfOne := by
  induction acts using List.reverseRecOn with
  | nil => exact ⟨0, rfl, unsigned_zero, held_new created sampler⟩
  | append_singleton acts a ih =>
    obtain ⟨n,hvalue⟩ := (hn a (by simp)).2
    rw [List.map_append, List.sum_append, List.map_singleton, List.sum_singleton, hvalue] at htop ⊢
    have hle : (acts.map fun a => value a.amount).sum ≤ 2 ^ 53 := le_trans (by simp) htop
    obtain ⟨t,ht,hrest,hheld⟩ := ih (fun a h => hn a (List.mem_append_left _ h)) hle
    rw [ht] at htop ⊢
    rw [reached_append]
    exact ⟨t + n, by push_cast; rfl, held_call hrest (hn a (by simp)).nonneg hvalue hheld (by exact_mod_cast htop)⟩

theorem get_of_held {t : ℕ} (hc : Unsigned c.rest) (ht : c.held = t * unitsOfOne) (htop : t ≤ 2 ^ 53) :
    c.get = t.toUInt64.toFloat := by
  have hwhole : c.whole.toNat ≤ t := Nat.le_of_mul_le_mul_right (ht ▸ Nat.le_add_left _ _) unitsOfOne_pos
  apply add_eq_toFloat hc (unsigned_toFloat c.whole).toNonneg
  rw [units_toFloat (hwhole.trans htop), toNat_toUInt64 htop]
  exact ht

/-- The accounts of every run: each call is booked, the answers are the refusals, and the cells are the sums of
what went to them. Where all amounts are natural and come to no more than 2 ^ 53, exactly that is reported. -/
theorem accounts (created : Time) (sampler : Option Recorder) (acts : List Act) :
    let start : Counter := { created, sampler }
    let c := reached call acts start
    (∀ a, Booked c a (c.call a)) ∧ answers call acts start = acts.map Act.refusal? ∧ Books sampler acts c ∧
      ((∀ a ∈ acts, Natural a.amount) → (acts.map fun a => value a.amount).sum ≤ 2 ^ 53 →
        isFinite c.get = true ∧ value c.get = (acts.map fun a => value a.amount).sum) := by
  refine ⟨booked _, answers_eq acts _, books_run created sampler acts, fun hn htop => ?_⟩
  obtain ⟨t,ht,hrest,hheld⟩ := held_run created sampler hn htop
  have ht' : t ≤ 2 ^ 53 := by
    rw [ht] at htop
    exact_mod_cast htop
  have hword : t.toUInt64.toNat ≤ 2 ^ 53 := by rwa [toNat_toUInt64 ht']
  rw [get_of_held hrest hheld ht', value_toFloat hword, toNat_toUInt64 ht', ht]
  exact ⟨(natural_toFloat hword).1, rfl⟩

theorem accounts_of_two_calls :
    let c := reached call [.increment, .add 41 none] ({ created := 0 } : Counter)
    isFinite c.get = true ∧ value c.get = 42 := by
  have hone : value Act.increment.amount = 1 := (value_toFloat (n := 1) (by decide)).trans Nat.cast_one
  have hmany : value (Act.add 41 none).amount = 41 := value_toFloat (n := 41) (by decide)
  have hsum : ([Act.increment, .add 41 none].map fun a => value a.amount).sum = 42 := by
    rw [List.map_cons, List.map_singleton, hone, hmany]
    norm_num
  have h := (accounts 0 none [.increment, .add 41 none]).2.2.2
  rw [hsum] at h
  refine h ?_ (by norm_num)
  simp only [List.mem_cons, List.not_mem_nil, or_false, forall_eq_or_imp, forall_eq]
  exact ⟨natural_toFloat (n := 1) (by decide), natural_toFloat (n := 41) (by decide)⟩

end Metering.Counter
