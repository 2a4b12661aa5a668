import Metering.Histogram

/-! # What calls for upkeep

A histogram starts over once that is due, if it was shrunk or if a new bucket takes it past its limit.
As long as starting over is not due a new bucket past the limit makes it shrink: the zero bucket is
widened where that is possible, and otherwise the resolution is halved.
-/
namespace Metering.Histogram
open Native (minSchema)

variable {σ : Type}
variable {config : HistogramConfig} {h : Histogram σ} {n : Native.State} {c : NativeConfig} {now : Time} {v : Float}
  {created : Bool} {w : List Event}

@[simp] theorem count_apply (v : Float) (h : Histogram σ) : (h.apply v).1.count = h.count + 1 := rfl

theorem native_apply (hn : h.native = some n) :
    (h.apply v).1.native = some (n.observe v).1 ∧ (h.apply v).2 = (n.observe v).2 := by
  rw [apply]
  simp only [hn]
  exact ⟨trivial, trivial⟩

theorem nativePart?_eq_some :
    h.nativePart? = some (n, c) ↔ h.native = some n ∧ h.config.native = some c := by
  rw [nativePart?]
  constructor
  · intro hp
    split at hp
    · rename_i hn hc
      cases hp
      exact ⟨hn, hc⟩
    · cases hp
  · rintro ⟨hn,hc⟩
    rw [hn, hc]

theorem native_new (hc : config.native = some c) (created : Time) (sampler : Option σ) :
    (new config created sampler).native = some c.fresh :=
  congrArg (Option.map NativeConfig.fresh) hc

theorem native_reset [Sampler σ] (hc : h.config.native = some c) (now : Time) : (h.reset now).native = some c.fresh :=
  congrArg (Option.map NativeConfig.fresh) hc

theorem resetDue_iff : h.resetDue now c = true ↔ c.resetAfter ≠ 0 ∧ c.resetAfter ≤ now - h.created := by
  rw [resetDue, Bool.and_eq_true, bne_iff_ne, decide_eq_true_iff]

theorem overBudget_iff : overBudget c n = true ↔ c.maxBuckets ≠ 0 ∧ c.maxBuckets < n.bucketNumber := by
  rw [overBudget, Bool.and_eq_true, bne_iff_ne, decide_eq_true_iff]

/-- A new bucket past the limit, above the lowest schema. -/
def Crowded (created : Bool) (c : NativeConfig) (n : Native.State) : Prop :=
  created = true ∧ minSchema < n.schema ∧ overBudget c n = true

theorem upkeep?_eq (hp : h.nativePart? = some (n, c)) :
    h.upkeep? now created =
      if n.schema < c.initialSchema && h.resetDue now c then some .reset
      else if created && minSchema < n.schema && overBudget c n then
        some (if h.resetDue now c then .reset else .shrink)
      else none := by
  rw [upkeep?, hp]

theorem upkeep?_eq_reset_iff (hp : h.nativePart? = some (n, c)) :
    h.upkeep? now created = some .reset ↔
      h.resetDue now c = true ∧ (n.schema < c.initialSchema ∨ Crowded created c n) := by
  rw [upkeep?_eq hp, Crowded]
  cases h.resetDue now c with
  | true => by_cases hs : n.schema < c.initialSchema <;> simp [hs, and_assoc]
  | false => simp

theorem upkeep?_eq_shrink_iff (hp : h.nativePart? = some (n, c)) :
    h.upkeep? now created = some .shrink ↔ h.resetDue now c = false ∧ Crowded created c n := by
  rw [upkeep?_eq hp, Crowded]
  cases h.resetDue now c with
  | true => by_cases hs : n.schema < c.initialSchema <;> simp [hs]
  | false => simp [and_assoc]

theorem upkeep?_eq_some {u : Upkeep} (hu : h.upkeep? now created = some u) :
    ∃ n c, h.nativePart? = some (n, c) ∧ (u = .shrink → Crowded created c n) := by
  cases hp : h.nativePart? with
  | none =>
    rw [upkeep?, hp] at hu
    cases hu
  | some nc =>
    refine ⟨nc.1, nc.2, rfl, ?_⟩
    rintro rfl
    exact ((upkeep?_eq_shrink_iff hp).mp hu).2

theorem not_crowded_of_upkeep?_none (hu : h.upkeep? now created = none) (hp : h.nativePart? = some (n, c)) :
    ¬ Crowded created c n := by
  intro hcrowded
  cases hd : h.resetDue now c with
  | true =>
    have hreset := (upkeep?_eq_reset_iff hp).mpr ⟨hd, .inr hcrowded⟩
    rw [hu] at hreset
    cases hreset
  | false =>
    have hshrink := (upkeep?_eq_shrink_iff hp).mpr ⟨hd, hcrowded⟩
    rw [hu] at hshrink
    cases hshrink

deriving instance DecidableEq for Event

def Event.isReset : Event → Bool
  | .reset => true
  | _ => false

/-- Shrinking widens the zero bucket or, where that is refused, halves the resolution. -/
theorem shrink_cases (hn : h.nativePart? = some (n, c)) (hs : minSchema < n.schema) (w : List Event) :
    (∃ m, n.widen? c.maxZeroThreshold = some m ∧
      shrink note (h, w) = ({ h with native := some m }, w ++ [.widened m.zeroThreshold])) ∨
    ∃ m rest, n.widen? c.maxZeroThreshold = none ∧ n.halve? = some m ∧ (∀ e ∈ rest, ∃ k, e = .overLimit k) ∧
      shrink note (h, w) = ({ h with native := some m }, w ++ .halved m.schema :: rest) := by
  rw [shrink, hn]
  dsimp only
  cases hw : n.widen? c.maxZeroThreshold with
  | some m => exact .inl ⟨m, rfl, rfl⟩
  | none =>
    right
    cases hh : n.halve? with
    | none =>
      rw [Native.State.halve?, if_neg (by omega)] at hh
      cases hh
    | some m =>
      dsimp only
      split
      · refine ⟨m, [.overLimit m.bucketNumber], rfl, rfl, ?_, ?_⟩
        · intro e he
          exact ⟨_, List.mem_singleton.mp he⟩
        · simp only [note, List.append_assoc, List.cons_append, List.nil_append]
      · exact ⟨m, [], rfl, rfl, fun _ he => (nomatch he), rfl⟩

theorem shrink_spec (hn : h.nativePart? = some (n, c)) (hs : minSchema < n.schema) :
    ∃ n' more, shrink note (h, w) = ({ h with native := some n' }, w ++ more) ∧
      (∀ e ∈ more, e.isReset = false) ∧
      (n.widen? c.maxZeroThreshold = some n' ∨ n.halve? = some n') := by
  rcases shrink_cases hn hs w with ⟨m,hw,heq⟩ | ⟨m,rest,_,hh,hrest,heq⟩
  · refine ⟨m, _, heq, ?_, .inl hw⟩
    intro e he
    rw [List.mem_singleton.mp he]
    rfl
  · refine ⟨m, _, heq, ?_, .inr hh⟩
    intro e he
    rcases List.mem_cons.mp he with rfl | he
    · rfl
    · obtain ⟨k,rfl⟩ := hrest e he
      rfl

theorem shrink_frame {g : Histogram σ} (hn : g.native = h.native) (hc : g.config.native = h.config.native) (w : List Event) :
    shrink note (g, w) = ({ g with native := (shrink note (h, w)).1.native }, (shrink note (h, w)).2) := by
  have hpart : g.nativePart? = h.nativePart? := by rw [nativePart?, nativePart?, hn, hc]
  rw [shrink, shrink]
  dsimp only
  rw [hpart]
  cases h.nativePart? with
  | none => rw [← hn]
  | some nc =>
    obtain ⟨n,c⟩ := nc
    dsimp only
    cases n.widen? c.maxZeroThreshold with
    | some n' => rfl
    | none =>
      dsimp only
      cases n.halve? with
      | none => rw [← hn]
      | some n' =>
        dsimp only
        split <;> rfl

theorem shrink_fst (h : Histogram σ) (w : List Event) :
    (shrink note (h, w)).1 = { h with native := (shrink note (h, w)).1.native } :=
  congrArg Prod.fst (shrink_frame rfl rfl w)

theorem count_shrink (h : Histogram σ) (w : List Event) : (shrink note (h, w)).1.count = h.count := by
  rw [shrink_fst]

end Metering.Histogram
