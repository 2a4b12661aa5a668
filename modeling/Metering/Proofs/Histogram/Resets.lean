import Metering.Proofs.Histogram.Course
import Mathlib.Data.List.Chain

/-! # The resets of a run

A reset is told of by the events of the action that brings it about, and happens at the time of that
action. A histogram was created, as it reports, at its last reset, and resets keep their distance.
-/
namespace Metering.Histogram

variable {σ : Type} [Sampler σ]

/-- One moment follows the other by the reset duration at least, where there is one. -/
def Spaced (config : HistogramConfig) (earlier later : Time) : Prop :=
  ∃ c, config.native = some c ∧ c.resetAfter ≠ 0 ∧ c.resetAfter ≤ later - earlier

variable {h : Histogram σ} {now : Time} {v : Float}

@[simp] theorem config_record (now : Time) (v : Float) (h : Histogram σ) : (h.record now v).1.config = h.config := by
  have hr := recorded now v h
  generalize h.record now v = r at hr ⊢
  cases hr <;> rfl

theorem created_record (now : Time) (v : Float) (h : Histogram σ) :
    (h.record now v).1.created = if (h.record now v).2.any Event.isReset then now else h.created := by
  have hr := recorded now v h
  generalize h.record now v = r at hr ⊢
  cases hr with
  | plain hu => rfl
  | shrunk hn hs hw he =>
    rw [if_neg]
    · rfl
    · rw [Bool.not_eq_true, List.any_eq_false]
      intro e hm
      rw [he e hm]
      exact Bool.false_ne_true
  | reset hn => rfl

theorem spaced_of_reset (hr : (h.record now v).2.any Event.isReset = true) : Spaced h.config h.created now := by
  have hu := any_isReset_record.mp hr
  obtain ⟨n,c,hp,_⟩ := upkeep?_eq_some hu
  obtain ⟨hne,hle⟩ := resetDue_iff.mp ((upkeep?_eq_reset_iff hp).mp hu).1
  exact ⟨c, (nativePart?_eq_some.mp hp).2, hne, hle⟩

def Act.reset? (events : List Event) : Act → Option Time
  | .observe now _ _ => if events.any Event.isReset then some now else none
  | .collect => none

theorem Act.reset?_nil (a : Act) : a.reset? [] = none := by
  cases a <;> rfl

theorem Stepped.timed {c c' : Course σ} {a : Act} {events : List Event} (h : Stepped c a c' events) :
    c'.histogram.config = c.histogram.config ∧
      c'.histogram.created = (a.reset? events).getD c.histogram.created ∧
      ∀ t ∈ a.reset? events, Spaced c.histogram.config c.histogram.created t := by
  cases h with
  | idle ha hq hb =>
    rw [Act.reset?_nil]
    exact ⟨rfl, rfl, fun _ ht => nomatch ht⟩
  | @recorded now v b tag hv hq hb =>
    refine ⟨config_record now v c.histogram, (created_record now v c.histogram).trans ?_, ?_⟩
    · rw [Act.reset?]
      split <;> rfl
    · intro t ht
      rw [Act.reset?] at ht
      split at ht
      · rename_i hr
        cases ht
        exact spaced_of_reset hr
      · cases ht

namespace Course

def resets (c : Course σ) : List Act → List Time
  | [] => []
  | a :: acts => (a.reset? (c.events a)).toList ++ (c.step a).resets acts

theorem resets_append (c : Course σ) (xs ys : List Act) :
    c.resets (xs ++ ys) = c.resets xs ++ (xs.foldl step c).resets ys := by
  induction xs generalizing c with
  | nil => rfl
  | cons a xs ih => rw [List.cons_append, resets, ih, resets, List.append_assoc, List.foldl_cons]

theorem resets_singleton (c : Course σ) (a : Act) : c.resets [a] = (a.reset? (c.events a)).toList :=
  List.append_nil _

variable {config : HistogramConfig} {created : Time} {sampler : Option σ} {acts : List Act}

def runResets (config : HistogramConfig) (created : Time) (sampler : Option σ) (acts : List Act) : List Time :=
  (run config created sampler []).resets acts

theorem runResets_append (config : HistogramConfig) (created : Time) (sampler : Option σ) (xs ys : List Act) :
    runResets config created sampler (xs ++ ys) =
      runResets config created sampler xs ++ (run config created sampler xs).resets ys :=
  resets_append _ xs ys

/-- A histogram reports its last reset, and no two resets are closer than the reset duration. -/
theorem timed_run (config : HistogramConfig) (created : Time) (sampler : Option σ)
    (hroom : acts.countP Act.counts < 2 ^ 63) :
    (run config created sampler acts).histogram.config = config ∧
      (run config created sampler acts).histogram.created = (runResets config created sampler acts).getLastD created ∧
      (created :: runResets config created sampler acts).IsChain (Spaced config) := by
  induction acts using List.reverseRecOn with
  | nil => exact ⟨rfl, rfl, List.isChain_singleton created⟩
  | append_singleton acts a ih =>
    obtain ⟨hcfg',hcreated',hdue⟩ := (stepped_run config created sampler hroom).timed
    obtain ⟨hcfg,hcreated,hchain⟩ := ih (room_left hroom)
    rw [hcfg, hcreated] at hdue
    rw [runResets_append, resets_singleton]
    refine ⟨hcfg'.trans hcfg, ?_⟩
    rw [hcreated', hcreated]
    cases hr : a.reset? ((run config created sampler acts).events a) with
    | none =>
      rw [Option.toList_none, List.append_nil]
      exact ⟨rfl, hchain⟩
    | some t =>
      have hspaced := hdue t hr
      rw [List.getLastD_eq_getLast?] at hspaced
      refine ⟨by simp, ?_⟩
      rw [Option.toList_some, ← List.cons_append, List.isChain_append]
      refine ⟨hchain, List.isChain_singleton t, ?_⟩
      intro s hs t' ht'
      cases ht'
      rw [List.getLast?_cons] at hs
      cases hs
      exact hspaced

theorem runResets_eq_nil (hzero : ∀ c ∈ config.native, c.resetAfter = 0) (created : Time) (sampler : Option σ)
    (hroom : acts.countP Act.counts < 2 ^ 63) : runResets config created sampler acts = [] := by
  obtain ⟨_,_,hchain⟩ := timed_run config created sampler hroom
  cases hr : runResets config created sampler acts with
  | nil => rfl
  | cons t ts =>
    rw [hr] at hchain
    obtain ⟨c,hm,hne,_⟩ := (List.isChain_cons_cons.mp hchain).1
    exact absurd (hzero c hm) hne

end Course

/-- The second value makes the zero bucket swallow the first. -/
def wideningRun : List Act :=
  [.observe 0 1 none, .observe 1 4 none]

/-- The third value comes after the reset duration. -/
def restlessRun : List Act :=
  wideningRun ++ [.collect, .observe 20 6 none]

end Metering.Histogram
