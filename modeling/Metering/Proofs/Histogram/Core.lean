import Metering.Proofs.Histogram.Calls

/-! # Histograms without their classic side

The classic buckets and the sampler are written and never looked at. What calls for upkeep, and what is
reported beside them, is the same in a histogram without classic bounds and without a sampler.
-/
namespace Metering

def HistogramConfig.core (c : HistogramConfig) : HistogramConfig :=
  { c with bounds := #[] }

/-- The part of a report that the classic buckets and the sampler have no part in. -/
def HistogramSnapshot.core (s : HistogramSnapshot) : HistogramSnapshot :=
  { s with classic := [], exemplars := [] }

namespace Histogram

variable {σ : Type}

/-- All but the classic buckets and the sampler. -/
def core (h : Histogram σ) : Histogram σ :=
  { h with config := h.config.core, classic := #[], sampler := none }

theorem core_new (config : HistogramConfig) (created : Time) (sampler : Option σ) :
    (new config created sampler).core = new config.core created none := by
  simp [new, core, HistogramConfig.core]

@[simp] theorem apply_core (v : Float) (h : Histogram σ) : h.core.apply v = ((h.apply v).1.core, (h.apply v).2) := rfl

@[simp] theorem upkeep?_core (now : Time) (created : Bool) (h : Histogram σ) :
    h.core.upkeep? now created = h.upkeep? now created := rfl

@[simp] theorem shrink_core (h : Histogram σ) (w : List Event) :
    shrink note (h.core, w) = ((shrink note (h, w)).1.core, (shrink note (h, w)).2) := by
  rw [shrink_fst h]
  exact shrink_frame (g := h.core) (h := h) rfl rfl w

@[simp] theorem await_core (start : UInt64) (h : Histogram σ) : h.core.await start = (h.await start).core := by
  have hcount : h.core.count = h.count := rfl
  unfold await
  rw [hcount]
  split <;> rfl

variable [Sampler σ]

@[simp] theorem reset_core (now : Time) (h : Histogram σ) : h.core.reset now = (h.reset now).core := by
  simp [reset, core, HistogramConfig.core]

@[simp] theorem perform_core (now : Time) (u : Upkeep) (h : Histogram σ) (w : List Event) :
    perform note now (h.core, w) u = ((perform note now (h, w) u).1.core, (perform note now (h, w) u).2) := by
  cases u with
  | reset => exact congrArg (·, w ++ [.reset]) (reset_core now h)
  | shrink => exact shrink_core h w

@[simp] theorem maintain_core (now : Time) (u : Upkeep) (h : Histogram σ) (w : List Event) :
    maintain note now u (h.core, w) =
      ((maintain note now u (h, w)).1.core, (maintain note now u (h, w)).2) := by
  refine congrArg Prod.fst (exclusively_map (fun s : Histogram σ × List Event => (s.1.core, s.2)) id
    (fun _ => rfl) (fun _ _ => rfl) ?_ ?_ (h, w))
  · intro start s
    simp
  · intro v s
    rfl

theorem applyAnnounced_core (now : Time) (v : Float) (h : Histogram σ) (w : List Event) :
    applyAnnounced note now v (h.core, w) =
      ((applyAnnounced note now v (h, w)).1.core, (applyAnnounced note now v (h, w)).2) := by
  unfold applyAnnounced
  simp only [apply_core, upkeep?_core]
  cases (h.apply v).1.upkeep? now (h.apply v).2 with
  | none => rfl
  | some u =>
    simp only [maintain_core]
    generalize maintain note now u ((h.apply v).1, w) = s
    have hbuffer : s.1.core.buffer = s.1.buffer := rfl
    rw [hbuffer]
    cases (s.1.buffer.append v).2 <;> split <;> rfl

theorem observe_core (now : Time) (v : Float) (tag : Option Tag) (h : Histogram σ) :
    h.core.observe now v tag = ((h.observe now v tag).1.core, (h.observe now v tag).2) := by
  have hbuffer : h.core.buffer = h.buffer := rfl
  have happly := applyAnnounced_core now v { h with buffer := (h.buffer.append v).1 } []
  unfold observe observeAmid
  dsimp only
  rw [hbuffer]
  cases v.isNaN with
  | true => rfl
  | false =>
    cases (h.buffer.append v).2 with
    | true => rfl
    | false => exact congrArg (fun s : Histogram σ × List Event => (s.1.offer v tag, s.2)) happly

theorem collect_core (h : Histogram σ) : h.core.collect = (h.collect.1.core, h.collect.2.core) := by
  rw [collect_eq, collect_eq]
  refine exclusively_map core HistogramSnapshot.core (fun _ => rfl) (fun _ _ => rfl) ?_ ?_ h.emptied
  · intro start g
    rw [await_core]
    rfl
  · intro v g
    rfl

/-- No call is told anything by the classic buckets or the sampler. -/
theorem call_core (a : Act) (h : Histogram σ) : (h.core.call a).1 = (h.call a).1.core := by
  cases a with
  | observe now v tag => exact congrArg Prod.fst (observe_core now v tag h)
  | collect => exact congrArg Prod.fst (collect_core h)

/-- A run without classic buckets and sampler goes along with one that has them. -/
theorem run_core (config : HistogramConfig) (created : Time) (sampler : Option σ) (acts : List Act) :
    (Course.run config.core created (none : Option σ) acts).histogram = (Course.run config created sampler acts).histogram.core := by
  rw [histogram_run, histogram_run, ← core_new config created sampler]
  exact List.foldl_hom core fun h a => call_core a h

theorem report_core (config : HistogramConfig) (created : Time) (sampler : Option σ) (acts : List Act) :
    (Course.run config.core created (none : Option σ) acts).report = (Course.run config created sampler acts).report.core := by
  have hcollect := collect_core (Course.run config created sampler acts).histogram
  rw [← run_core] at hcollect
  exact congrArg Prod.snd hcollect

end Histogram
end Metering
