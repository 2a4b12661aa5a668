import Metering.Proofs.Family.Journal
import Metering.Proofs.Scenario.Quiet

/-! # The journal of a scenario

As long as nothing arrives, a scenario writes for a logged family of histograms what the family and the loggers of
its series write. What is shown of their journal holds of the one that is read from the scenario.
-/
namespace Metering

namespace Family
variable {α α' ω : Type} {f : Family α} {g : α → α'}

/-- The same family with other accumulators. -/
def map (g : α → α') (f : Family α) : Family α' :=
  { description := f.description, made := f.made.map g, live := f.live }

theorem obtain_map (g : α → α') (fresh : α) (values : List String) (f : Family α) :
    (f.map g).obtain (g fresh) values = (f.obtain fresh values).map fun r => (r.1.map g, r.2) := by
  by_cases hlen : values.length = f.description.variableLabels.length
  · cases hv : f.handle? values with
    | none =>
      rw [obtain_new hlen hv, obtain_new (f := f.map g) hlen hv]
      simp [Except.map, start, map]
    | some h =>
      rw [obtain_known hlen hv, obtain_known (f := f.map g) hlen hv]
      rfl
  · rw [obtain_refused hlen, obtain_refused (f := f.map g) hlen]
    rfl

theorem remove_map (g : α → α') (values : List String) (f : Family α) :
    (f.map g).remove values = ((f.remove values).1.map g, (f.remove values).2) := by
  have hcardinality : (f.map g).checkCardinality values = f.checkCardinality values := rfl
  have hlive : (f.map g).isLive values = f.isLive values := rfl
  rw [remove, remove, hcardinality, hlive]
  split
  · rfl
  · split <;> rfl

theorem prepare_map (g : α → α') (fresh : α) (f : Family α) :
    (f.map g).prepare (g fresh) = ((f.prepare fresh).1.map g, (f.prepare fresh).2) := by
  by_cases hnone : f.description.variableLabels = [] ∧ f.live = []
  · obtain ⟨hlabels,hlive⟩ := hnone
    rw [prepare_new hlabels hlive, prepare_new (f := f.map g) hlabels hlive]
    simp [start, map]
  · have hopen := not_and_or.mp hnone
    rw [prepare_known hopen, prepare_known (f := f.map g) hopen]

end Family

namespace Scenario
open HistogramFamily (Act)

namespace Play

theorem run_get (s : Scenario) : StateT.run (ExceptT.run (get : Play Scenario)) s = (pure (.ok s, s) : Id _) :=
  rfl

theorem run_set (s s' : Scenario) : StateT.run (ExceptT.run (set s' : Play PUnit)) s = (pure (.ok ⟨⟩, s') : Id _) :=
  rfl

theorem run_modify (f : Scenario → Scenario) (s : Scenario) :
    StateT.run (ExceptT.run (modify f : Play PUnit)) s = (pure (.ok ⟨⟩, f s) : Id _) :=
  rfl

end Play
open Play (run_get run_set run_modify)

/-- The scenario after a play, also after one that is refused. -/
def after {α : Type} (p : Play α) (s : Scenario) : Scenario :=
  (p.run.run s).run.2

def clock (now : Time) (s : Scenario) : Scenario :=
  after (Step.run (.advance (now - s.now))) s

/-- A call on the family that is entry `i`, or through the handle of one of its series. -/
def act (i : Nat) : Act → Scenario → Scenario
  | .lookup now values strict, s => after (Step.run (.series i (.labels values strict) (.get none))) (s.clock now)
  | .remove values, s => after (Step.run (.remove i values)) s
  | .clear, s => after (Step.run (.reset i)) s
  | .collect now, s => after (Step.run (.collect i)) (s.clock now)
  | .use handle (.observe now v tag), s => after (Play.observeAll ⟨i, handle⟩ tag [v]) (s.clock now)
  | .use handle .collect, s => after (Play.snapshot ⟨i, handle⟩) s

variable {i : Nat} {e : Entry} {s : Scenario}

theorem clock_eq (now : Time) (s : Scenario) : s.clock now = { s with now } := by
  have hnow : s.now + (now - s.now) = now := add_sub_cancel s.now now
  change { s with now := s.now + (now - s.now) } = _
  rw [hnow]

theorem now_clock (now : Time) (s : Scenario) : (s.clock now).now = now := by
  rw [clock_eq]

theorem after_remove (he : s.entryAt? i = some e) (hf : e.standalone = false) (values : List String) :
    after (Step.run (.remove i values)) s =
      (s.setEntry i { e with family := (e.family.remove values).1 }).announce e (e.family.remove values).2.2 := by
  simp [after, Step.run, Play.family, he, hf, run_get, run_modify]

theorem after_reset (he : s.entryAt? i = some e) (hf : e.standalone = false) :
    after (Step.run (.reset i)) s =
      (s.setEntry i { e with family := e.family.clear.1 }).announce e e.family.clear.2 := by
  simp [after, Step.run, Play.family, he, hf, run_get, run_modify]

theorem after_observeAll (t : Target) (tag : Option Tag) (v : Float) (s : Scenario) :
    after (Play.observeAll t tag [v]) s = s.observe tag t v := by
  simp [after, Play.observeAll, run_modify]

theorem after_snapshot (t : Target) (s : Scenario) : after (Play.snapshot t) s = (s.snapshot t).1 := by
  cases hr : (s.snapshot t).2 with
  | none => simp [after, Play.snapshot, hr, run_get, run_set]
  | some r => cases r <;> simp [after, Play.snapshot, Play.liftFailure, hr, run_get, run_set]

theorem obtain_eq (he : s.entryAt? i = some e) (hf : e.standalone = false) (values : List String) :
    s.obtain i values = some ((e.family.obtain (e.fresh s.now values) values).map fun r =>
      ((s.setEntry i { e with family := r.1 }).announce e r.2.2, ⟨i, r.2.1⟩)) := by
  rw [obtain, he]
  simp only [hf, Bool.false_eq_true, if_false]
  cases e.family.obtain (e.fresh s.now values) values <;> rfl

theorem after_get (he : s.entryAt? i = some e) (hf : e.standalone = false) (values : List String) (strict : Bool) :
    after (Step.run (.series i (.labels values strict) (.get none))) s =
      match e.family.obtain (e.fresh s.now values) values with
      | .ok r => (s.setEntry i { e with family := r.1 }).announce e r.2.2
      | .error _ => s := by
  cases hr : e.family.obtain (e.fresh s.now values) values <;>
    simp [after, Step.run, SeriesStep.run, Play.find, obtain_eq he hf, Except.map, he, hr, run_get, run_set]

theorem after_collectFamily (he : s.entryAt? i = some e) (hf : e.standalone = false) :
    after (Play.collectFamily i) s = (s.collect i e).1 := by
  cases hr : (s.collect i e).2 <;>
    simp [after, Play.collectFamily, Play.family, Play.liftFailure, he, hf, hr, run_get, run_set]

theorem after_familySnapshot (he : s.entryAt? i = some e) (hf : e.standalone = false) :
    after (Play.familySnapshot i) s = (s.collect i e).1 := by
  cases hr : (s.collect i e).2 <;>
    simp [after, Play.familySnapshot, Play.collectFamily, Play.family, Play.liftFailure, he, hf, hr, run_get, run_set]

theorem after_map {α β : Type} (g : α → β) (p : Play α) (s : Scenario) : after (g <$> p) s = after p s := by
  simp [after]

theorem after_collect (he : s.entryAt? i = some e) (hf : e.standalone = false) :
    after (Step.run (.collect i)) s = (s.collect i e).1 := by
  cases hs : e.specification with
  | container o =>
    rw [← after_collectFamily he hf, ← after_map Answer.points]
    simp [after, Step.run, he, hf, hs, run_get]
  | _ =>
    rw [← after_familySnapshot he hf, ← after_map Answer.family]
    simp [after, Step.run, he, hf, hs, run_get]

theorem snapshot_histogram {t : Target} {values : List String} {h : Histogram}
    (hseries : s.series? t = some ⟨values, .histogram h⟩) :
    s.snapshot t = (s.setAccumulator t (.histogram h.collect.1), some (.ok (.histogram h.collect.2))) := by
  rw [snapshot, hseries]
  simp [Accumulator.collect, Function.comp_def]

theorem observe_absent {t : Target} (hseries : s.series? t = none) (tag : Option Tag) (v : Float) :
    s.observe tag t v = s := by
  rw [observe, observeWithin, hseries]
  cases s.entryAt? t.entry <;> rfl

end Scenario

namespace HistogramFamily
open Scenario (Entry)

variable {i handle : Nat} {e : Entry} {s : Scenario} {config : HistogramConfig} {f : HistogramFamily Recorder}

def Series.held (x : Series Recorder) : Scenario.Series :=
  { values := x.values, accumulator := .histogram x.histogram }

def entryOf (e : Entry) (f : Family (Series Recorder)) : Entry :=
  { e with family := f.map Series.held }

def samplerOf (e : Entry) : Option Recorder :=
  if e.sampled then some {} else none

/-- An entry for a family of histograms that write to the journal. -/
structure Logging (config : HistogramConfig) (e : Entry) : Prop where
  histogram : e.blueprint = .histogram config
  family : e.standalone = false
  logged : e.logged = true

/-- A scenario in which nothing arrives and whose entry `i` has the series and the journal of a family. -/
structure Shown (i : Nat) (e : Entry) (s : Scenario) (f : HistogramFamily Recorder) : Prop where
  quiet : s.arrivals = []
  entry : s.entryAt? i = some (entryOf e f.family)
  journal : s.journal.toList = f.journal.map Line.record

def reported (g : Family (Series Recorder)) (events : List Family.Event) (f : HistogramFamily Recorder) :
    HistogramFamily Recorder where
  family := g
  journal := f.journal ++ (events.map (·.record f.family.description.fullName)).map (Line.mk none)

/-- A call through no handle. -/
theorem step_eq_reported {sampler : Option Recorder} {a : Act} {o : Family.Outcome (List Line) HistogramSnapshot}
    {g : Family (Series Recorder)} (hcall : f.call config sampler a = (g, o)) (hwritten : written o.answer = []) :
    step config sampler f a = f.reported g o.events := by
  rw [step, hcall, lines, hwritten, List.append_nil]
  rfl

theorem step_use {sampler : Option Recorder} (hh : handle < f.family.made.size) (act : Histogram.Act) :
    step config sampler f (.use handle act) =
      { family := { f.family with made := f.family.made.set handle { f.family.made[handle] with
          histogram := (f.family.made[handle].histogram.call act).1 } }
        journal := f.journal ++ ((f.family.made[handle].histogram.call act).2.upkeep.map
          (·.record f.family.description.fullName f.family.made[handle].values)).map (Line.mk (some handle)) } := by
  rw [step, call, Act.call, Family.call, Family.update_of_lt hh]
  rfl

theorem step_use_absent {sampler : Option Recorder} (hh : f.family.made.size ≤ handle) (act : Histogram.Act) :
    step config sampler f (.use handle act) = f := by
  rw [step, call, Act.call, Family.call, Family.update_of_le hh]
  simp [lines, written]

theorem Logging.fresh (hl : Logging config e) (f : Family (Series Recorder)) (now : Time) (values : List String) :
    (entryOf e f).fresh now values = (Series.new config (samplerOf e) now values).held := by
  change Scenario.Series.mk values (e.blueprint.make now (samplerOf e)) = _
  rw [hl.histogram]
  rfl

theorem Shown.clock (h : Shown i e s f) (now : Time) : Shown i e (s.clock now) f := by
  rw [Scenario.clock_eq]
  exact ⟨h.quiet, h.entry, h.journal⟩

theorem Shown.announce (h : Shown i e s f) (hl : Logging config e) (g : Family (Series Recorder))
    (events : List Family.Event) :
    Shown i e ((s.setEntry i (entryOf e g)).announce (entryOf e f.family) events)
      (f.reported g events) := by
  have hquiet : (s.setEntry i (entryOf e g)).arrivals = [] := h.quiet
  have hjournal : (s.setEntry i (entryOf e g)).journal.toList = f.journal.map Line.record := h.journal
  rw [Scenario.announce_quiet hquiet (e := entryOf e f.family) hl.logged]
  refine ⟨h.quiet, Scenario.entryAt?_setEntry h.entry _, ?_⟩
  rw [Array.toList_append, hjournal, reported, List.map_append, map_record_own]
  rfl

theorem Shown.series?_eq (h : Shown i e s f) (handle : Nat) :
    s.series? ⟨i, handle⟩ = f.family.made[handle]?.map Series.held := by
  rw [Scenario.series?, h.entry]
  exact Array.getElem?_map

theorem Shown.series?_of_lt (h : Shown i e s f) (hh : handle < f.family.made.size) :
    s.series? ⟨i, handle⟩ = some f.family.made[handle].held := by
  rw [h.series?_eq, Array.getElem?_eq_getElem hh]
  rfl

theorem Shown.series?_of_le (h : Shown i e s f) (hh : f.family.made.size ≤ handle) : s.series? ⟨i, handle⟩ = none := by
  rw [h.series?_eq, Array.getElem?_eq_none hh]
  rfl

theorem Shown.put (h : Shown i e s f) (hh : handle < f.family.made.size) (g : Histogram) :
    Shown i e (s.setAccumulator ⟨i, handle⟩ (.histogram g))
      { f with family := { f.family with
          made := f.family.made.set handle { f.family.made[handle] with histogram := g } } } := by
  have hmade : handle < (entryOf e f.family).family.made.size := by simpa [entryOf, Family.map] using hh
  refine ⟨(Scenario.arrivals_setAccumulator _ _ s).trans h.quiet, ?_,
    (congrArg Array.toList (Scenario.journal_setAccumulator _ _ s)).trans h.journal⟩
  rw [Scenario.entryAt?_setAccumulator (t := ⟨i, handle⟩) h.entry, Family.update_of_lt hmade]
  simp [entryOf, Family.map, Series.held]

theorem Shown.snapshot (h : Shown i e s f) (handle : Nat) :
    Shown i e (s.snapshot ⟨i, handle⟩).1 { f with family := (f.family.update handle Series.collect).1 } ∧
      (s.snapshot ⟨i, handle⟩).2 = (f.family.update handle Series.collect).2.map (.ok ∘ .histogram) := by
  by_cases hh : handle < f.family.made.size
  · rw [Scenario.snapshot_histogram (h.series?_of_lt hh), Family.update_of_lt hh]
    exact ⟨h.put hh _, rfl⟩
  · rw [Scenario.snapshot, h.series?_of_le (Nat.not_lt.mp hh), Family.update_of_le (Nat.not_lt.mp hh)]
    exact ⟨h, rfl⟩

theorem Shown.snapshots (h : Shown i e s f) (points : List (LabelSet × Nat)) (taken : List (Point HistogramSnapshot)) :
    Shown i e (s.snapshots i points).1
      { f with family := (points.foldl (Family.takeOne Series.collect) (f.family, taken)).1 } := by
  induction points generalizing s f taken with
  | nil => exact h
  | cons point rest ih =>
    obtain ⟨hs,hr⟩ := h.snapshot point.2
    rw [Scenario.snapshots]
    generalize s.snapshot ⟨i, point.2⟩ = r at hs hr
    obtain ⟨s',r⟩ := r
    have hrest := ih hs (Family.takeOne Series.collect (f.family, taken) point).2
    -- The snapshot of a histogram never fails, so the scenario goes on as the family does.
    cases hu : (f.family.update point.2 Series.collect).2 with
    | none =>
      rw [hu] at hr
      cases hr
      exact hrest
    | some snapshot =>
      rw [hu] at hr
      cases hr
      exact hrest

theorem Shown.lookup (h : Shown i e s f) (hl : Logging config e) (now : Time) (values : List String) (strict : Bool) :
    Shown i e (s.act i (.lookup now values strict)) (step config (samplerOf e) f (.lookup now values strict)) := by
  have hclock := h.clock now
  have hobtained : (entryOf e f.family).family.obtain (Series.new config (samplerOf e) now values).held values = _ :=
    Family.obtain_map Series.held (Series.new config (samplerOf e) now values) values f.family
  rw [Scenario.act, Scenario.after_get hclock.entry hl.family, Scenario.now_clock, hl.fresh, hobtained]
  cases ho : f.family.obtain (Series.new config (samplerOf e) now values) values with
  | ok r =>
    have hcall : f.call config (samplerOf e) (.lookup now values strict) = (r.1, ⟨.found r.2.1, r.2.2⟩) := by
      rw [call, Act.call, Family.call, ho]
    rw [step_eq_reported hcall rfl]
    exact hclock.announce hl r.1 r.2.2
  | error refusal =>
    have hcall : f.call config (samplerOf e) (.lookup now values strict) =
        (f.family, ⟨.refused (.ofError strict refusal), []⟩) := by
      rw [call, Act.call, Family.call, ho]
    rw [step_eq_reported hcall rfl]
    simpa [reported, Except.map] using hclock

theorem Shown.remove (h : Shown i e s f) (hl : Logging config e) (values : List String) :
    Shown i e (s.act i (.remove values)) (step config (samplerOf e) f (.remove values)) := by
  have hannounced := h.announce hl (f.family.remove values).1 (f.family.remove values).2.2
  have hremoved : (entryOf e f.family).family.remove values = _ := Family.remove_map Series.held values f.family
  rw [Scenario.act, Scenario.after_remove h.entry hl.family, hremoved, step_eq_reported rfl rfl]
  exact hannounced

theorem Shown.clear (h : Shown i e s f) (hl : Logging config e) :
    Shown i e (s.act i .clear) (step config (samplerOf e) f .clear) := by
  rw [Scenario.act, Scenario.after_reset h.entry hl.family, step_eq_reported rfl rfl]
  exact h.announce hl f.family.clear.1 f.family.clear.2

theorem Shown.collect (h : Shown i e s f) (hl : Logging config e) (now : Time) :
    Shown i e (s.act i (.collect now)) (step config (samplerOf e) f (.collect now)) := by
  have hclock := h.clock now
  have hprepared : (entryOf e f.family).family.prepare (Series.new config (samplerOf e) now []).held = _ :=
    Family.prepare_map Series.held (Series.new config (samplerOf e) now []) f.family
  have htaken := (hclock.announce hl (f.family.prepare (Series.new config (samplerOf e) now [])).1
    (f.family.prepare (Series.new config (samplerOf e) now [])).2).snapshots
    (f.family.prepare (Series.new config (samplerOf e) now [])).1.points []
  rw [Scenario.act, Scenario.after_collect hclock.entry hl.family, Scenario.collect, Scenario.now_clock, hl.fresh,
    hprepared, step_eq_reported rfl rfl]
  dsimp only [Act.call, Family.call]
  rw [Family.collect_eq]
  exact htaken

theorem Shown.observe (h : Shown i e s f) (hl : Logging config e) (handle : Nat) (now : Time) (v : Float)
    (tag : Option Tag) :
    Shown i e (s.act i (.use handle (.observe now v tag)))
      (step config (samplerOf e) f (.use handle (.observe now v tag))) := by
  have hclock := h.clock now
  rw [Scenario.act, Scenario.after_observeAll]
  by_cases hh : handle < f.family.made.size
  · have hput := hclock.put hh (f.family.made[handle].histogram.observe now v tag).1
    rw [Scenario.observe_quiet (t := ⟨i, handle⟩) hclock.quiet hclock.entry hl.logged (hclock.series?_of_lt hh),
      Scenario.now_clock, step_use hh]
    refine ⟨hput.quiet, hput.entry, ?_⟩
    rw [Array.toList_append, hclock.journal, List.map_append, map_record_own]
    rfl
  · rw [Scenario.observe_absent (hclock.series?_of_le (Nat.not_lt.mp hh)), step_use_absent (Nat.not_lt.mp hh)]
    exact hclock

theorem Shown.take (h : Shown i e s f) (handle : Nat) :
    Shown i e (s.act i (.use handle .collect)) (step config (samplerOf e) f (.use handle .collect)) := by
  obtain ⟨htaken,_⟩ := h.snapshot handle
  rw [Scenario.act, Scenario.after_snapshot]
  by_cases hh : handle < f.family.made.size
  · rw [Family.update_of_lt hh] at htaken
    rw [step_use hh]
    simpa [Series.collect, Histogram.call, Histogram.Answer.upkeep] using htaken
  · rw [Family.update_of_le (Nat.not_lt.mp hh)] at htaken
    rw [step_use_absent (Nat.not_lt.mp hh)]
    exact htaken

theorem Shown.act (h : Shown i e s f) (hl : Logging config e) (a : Act) :
    Shown i e (s.act i a) (step config (samplerOf e) f a) := by
  cases a with
  | lookup now values strict => exact h.lookup hl now values strict
  | remove values => exact h.remove hl values
  | clear => exact h.clear hl
  | collect now => exact h.collect hl now
  | use handle act =>
    cases act with
    | observe now v tag => exact h.observe hl handle now v tag
    | collect => exact h.take handle

theorem Shown.acts (h : Shown i e s f) (hl : Logging config e) (acts : List Act) :
    Shown i e (acts.foldl (fun s a => s.act i a) s) (acts.foldl (step config (samplerOf e)) f) := by
  induction acts generalizing s f with
  | nil => exact h
  | cons a rest ih => exact ih (h.act hl a)

/-- An entry that was asked for as a family of histograms that write to the journal. -/
theorem shown_start {requests : List Scenario.Request} {r : Scenario.Request} {o : HistogramOptions} {d : Description}
    (hr : requests[i]? = some r) (hfamily : r.standalone = false) (hlogged : r.logged = true)
    (hspecification : r.specification = .histogram o) (ho : o.config = .ok config)
    (hd : r.specification.describe r.labels = .ok d) (now : Time) :
    ∃ e, Logging config e ∧ samplerOf e = (if r.sampled then some {} else none) ∧
      Shown i e (Scenario.start now requests) { family := { description := d } } := by
  have hblueprint : r.specification.blueprint = .ok (.histogram config) := by
    rw [hspecification, Specification.blueprint, ho]
    rfl
  let e : Entry :=
    { specification := r.specification, blueprint := .histogram config, family := { description := d }
      standalone := false, sampled := r.sampled, logged := true }
  have hentry : Entry.ofRequest now r = .ok e := by
    simp [Entry.ofRequest, hfamily, hlogged, hd, hblueprint, Bind.bind, Except.bind, Pure.pure, Except.pure, e]
  refine ⟨e, ⟨rfl, rfl, rfl⟩, rfl, rfl, ?_, rfl⟩
  rw [Scenario.entryAt?_eq_some, Scenario.start]
  simp [hr, hentry, entryOf, Family.map, e]

theorem follow_series (listed : Finset String) (metric : String) (values : List String) (e : Histogram.Event) :
    Family.follow listed (e.record metric values) = listed := by
  cases e <;> rfl

theorem follow_written {σ : Type} [Sampler σ] (config : HistogramConfig) (sampler : Option σ) (a : Act)
    (s : HistogramFamily σ) (listed : Finset String) :
    ((written (s.call config sampler a).2.answer).map Line.record).foldl Family.follow listed = listed := by
  cases a with
  | lookup now values strict =>
    rw [call, Act.call, Family.call]
    cases s.family.obtain (Series.new config sampler now values) values <;> rfl
  | use handle act =>
    rw [call, Act.call, Family.call]
    by_cases hh : handle < s.family.made.size
    · rw [Family.update_of_lt hh, written, Series.call, List.foldl_map, List.foldl_map, List.foldl_map]
      exact List.foldl_fixed' (follow_series listed _ _) _
    · rw [Family.update_of_le (Nat.not_lt.mp hh)]
      rfl
  | _ => rfl

/-- Whoever follows all records, without knowing who wrote them, has the live tuples. -/
theorem follow_run {σ : Type} [Sampler σ] (config : HistogramConfig) (sampler : Option σ) (d : Description)
    (acts : List Act) :
    ((run config sampler d acts).journal.map Line.record).foldl Family.follow ∅ =
      (run config sampler d acts).family.tuples.toFinset.image Text.quoteList := by
  have hown : ((run config sampler d acts).journal.map Line.record).foldl Family.follow ∅ =
      (recordsOf none (run config sampler d acts).journal).foldl Family.follow ∅ := by
    -- By induction on the calls; whatever a series writes is passed over.
    induction acts using List.reverseRecOn with
    | nil => rfl
    | append_singleton acts a ih =>
      rw [run_snoc, recordsOf_step_none (sound_run config sampler d acts).1, List.foldl_append, ← ih, step, lines,
        List.map_append, List.map_append, List.foldl_append, List.foldl_append, follow_written, map_record_own]
  rw [hown]
  exact (sound_run config sampler d acts).1.eq_image (lists_run config sampler d acts)

/-- Working on a family of histograms as long as nothing arrives, a scenario writes what the loggers of the family
and of its series write. Whoever follows the journal of the scenario has the live tuples. -/
theorem journal_shown {requests : List Scenario.Request} {r : Scenario.Request} {o : HistogramOptions} {d : Description}
    (hr : requests[i]? = some r) (hfamily : r.standalone = false) (hlogged : r.logged = true)
    (hspecification : r.specification = .histogram o) (ho : o.config = .ok config)
    (hd : r.specification.describe r.labels = .ok d) (now : Time) (acts : List Act) :
    let s := acts.foldl (fun s a => s.act i a) (Scenario.start now requests)
    let f := run config (if r.sampled then some {} else none) d acts
    s.journal.toList = f.journal.map Line.record ∧
      ∃ e, s.entryAt? i = some e ∧ e.family = f.family.map Series.held ∧
        s.journal.toList.foldl Family.follow ∅ = e.family.tuples.toFinset.image Text.quoteList := by
  intro s f
  obtain ⟨e,hl,hsampler,hstart⟩ := shown_start hr hfamily hlogged hspecification ho hd now
  have hrun : Shown i e s f := by
    have hacts := hstart.acts hl acts
    rw [hsampler] at hacts
    exact hacts
  refine ⟨hrun.journal, _, hrun.entry, rfl, ?_⟩
  rw [hrun.journal]
  exact follow_run config _ d acts

def pathRequest : Scenario.Request :=
  { specification := .histogram { HistogramOptions.restlessOptions with common := { name := "latency", help := "Time taken." } }
    labels := ["path"]
    logged := true }

example : (pathRun.foldl (fun s a => s.act 0 a) (Scenario.start 0 [pathRequest])).journal.toList.map Record.message =
    ["creating series", "widened native zero bucket", "removed series", "creating series"] := by
  decide +kernel

end HistogramFamily
end Metering
