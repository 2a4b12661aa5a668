import Metering.Proofs.Family.Listing
import Metering.Proofs.Histogram.Journal

/-! # The journal of a histogram family

The family and all of its series write to one journal, each through a logger of its own. At any time the
family's records tell which tuples are live, and the records of a series, also of one that has ended, tell its
schema and its zero threshold.
-/
namespace Metering

namespace HistogramFamily

structure Series (σ : Type) where
  values : List String
  histogram : Histogram σ

variable {σ : Type} [Sampler σ]

namespace Series

def new (config : HistogramConfig) (sampler : Option σ) (now : Time) (values : List String) : Series σ :=
  { values, histogram := .new config now sampler }

def collect (s : Series σ) : Series σ × HistogramSnapshot :=
  ({ s with histogram := s.histogram.collect.1 }, s.histogram.collect.2)

def call (metric : String) (logger : Option Nat) (act : Histogram.Act) (s : Series σ) : Series σ × List Line :=
  ({ s with histogram := (s.histogram.call act).1 },
    ((s.histogram.call act).2.upkeep.map (·.record metric s.values)).map (Line.mk logger))

end Series

/-- A call on a family, or through the handle of a series, which may have ended. -/
inductive Act
  | lookup (now : Time) (values : List String) (strict : Bool)
  | remove (values : List String)
  | clear
  | collect (now : Time)
  | use (handle : Nat) (act : Histogram.Act)

/-- What a call does to the series behind a handle: at most it takes a snapshot of it, unless it is one
through this handle. -/
def Act.on (i : Nat) : Act → Histogram.Act
  | .use handle act => if handle = i then act else .collect
  | _ => .collect

def Act.call (config : HistogramConfig) (sampler : Option σ) (metric : String) :
    Act → Family.Act (Series σ) (List Line)
  | .lookup now values strict => .lookup (.new config sampler now values) values strict
  | .remove values => .remove values
  | .clear => .clear
  | .collect now => .collect (.new config sampler now [])
  | .use handle act => .use handle (·.call metric (some handle) act)

def written : Family.Answer (List Line) HistogramSnapshot → List Line
  | .used (some lines) => lines
  | _ => []

/-- All that is written during a call: what the family reports, or what a series does. -/
def lines (metric : String) (o : Family.Outcome (List Line) HistogramSnapshot) : List Line :=
  (o.events.map (·.record metric)).map (Line.mk none) ++ written o.answer

end HistogramFamily

open HistogramFamily

/-- A family of histograms and the journal that all of its loggers write to. -/
structure HistogramFamily (σ : Type) where
  family : Family (Series σ)
  journal : List Line := []

namespace HistogramFamily
open HistogramOptions (restlessConfig restlessNative config_restless)

variable {σ : Type} [Sampler σ]

def call (config : HistogramConfig) (sampler : Option σ) (a : Act) (s : HistogramFamily σ) :
    Family (Series σ) × Family.Outcome (List Line) HistogramSnapshot :=
  s.family.call Series.collect (a.call config sampler s.family.description.fullName)

def step (config : HistogramConfig) (sampler : Option σ) (s : HistogramFamily σ) (a : Act) : HistogramFamily σ where
  family := (s.call config sampler a).1
  journal := s.journal ++ lines s.family.description.fullName (s.call config sampler a).2

def run (config : HistogramConfig) (sampler : Option σ) (d : Description) (acts : List Act) : HistogramFamily σ :=
  acts.foldl (step config sampler) { family := { description := d } }

variable {config : HistogramConfig} {sampler : Option σ} {metric : String} {d : Description} {i : Nat} {a : Act}
  {s : HistogramFamily σ} {acts : List Act}

theorem on_use (i : Nat) (act : Histogram.Act) : (Act.use i act).on i = act :=
  if_pos rfl

theorem on_use_other {handle : Nat} (hne : handle ≠ i) (act : Histogram.Act) : (Act.use handle act).on i = .collect :=
  if_neg hne

/-- What a call does to the series behind a handle, and what the logger of this series writes. -/
inductive Lived (config : HistogramConfig) (sampler : Option σ) (metric : String) (i : Nat) (a : Act) :
    Option (Series σ) → Option (Series σ) → List Record → Prop
  | absent : Lived config sampler metric i a none none []
  | made {now : Time} {values : List String} :
      Lived config sampler metric i a none (some (.new config sampler now values)) []
  | taken {now : Time} {values : List String} :
      Lived config sampler metric i a none (some (Series.new config sampler now values).collect.1) []
  | kept {x : Series σ} (ha : a.on i = .collect) : Lived config sampler metric i a (some x) (some x) []
  | called {x : Series σ} : Lived config sampler metric i a (some x)
      (some { x with histogram := (x.histogram.call (a.on i)).1 })
      ((x.histogram.call (a.on i)).2.upkeep.map (·.record metric x.values))

theorem Lived.same (ha : a.on i = .collect) (x : Option (Series σ)) : Lived config sampler metric i a x x [] := by
  cases x with
  | none => exact .absent
  | some x => exact .kept ha

theorem Lived.collected (ha : a.on i = .collect) (x : Series σ) :
    Lived config sampler metric i a (some x) (some x.collect.1) [] := by
  have hcalled := @Lived.called _ _ config sampler metric i a x
  rw [ha] at hcalled
  exact hcalled

omit [Sampler σ] in
theorem getElem?_start (fresh : Series σ) (v : List String) (m : Family.Directory (Series σ)) (i : Nat) :
    (m.start fresh v).made[i]? = if i = m.made.size then some fresh else m.made[i]? := by
  simp [Family.Directory.start, Array.getElem?_push]

theorem lived_collected {m n : Family.Directory (Series σ)} {points : List (Point HistogramSnapshot)}
    (hc : Family.Directory.Collected d Series.collect m n points) (ha : a.on i = .collect) :
    Lived config sampler metric i a m.made[i]? n.made[i]? [] := by
  by_cases hlive : ∃ v, m.reach v = some i
  · obtain ⟨v,hv⟩ := hlive
    cases hx : m.made[i]? with
    | none =>
      have hout : n.made[i]? = none := by
        rw [Array.getElem?_eq_none_iff] at hx ⊢
        rw [hc.size]
        exact hx
      rw [hout]
      exact .absent
    | some x =>
      rw [hc.live v i x hv hx]
      exact .collected ha x
  · rw [hc.rest i (not_exists.mp hlive)]
    exact .same ha _

theorem lived (hs : Family.Sound s.family) (config : HistogramConfig) (sampler : Option σ) (i : Nat) (a : Act) :
    Lived config sampler s.family.description.fullName i a s.family.made[i]? (step config sampler s a).family.made[i]?
      (recordsOf (some i) (written (s.call config sampler a).2.answer)) := by
  have hstep := hs.step Series.collect (a.call config sampler s.family.description.fullName)
  change Lived _ _ _ _ _ s.family.directory.made[i]? (s.call config sampler a).1.directory.made[i]? _
  change Family.Directory.Step _ _ _ _ (s.call config sampler a).1.directory (s.call config sampler a).2 at hstep
  -- Nothing but the step of the directory is left of the call.
  generalize (s.call config sampler a).1.directory = n at hstep ⊢
  generalize (s.call config sampler a).2 = o at hstep ⊢
  generalize s.family.directory = m at hstep ⊢
  cases a with
  | lookup now values strict =>
    cases hstep with
    | known hlen hv => exact .same rfl _
    | started hlen hv =>
      rw [getElem?_start]
      split
      next hi =>
        subst hi
        rw [Array.getElem?_eq_none (Nat.le_refl _)]
        exact .made
      next => exact .same rfl _
    | refused hlen => exact .same rfl _
  | remove values =>
    cases hstep with
    | removed hv => exact .same rfl _
    | absent hv => exact .same rfl _
  | clear =>
    cases hstep
    exact .same rfl _
  | collect now =>
    cases hstep with
    | collected hopen hc => exact lived_collected hc rfl
    | begun hlabels hnone hc =>
      by_cases hi : i = m.made.size
      · subst hi
        rw [Array.getElem?_eq_none (Nat.le_refl _),
          hc.live [] m.made.size _ (by simp [Family.Directory.start]) (by rw [getElem?_start, if_pos rfl])]
        exact .taken
      · have hlived : Lived config sampler s.family.description.fullName i (.collect now) _ n.made[i]? [] :=
          lived_collected hc rfl
        rw [getElem?_start, if_neg hi] at hlived
        exact hlived
  | use handle act =>
    cases hstep with
    | unused hh =>
      by_cases hi : handle = i
      · subst hi
        rw [Array.getElem?_eq_none hh]
        exact .absent
      · exact .same (on_use_other hi act) _
    | used hh =>
      dsimp only
      rw [Array.getElem?_set]
      split
      next hi =>
        subst hi
        have hcalled := @Lived.called _ _ config sampler s.family.description.fullName handle (.use handle act) m.made[handle]
        rw [on_use] at hcalled
        rw [Array.getElem?_eq_getElem hh]
        change Lived _ _ _ _ _ _ _ (recordsOf (some handle) (List.map (Line.mk (some handle)) _))
        rw [recordsOf_own]
        exact hcalled
      next hi =>
        change Lived _ _ _ _ _ _ _ (recordsOf (some i) (List.map (Line.mk (some handle)) _))
        rw [recordsOf_other (by simpa using hi)]
        exact .same (on_use_other hi act) _

/-- What holds of the series behind a handle and of the records of its logger. -/
def Known (config : HistogramConfig) (metric : String) (counted : Nat) : Option (Series σ) → List Record → Prop
  | none, records => records = []
  | some x, records => Histogram.Regular config x.histogram ∧ x.histogram.count ≤ counted ∧
    ∃ events, records = events.map (·.record metric x.values) ∧ Histogram.Told config x.histogram events

variable {counted : Nat} {x y : Option (Series σ)} {records more : List Record}

omit [Sampler σ] in
theorem known_new (hacc : config.Accepted) (now : Time) (values : List String) :
    Known config metric counted (some (.new config sampler now values)) [] :=
  ⟨Histogram.regular_new hacc now sampler, Nat.zero_le _, [], rfl, Histogram.told_new config now sampler⟩

omit [Sampler σ] in
theorem Known.mono {counted' : Nat} (hk : Known config metric counted x records) (hle : counted ≤ counted') :
    Known config metric counted' x records := by
  cases x with
  | none => exact hk
  | some u => exact ⟨hk.1, Nat.le_trans hk.2.1 hle, hk.2.2⟩

/-- A call keeps the reader of a series up to date, and what is written meanwhile says what it did. -/
theorem Known.called {u : Series σ} (hacc : config.Accepted) (hk : Known config metric counted (some u) records)
    (act : Histogram.Act) (hroom : counted + [act].countP Histogram.Act.counts < 2 ^ 63) :
    Known config metric (counted + [act].countP Histogram.Act.counts)
        (some { u with histogram := (u.histogram.call act).1 })
        (records ++ (u.histogram.call act).2.upkeep.map (·.record metric u.values)) ∧
      Histogram.Explained act u.histogram (u.histogram.call act).1 (u.histogram.call act).2.upkeep := by
  obtain ⟨hr,hcount,events,rfl,htold⟩ := hk
  obtain ⟨hr',hcount',hexplained,hkeep⟩ := hr.call (a := act) hacc (by omega)
  refine ⟨⟨hr', by dsimp only; omega, _, ?_, hkeep events htold⟩, hexplained⟩
  rw [List.map_append]

theorem Known.collected {u : Series σ} (hacc : config.Accepted) (hk : Known config metric counted (some u) records)
    (hroom : counted < 2 ^ 63) : Known config metric counted (some u.collect.1) records := by
  have hcalled := (hk.called hacc .collect hroom).1
  rw [← List.append_nil records]
  exact hcalled

theorem Lived.known (hacc : config.Accepted) (hl : Lived config sampler metric i a x y more)
    (hk : Known config metric counted x records)
    (hroom : counted + [a.on i].countP Histogram.Act.counts < 2 ^ 63) :
    Known config metric (counted + [a.on i].countP Histogram.Act.counts) y (records ++ more) := by
  cases hl with
  | absent =>
    rw [List.append_nil]
    exact hk
  | made =>
    rw [show records = [] from hk]
    exact known_new hacc _ _
  | taken =>
    rw [show records = [] from hk]
    exact (known_new hacc _ _).collected hacc hroom
  | kept ha =>
    rw [List.append_nil]
    exact hk.mono (Nat.le_add_right _ _)
  | called => exact (hk.called hacc _ hroom).1

theorem Lived.explained {u : Series σ} (hacc : config.Accepted) (hl : Lived config sampler metric i a (some u) y more)
    (hk : Known config metric counted (some u) records)
    (hroom : counted + [a.on i].countP Histogram.Act.counts < 2 ^ 63) :
    ∃ u' events, y = some u' ∧ u'.values = u.values ∧ more = events.map (·.record metric u.values) ∧
      Histogram.Explained (a.on i) u.histogram u'.histogram events := by
  cases hl with
  | kept ha =>
    refine ⟨u, [], rfl, rfl, rfl, Histogram.explained_nil (by simp [ha, Histogram.Act.counts]) ?_⟩
    intro n hn n' hn'
    cases hn.symm.trans hn'
    exact ⟨rfl, rfl⟩
  | called => exact ⟨_, _, rfl, rfl, rfl, (hk.called hacc _ hroom).2⟩

theorem recordsOf_none_written (hs : Family.Sound s.family) (config : HistogramConfig) (sampler : Option σ) (a : Act) :
    recordsOf none (written (s.call config sampler a).2.answer) = [] := by
  have hstep := hs.step Series.collect (a.call config sampler s.family.description.fullName)
  change Family.Directory.Step _ _ _ _ (s.call config sampler a).1.directory (s.call config sampler a).2 at hstep
  generalize (s.call config sampler a).1.directory = n at hstep
  generalize (s.call config sampler a).2 = o at hstep ⊢
  cases a with
  | use handle act =>
    cases hstep with
    | used hh => exact recordsOf_other (by simp) _
    | unused hh => rfl
  | _ => cases hstep <;> rfl

theorem recordsOf_step_none (hs : Family.Sound s.family) (config : HistogramConfig) (sampler : Option σ) (a : Act) :
    recordsOf none (step config sampler s a).journal =
      recordsOf none s.journal ++ (s.call config sampler a).2.events.map (·.record s.family.description.fullName) := by
  rw [step, recordsOf_append, lines, recordsOf_append, recordsOf_own, recordsOf_none_written hs, List.append_nil]

theorem recordsOf_step_some (config : HistogramConfig) (sampler : Option σ) (s : HistogramFamily σ) (a : Act) (i : Nat) :
    recordsOf (some i) (step config sampler s a).journal =
      recordsOf (some i) s.journal ++ recordsOf (some i) (written (s.call config sampler a).2.answer) := by
  rw [step, recordsOf_append, lines, recordsOf_append, recordsOf_other (by simp), List.nil_append]

theorem run_snoc (config : HistogramConfig) (sampler : Option σ) (d : Description) (acts : List Act) (a : Act) :
    run config sampler d (acts ++ [a]) = step config sampler (run config sampler d acts) a :=
  List.foldl_append

theorem sound_run (config : HistogramConfig) (sampler : Option σ) (d : Description) (acts : List Act) :
    Family.Sound (run config sampler d acts).family ∧ (run config sampler d acts).family.description = d := by
  induction acts using List.reverseRecOn with
  | nil => exact ⟨Family.sound_new d, rfl⟩
  | append_singleton acts a ih =>
    obtain ⟨hs,hd⟩ := ih
    obtain ⟨hs',hd'⟩ := hs.call Series.collect (a.call config sampler (run config sampler d acts).family.description.fullName)
    rw [run_snoc]
    exact ⟨hs', hd'.trans hd⟩

theorem lists_run (config : HistogramConfig) (sampler : Option σ) (d : Description) (acts : List Act) :
    Family.Lists (run config sampler d acts).family.directory
      ((recordsOf none (run config sampler d acts).journal).foldl Family.follow ∅) := by
  induction acts using List.reverseRecOn with
  | nil => exact Family.lists_new d
  | append_singleton acts a ih =>
    obtain ⟨hs,hd⟩ := sound_run config sampler d acts
    have hstep := ih.step (hs.step Series.collect
      (a.call config sampler (run config sampler d acts).family.description.fullName))
    rw [run_snoc, recordsOf_step_none hs, List.foldl_append, List.foldl_map]
    simp only [Family.follow_record]
    exact hstep

theorem known_run (hacc : config.Accepted) (sampler : Option σ) (d : Description)
    (hroom : (acts.map (Act.on i)).countP Histogram.Act.counts < 2 ^ 63) :
    Known config d.fullName ((acts.map (Act.on i)).countP Histogram.Act.counts)
      (run config sampler d acts).family.made[i]? (recordsOf (some i) (run config sampler d acts).journal) := by
  induction acts using List.reverseRecOn with
  | nil => rfl
  | append_singleton acts a ih =>
    rw [List.map_append, List.countP_append] at hroom ⊢
    obtain ⟨hs,hd⟩ := sound_run config sampler d acts
    have hl := lived hs config sampler i a
    rw [hd] at hl
    rw [run_snoc, recordsOf_step_some]
    exact hl.known hacc (ih (by omega)) hroom

/-- Folding the records that a family wrote gives the live tuples, and folding those of a series gives the schema
and the zero threshold of its snapshot, at any time of any run. A call writes a record for every change of these
and none without one: a new set of tuples, a new schema or a new threshold is written once, a widening comes
with a bucket that is folded into the zero bucket, and a reset is all that is written of a call. A series is
followed while it counts fewer than `2 ^ 63` values, as many as its buffer can count beside the paused flag. -/
theorem journal_faithful {o : HistogramOptions} (ho : o.config = .ok config) (sampler : Option σ)
    (d : Description) (acts : List Act) :
    let s := run config sampler d acts
    Function.Injective Text.quoteList ∧
    (recordsOf none s.journal).foldl Family.follow ∅ = s.family.tuples.toFinset.image Text.quoteList ∧
    (∀ i x, s.family.made[i]? = some x → (acts.map (Act.on i)).countP Histogram.Act.counts < 2 ^ 63 →
      ∀ c ∈ config.native, ∃ n ∈ x.histogram.collect.2.native,
        (recordsOf (some i) s.journal).foldl c.resolution.follow c.resolution = n.resolution) ∧
    ∀ a, let s' := step config sampler s a
      (∃ events, recordsOf none s'.journal = recordsOf none s.journal ++ events.map (·.record d.fullName) ∧
        Family.Explained s.family s'.family events) ∧
      ∀ i x, s.family.made[i]? = some x →
        ((acts ++ [a]).map (Act.on i)).countP Histogram.Act.counts < 2 ^ 63 →
        ∃ x' events, s'.family.made[i]? = some x' ∧ x'.values = x.values ∧
          recordsOf (some i) s'.journal = recordsOf (some i) s.journal ++ events.map (·.record d.fullName x.values) ∧
          Histogram.Explained (a.on i) x.histogram x'.histogram events := by
  intro s
  have hacc := HistogramOptions.config_accepted ho
  obtain ⟨hs,hd⟩ := sound_run config sampler d acts
  refine ⟨Text.quoteList_injective, hs.eq_image (lists_run config sampler d acts), ?_, ?_⟩
  · intro i x hx hroom c hc
    have hknown := known_run hacc sampler d hroom
    rw [show (run config sampler d acts).family.made[i]? = some x from hx] at hknown
    obtain ⟨hr,_,events,hrecords,htold⟩ := hknown
    obtain ⟨n,hn,hfold⟩ := htold.report hr.toSettled c hc
    refine ⟨n, hn, ?_⟩
    change (recordsOf (some i) (run config sampler d acts).journal).foldl _ _ = _
    rw [hrecords, List.foldl_map]
    simp only [Histogram.Resolution.follow_record]
    exact hfold
  · intro a s'
    constructor
    · refine ⟨_, ?_, hs.explained Series.collect _⟩
      have hrecords := recordsOf_step_none hs config sampler a
      rw [hd] at hrecords
      exact hrecords
    · intro i x hx hroom
      rw [List.map_append, List.countP_append] at hroom
      have hbefore : (acts.map (Act.on i)).countP Histogram.Act.counts < 2 ^ 63 := by omega
      have hknown := known_run hacc sampler d hbefore
      have hl := lived hs config sampler i a
      rw [show (run config sampler d acts).family.made[i]? = some x from hx] at hknown hl
      rw [hd] at hl
      obtain ⟨x',events,hx',hvalues,hmore,hexplained⟩ := hl.explained hacc hknown hroom
      refine ⟨x', events, hx', hvalues, ?_, hexplained⟩
      rw [← hmore]
      exact recordsOf_step_some config sampler s a i

def byPath : Description :=
  { fullName := "latency", help := "", constLabels := {}, variableLabels := ["path"] }

/-- The first series widens its zero bucket and ends; a second one starts. -/
def pathRun : List Act :=
  [.lookup 0 ["/a"] true, .use 0 (.observe 0 1 none), .use 0 (.observe 1 4 none), .remove ["/a"],
    .lookup 2 ["/b"] false, .collect 3]

/-- The records of the series that has ended tell its resolution, and what resets it then is written. -/
theorem journal_faithful_byPath :
    let s := run restlessConfig Histogram.unsampled byPath pathRun
    let s' := step restlessConfig Histogram.unsampled s (.use 0 (.observe 20 6 none))
    (recordsOf none s.journal).foldl Family.follow ∅ = {Text.quoteList ["/b"]} ∧
    ∃ x ∈ s.family.made[0]?,
      (∃ n ∈ x.histogram.collect.2.native, (recordsOf (some 0) s.journal).foldl restlessNative.resolution.follow
        restlessNative.resolution = n.resolution) ∧
      ∃ x' ∈ s'.family.made[0]?, ∃ events,
        recordsOf (some 0) s'.journal = recordsOf (some 0) s.journal ++ events.map (·.record "latency" x.values) ∧
          Histogram.Explained (.observe 20 6 none) x.histogram x'.histogram events := by
  intro s s'
  have hroom : ((pathRun ++ [Act.use 0 (.observe 20 6 none)]).map (Act.on 0)).countP Histogram.Act.counts < 2 ^ 63 := by
    decide +kernel
  have htuples : (run restlessConfig Histogram.unsampled byPath pathRun).family.tuples = [["/b"]] := by decide +kernel
  have hsome : (run restlessConfig Histogram.unsampled byPath pathRun).family.made[0]?.isSome = true := by decide +kernel
  obtain ⟨x,hx⟩ := Option.isSome_iff_exists.mp hsome
  obtain ⟨_,hlive,hfold,hstep⟩ := journal_faithful config_restless Histogram.unsampled byPath pathRun
  refine ⟨?_, x, hx, hfold 0 x hx (by decide +kernel) restlessNative rfl, ?_⟩
  · rw [htuples] at hlive
    exact hlive
  · obtain ⟨x',events,hx',_,hrecords,hexplained⟩ := (hstep (.use 0 (.observe 20 6 none))).2 0 x hx hroom
    exact ⟨x', hx', events, hrecords, hexplained⟩

end HistogramFamily
end Metering
