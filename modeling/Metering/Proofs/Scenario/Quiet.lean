import Metering.Proofs.Buffer.Quiet
import Metering.Proofs.Family.Calls

/-! # Scenarios in which nothing arrives

As long as no value waits for a record, records are only added to the journal. What a family or a histogram
reports is then written in order, and the histogram is as it would be if its reports were only noted.
-/
namespace Metering

namespace Histogram
variable {σ ω ω' : Type} {report : Report σ ω} {report' : Report σ ω'} {related : ω → ω' → Prop} {w : ω} {w' : ω'}

/-- The same histogram in worlds that are related. -/
def Beside (related : ω → ω' → Prop) (x : Histogram σ × ω) (y : Histogram σ × ω') : Prop :=
  y.1 = x.1 ∧ related x.2 y.2

/-- Reports that keep worlds related. -/
def Matching (related : ω → ω' → Prop) (report : Report σ ω) (report' : Report σ ω') : Prop :=
  ∀ e x y, Beside related x y → Beside related (report e x) (report' e y)

theorem Matching.shrink (hm : Matching related report report') (h : Histogram σ) (hw : related w w') :
    Beside related (shrink report (h, w)) (shrink report' (h, w')) := by
  rw [Histogram.shrink, Histogram.shrink]
  dsimp only
  split
  · exact ⟨rfl, hw⟩
  · split
    · exact hm _ _ _ ⟨rfl, hw⟩
    · split
      · split
        · exact hm _ _ _ (hm _ _ _ ⟨rfl, hw⟩)
        · exact hm _ _ _ ⟨rfl, hw⟩
      · exact ⟨rfl, hw⟩

variable [Sampler σ]

theorem Matching.perform (hm : Matching related report report') (now : Time) (u : Upkeep) (h : Histogram σ)
    (hw : related w w') : Beside related (perform report now (h, w) u) (perform report' now (h, w') u) := by
  cases u with
  | reset => exact hm _ _ _ ⟨rfl, hw⟩
  | shrink => exact hm.shrink h hw

theorem Matching.maintain (hm : Matching related report report') (now : Time) (u : Upkeep) (h : Histogram σ)
    (hw : related w w') : Beside related (maintain report now u (h, w)) (maintain report' now u (h, w')) := by
  refine (exclusively_rel (Beside related) (fun _ _ => True) ?_ ?_ ?_ ?_ ⟨rfl, hw⟩).1
  · rintro ⟨g,w⟩ ⟨g',w'⟩ ⟨rfl,_⟩
    rfl
  · rintro b ⟨g,w⟩ ⟨g',w'⟩ ⟨rfl,hw⟩
    exact ⟨rfl, hw⟩
  · rintro start ⟨g,w⟩ ⟨g',w'⟩ ⟨rfl,hw⟩
    exact ⟨hm.perform now u _ hw, trivial⟩
  · rintro v ⟨g,w⟩ ⟨g',w'⟩ ⟨rfl,hw⟩
    exact ⟨rfl, hw⟩

theorem Matching.applyAnnounced (hm : Matching related report report') (now : Time) (v : Float) (h : Histogram σ)
    (hw : related w w') :
    Beside related (applyAnnounced report now v (h, w)) (applyAnnounced report' now v (h, w')) := by
  rw [Histogram.applyAnnounced, Histogram.applyAnnounced]
  dsimp only
  split
  · exact ⟨rfl, hw⟩
  · rename_i u hu
    obtain ⟨heq,hw'⟩ := hm.maintain now u (h.apply v).1 hw
    rw [heq]
    split
    · exact ⟨rfl, hw'⟩
    · exact ⟨rfl, hw'⟩

/-- What an observation does to a histogram does not depend on where its upkeep is reported. -/
theorem Matching.observeAmid (hm : Matching related report report') (now : Time) (v : Float) (tag : Option Tag)
    (h : Histogram σ) (hw : related w w') :
    Beside related (observeAmid report now v tag (h, w)) (observeAmid report' now v tag (h, w')) := by
  rw [Histogram.observeAmid, Histogram.observeAmid]
  split
  · exact ⟨rfl, hw⟩
  · dsimp only
    split
    · exact ⟨rfl, hw⟩
    · obtain ⟨heq,hw'⟩ := hm.applyAnnounced now v { h with buffer := (h.buffer.append v).1 } hw
      exact ⟨by rw [heq], hw'⟩

end Histogram

namespace Scenario
variable {s s' : Scenario} {t : Target} {e : Entry} {observe : Target → Float → Scenario → Scenario}

theorem write_quiet (hs : s.arrivals = []) (r : Record) :
    s.write observe r = { s with journal := s.journal.push r } := by
  simp [write, hs]

theorem announce_quiet (hs : s.arrivals = []) (he : e.logged = true) (events : List Family.Event) :
    s.announce e events =
      { s with journal := s.journal ++ (events.map (·.record e.family.description.fullName)).toArray } := by
  rw [announce, if_pos he]
  induction events generalizing s with
  | nil => simp
  | cons event rest ih =>
    have hrest := ih (s := { s with journal := s.journal.push (event.record e.family.description.fullName) }) hs
    rw [List.foldl_cons, write_quiet hs, hrest]
    simp

theorem setAccumulator_journal (t : Target) (a : Accumulator) (journal : Array Record) (s : Scenario) :
    ({ s with journal } : Scenario).setAccumulator t a = { s.setAccumulator t a with journal } := by
  have hentry : ({ s with journal } : Scenario).entryAt? t.entry = s.entryAt? t.entry := rfl
  rw [setAccumulator, setAccumulator, hentry]
  split <;> rfl

theorem entryAt?_eq_some {i : Nat} : s.entryAt? i = some e ↔ s.entries[i]? = some (.ok e) := by
  rw [entryAt?]
  split
  next e' he => simp [he]
  next hne =>
    refine ⟨fun h => (nomatch h), fun h => absurd h (hne e)⟩

theorem entryAt?_setEntry {i : Nat} (he : s.entryAt? i = some e) (e' : Entry) :
    (s.setEntry i e').entryAt? i = some e' := by
  obtain ⟨hi,_⟩ := Array.getElem?_eq_some_iff.mp (entryAt?_eq_some.mp he)
  rw [entryAt?_eq_some, setEntry, Array.getElem?_setIfInBounds_self_of_lt hi]

theorem setEntry_setEntry (i : Nat) (e e' : Entry) (s : Scenario) :
    (s.setEntry i e).setEntry i e' = s.setEntry i e' := by
  simp [setEntry, Array.setIfInBounds_setIfInBounds]

theorem setAccumulator_eq {t : Target} (he : s.entryAt? t.entry = some e) (a : Accumulator) :
    s.setAccumulator t a = s.setEntry t.entry { e with
      family := (e.family.update t.handle fun series => ({ series with accumulator := a }, ())).1 } := by
  rw [setAccumulator, he]

theorem entryAt?_setAccumulator {t : Target} (he : s.entryAt? t.entry = some e) (a : Accumulator) :
    (s.setAccumulator t a).entryAt? t.entry = some { e with
      family := (e.family.update t.handle fun series => ({ series with accumulator := a }, ())).1 } := by
  rw [setAccumulator_eq he]
  exact entryAt?_setEntry he _

theorem setAccumulator_setAccumulator (t : Target) (a a' : Accumulator) (s : Scenario) :
    (s.setAccumulator t a).setAccumulator t a' = s.setAccumulator t a' := by
  cases he : s.entryAt? t.entry with
  | none => simp [setAccumulator, he]
  | some e =>
    rw [setAccumulator_eq (entryAt?_setAccumulator he a), setAccumulator_eq he, setAccumulator_eq he, setEntry_setEntry]
    by_cases hh : t.handle < e.family.made.size
    · simp [Family.update_of_lt, hh]
    · simp [Family.update_of_le (Nat.not_lt.mp hh)]

/-- An accumulator that was put in a place is found there, if the place is there at all. -/
theorem histogram?_setAccumulator (t : Target) (h : Histogram) (s : Scenario) :
    ((s.setAccumulator t (.histogram h)).histogram? t).getD h = h := by
  cases he : s.entryAt? t.entry with
  | none => simp [setAccumulator, histogram?, series?, he]
  | some e =>
    rw [histogram?, series?, entryAt?_setAccumulator he]
    by_cases hh : t.handle < e.family.made.size
    · simp [Family.update_of_lt hh]
    · simp [Family.update_of_le (Nat.not_lt.mp hh), hh]

theorem arrivals_setAccumulator (t : Target) (a : Accumulator) (s : Scenario) :
    (s.setAccumulator t a).arrivals = s.arrivals := by
  rw [setAccumulator]
  split <;> rfl

theorem journal_setAccumulator (t : Target) (a : Accumulator) (s : Scenario) :
    (s.setAccumulator t a).journal = s.journal := by
  rw [setAccumulator]
  split <;> rfl

/-- The scenario after these reports of an observation that is under way; what stands in the place of the
histogram meanwhile does not matter. -/
def Written (t : Target) (record : Histogram.Event → Record) (s : Scenario) (events : List Histogram.Event)
    (s' : Scenario) : Prop :=
  ∀ a, s'.setAccumulator t a = { s.setAccumulator t a with journal := s.journal ++ (events.map record).toArray }

variable {t : Target} {record : Histogram.Event → Record} {events : List Histogram.Event}

theorem written_nil (t : Target) (record : Histogram.Event → Record) (s : Scenario) : Written t record s [] s := by
  intro a
  have hsame : s.journal ++ (([] : List Histogram.Event).map record).toArray = (s.setAccumulator t a).journal := by
    simp [journal_setAccumulator]
  rw [hsame]

theorem Written.arrivals (hw : Written t record s events s') (a : Accumulator) : s'.arrivals = s.arrivals := by
  rw [← arrivals_setAccumulator t a s', hw a]
  exact arrivals_setAccumulator t a s

theorem Written.writeAmid (hw : Written t record s events s') (hs : s.arrivals = []) (event : Histogram.Event)
    (h : Histogram) : (writeAmid observe t (record event) (h, s')).1 = h ∧
      Written t record s (events ++ [event]) (writeAmid observe t (record event) (h, s')).2 := by
  have harrivals : (s'.setAccumulator t (.histogram h)).arrivals = [] := by
    rw [arrivals_setAccumulator, hw.arrivals (.histogram h), hs]
  have hmid : (s'.setAccumulator t (.histogram h)).write observe (record event) = _ :=
    write_quiet harrivals (record event)
  rw [Scenario.writeAmid]
  dsimp only
  rw [hmid]
  refine ⟨histogram?_setAccumulator t h s', ?_⟩
  intro a
  have hjournal : (s'.setAccumulator t (.histogram h)).journal = s.journal ++ (events.map record).toArray := by
    rw [hw]
  rw [setAccumulator_journal, setAccumulator_setAccumulator, hw a, hjournal]
  simp

/-- An observation writes what its upkeep reports in order. -/
theorem observe_quiet {values : List String} {h : Histogram} (hs : s.arrivals = []) (he : s.entryAt? t.entry = some e)
    (hlog : e.logged = true) (hseries : s.series? t = some ⟨values, .histogram h⟩) (v : Float) (tag : Option Tag) :
    s.observe tag t v = { s.setAccumulator t (.histogram (h.observe s.now v tag).1) with
      journal := s.journal ++
        ((h.observe s.now v tag).2.map (·.record e.family.description.fullName values)).toArray } := by
  have hmatching : Histogram.Matching (Written t (·.record e.family.description.fullName values) s) Histogram.note
      (fun event held => Scenario.writeAmid (observeWithin 0 none) t
        (event.record e.family.description.fullName values) held) := by
    rintro event ⟨g,events⟩ ⟨g',s'⟩ ⟨rfl,hw⟩
    exact Written.writeAmid hw hs event g'
  obtain ⟨hsame,hw⟩ := hmatching.observeAmid s.now v tag h (written_nil t _ s)
  rw [observe, hs, List.length_nil, observeWithin, he, hseries]
  simp only [hlog, if_true]
  rw [hsame]
  exact hw _

end Scenario
end Metering
