import Metering.Proofs.Counter.Accounts
import Metering.Proofs.Histogram.Accepted
import Metering.Proofs.Histogram.Resets
import Metering.Proofs.Stress.Order
import Metering.Proofs.Stress.Series

/-! # Nothing is lost in a stress run

However the calls of the writers and the scrapes follow on each other, the series of each writer holds what
the writer has done so far. The last collection then finds every observation and every increment.
-/
namespace Metering
open Binary64

namespace Histogram

/-- A settled histogram that has counted so many values and never starts over. -/
structure Tally (n : Nat) (h : Histogram) : Prop where
  settled : Settled h
  count : h.count = n
  lasting : ∀ c ∈ h.config.native, c.resetAfter = 0

variable {h : Histogram} {now : Time} {v : Float} {n : Nat}

theorem count_record_of_lasting (hl : ∀ c ∈ h.config.native, c.resetAfter = 0) (now : Time) (v : Float) :
    (h.record now v).1.count = h.count + 1 := by
  cases hu : (h.apply v).1.upkeep? now (h.apply v).2 with
  | none =>
    rw [record_of_none hu]
    rfl
  | some u =>
    cases u with
    | shrink =>
      rw [record_of_shrink hu, count_shrink]
      rfl
    | reset =>
      obtain ⟨c,hc,hne,_⟩ := spaced_of_reset (any_isReset_record.mpr hu)
      exact absurd (hl c hc) hne

theorem Tally.observe (ht : Tally n h) (hroom : n + 1 < 2 ^ 63) (hv : v.isNaN = false) (now : Time) :
    Tally (n + 1) (h.observe now v none).1 := by
  obtain ⟨b,hq,hb,heq⟩ := observe_settled ht.settled (ht.count.symm ▸ hroom) hv now none
  have hcount := count_record_of_lasting ht.lasting now v
  have hconfig := config_record now v h
  rw [heq]
  exact ⟨⟨hq, hb⟩, hcount.trans (congrArg (· + 1) ht.count), fun c hc => ht.lasting c (hconfig ▸ hc)⟩

theorem Tally.collect (ht : Tally n h) : Tally n h.collect.1 ∧ h.collect.2.count = n := by
  obtain ⟨b,hq,hb,heq⟩ := collect_settled ht.settled
  rw [heq]
  exact ⟨⟨⟨hq, hb⟩, ht.count, ht.lasting⟩, ht.count⟩

end Histogram

namespace Counter

structure Tally (n : Nat) (c : Counter) : Prop where
  unsigned : Unsigned c.rest
  held : c.held = n * unitsOfOne

theorem tally_new (created : Time) : Tally 0 { created } :=
  ⟨unsigned_zero, held_new created none⟩

theorem Tally.increment {n : Nat} {c : Counter} (ht : Tally n c) (hroom : n + 1 ≤ 2 ^ 53) : Tally (n + 1) c.increment := by
  have hone : value Act.increment.amount = (1 : Nat) := value_toFloat (n := 1) (by decide)
  have hnonneg : Nonneg Act.increment.amount := (unsigned_toFloat 1).toNonneg
  obtain ⟨hunsigned,hheld⟩ := held_call ht.unsigned hnonneg hone ht.held hroom
  exact ⟨hunsigned, hheld⟩

theorem Tally.collect {n : Nat} {c : Counter} (ht : Tally n c) : Tally n c.collect.1 :=
  ⟨ht.unsigned, ht.held⟩

theorem Tally.get {n : Nat} {c : Counter} (ht : Tally n c) (hn : n ≤ 2 ^ 53) : c.get = n.toUInt64.toFloat :=
  get_of_held ht.unsigned ht.held hn

end Counter

namespace Stress

def latencyDescription : Description :=
  { fullName := "work_duration_seconds", help := "Simulated work duration.", constLabels := ⟨[]⟩, variableLabels := ["worker"] }

def jobsDescription : Description :=
  { fullName := "jobs", help := "Simulated jobs.", constLabels := ⟨[]⟩, variableLabels := ["worker"] }

theorem config_histogramOptions (a : Arguments) :
    ∃ config, (histogramOptions a).config = .ok config ∧ ∀ c ∈ config.native, c.resetAfter = 0 := by
  have hbounds : (histogramOptions a).classicBounds = .ok (HistogramOptions.complete defaultBounds) := rfl
  have hnonneg : 0 ≤ defaultZeroThreshold := of_decide_eq_true rfl
  have hordered : defaultZeroThreshold ≤ defaultZeroThreshold := of_decide_eq_true rfl
  refine ⟨_, HistogramOptions.config_of_parts rfl hbounds
    (HistogramOptions.nativeConfig_of_checks rfl rfl hnonneg hordered), ?_⟩
  rintro c ⟨⟩
  rfl

theorem make_ok (now : Time) (a : Arguments) :
    ∃ config, Families.make now a =
        .ok { now, config, latency := { description := latencyDescription }, jobs := { description := jobsDescription } } ∧
      ∀ c ∈ config.native, c.resetAfter = 0 := by
  obtain ⟨config,hconfig,hlasting⟩ := config_histogramOptions a
  refine ⟨config, ?_, hlasting⟩
  have hnamed : Description.ofOptions { name := "work_duration_seconds", help := "Simulated work duration." }
      workerLabels [Label.bucket] Kind.histogram.word = .ok latencyDescription := rfl
  have hlatency : (Specification.histogram (histogramOptions a)).describe workerLabels = .ok latencyDescription := hnamed
  have hjobs : (Specification.counter counterOptions).describe workerLabels = .ok jobsDescription := rfl
  rw [Families.make]
  simp only [hconfig, hlatency, hjobs]
  rfl

/-- The families after some calls: a series for each writer that has opened one, which holds what the writer
has done. -/
structure Follows (done : List Call) (f : Families) : Prop where
  lasting : ∀ c ∈ f.config.native, c.resetAfter = 0
  latency : f.latency.Stocked latencyDescription (fun w => .openLatency w ∈ done)
    fun w h => h.Tally (done.countP (Call.observes w))
  jobs : f.jobs.Stocked jobsDescription (fun w => .openJobs w ∈ done)
    fun w c => c.Tally (done.countP (Call.increments w))
  unobserved : ∀ w, .openLatency w ∉ done → done.countP (Call.observes w) = 0
  unincremented : ∀ w, .openJobs w ∉ done → done.countP (Call.increments w) = 0

variable {f : Families} {done calls : List Call} {c : Call} {a : Arguments} {exp2 : Float → Float}

theorem follows_make {now : Time} {config : HistogramConfig} (hl : ∀ c ∈ config.native, c.resetAfter = 0) :
    Follows [] { now, config, latency := { description := latencyDescription }, jobs := { description := jobsDescription } } where
  lasting := hl
  latency := (Family.stocked_new _ _).congr (by simp) fun _ _ h => h
  jobs := (Family.stocked_new _ _).congr (by simp) fun _ _ h => h
  unobserved := by simp
  unincremented := by simp

theorem Follows.snoc {g : Families} (hf : Follows done f) (hr : Ready done c) (hconfig : g.config = f.config)
    (hlatency : g.latency.Stocked latencyDescription (fun w => .openLatency w ∈ done ∨ .openLatency w = c)
      fun w h => h.Tally (done.countP (Call.observes w) + [c].countP (Call.observes w)))
    (hjobs : g.jobs.Stocked jobsDescription (fun w => .openJobs w ∈ done ∨ .openJobs w = c)
      fun w k => k.Tally (done.countP (Call.increments w) + [c].countP (Call.increments w))) :
    Follows (done ++ [c]) g where
  lasting := hconfig ▸ hf.lasting
  latency := hlatency.congr (by simp) fun u h ht => by rwa [List.countP_append]
  jobs := hjobs.congr (by simp) fun u k ht => by rwa [List.countP_append]
  unobserved := by
    intro w hw
    rw [List.mem_append, not_or] at hw
    rw [List.countP_append, hf.unobserved w hw.1, List.countP_singleton, if_neg (mt hr.openLatency_mem hw.1)]
  unincremented := by
    intro w hw
    rw [List.mem_append, not_or] at hw
    rw [List.countP_append, hf.unincremented w hw.1, List.countP_singleton, if_neg (mt hr.openJobs_mem hw.1)]

theorem Follows.collect (hf : Follows done f) :
    f.collect.1.latency.Stocked latencyDescription (fun w => .openLatency w ∈ done)
        (fun w h => h.Tally (done.countP (Call.observes w))) ∧
      f.collect.1.jobs.Stocked jobsDescription (fun w => .openJobs w ∈ done)
        fun w c => c.Tally (done.countP (Call.increments w)) :=
  ⟨(hf.latency.collect rfl f.freshHistogram (fun h => (h.collect.1, Snapshot.histogram h.collect.2))
      fun _ _ ht => ht.collect.1).1,
    (hf.jobs.collect rfl f.freshCounter (fun c => (c.collect.1, Snapshot.counter c.collect.2)) fun _ _ ht => ht.collect).1⟩

/-- A call brings to its own series what it stands for, and a scrape or the time brings nothing. -/
theorem Follows.perform (hf : Follows done f) (hr : Ready done c) : Follows (done ++ [c]) (f.perform c) := by
  have hready := hr
  cases hready with
  | openLatency w =>
    have hnew : .openLatency w ∉ done → f.freshHistogram.Tally (done.countP (Call.observes w)) := by
      intro hno
      rw [hf.unobserved w hno]
      exact ⟨Histogram.settled_new f.config f.now none, rfl, hf.lasting⟩
    obtain ⟨g,h,events,heq,hg⟩ := hf.latency.obtain rfl hnew
    simp only [Families.perform, heq]
    exact hf.snoc hr rfl (hg.congr (by simp) fun _ _ ht => ht) (hf.jobs.congr (by simp) fun _ _ ht => ht)
  | openJobs w =>
    have hnew : .openJobs w ∉ done → f.freshCounter.Tally (done.countP (Call.increments w)) := by
      intro hno
      rw [hf.unincremented w hno]
      exact Counter.tally_new f.now
    obtain ⟨g,h,events,heq,hg⟩ := hf.jobs.obtain rfl hnew
    simp only [Families.perform, heq]
    exact hf.snoc hr rfl (hf.latency.congr (by simp) fun _ _ ht => ht) (hg.congr (by simp) fun _ _ ht => ht)
  | @observe w v ho hv hroom =>
    obtain ⟨k,hk,hg⟩ : ∃ k, f.latency.handle? [toString w] = some k ∧
        (f.latency.update k fun h => ((h.observe f.now v none).1, ())).1.Stocked latencyDescription
          (fun u => .openLatency u ∈ done)
          fun u h => h.Tally (done.countP (Call.observes u) + [Call.observe w v].countP (Call.observes u)) := by
      refine hf.latency.update ho _ ?_ ?_
      · intro h ht
        simpa [Call.observes] using ht.observe (Nat.lt_of_le_of_lt hroom (by decide)) hv f.now
      · intro u h hne ht
        simpa [Call.observes, hne.symm] using ht
    simp only [Families.perform, Families.latencyAt, hk]
    exact hf.snoc hr rfl (hg.congr (by simp) fun _ _ ht => ht) (hf.jobs.congr (by simp) fun _ _ ht => ht)
  | @increment w ho hroom =>
    obtain ⟨k,hk,hg⟩ : ∃ k, f.jobs.handle? [toString w] = some k ∧
        (f.jobs.update k fun c => (c.increment, ())).1.Stocked jobsDescription (fun u => .openJobs u ∈ done)
          fun u c => c.Tally (done.countP (Call.increments u) + [Call.increment w].countP (Call.increments u)) := by
      refine hf.jobs.update ho _ ?_ ?_
      · intro c ht
        simpa [Call.increments] using ht.increment hroom
      · intro u c hne ht
        simpa [Call.increments, hne.symm] using ht
    simp only [Families.perform, Families.jobsAt, hk]
    exact hf.snoc hr rfl (hf.latency.congr (by simp) fun _ _ ht => ht) (hg.congr (by simp) fun _ _ ht => ht)
  | scrape =>
    obtain ⟨hlatency,hjobs⟩ := hf.collect
    exact hf.snoc hr rfl (hlatency.congr (by simp) fun _ _ ht => ht) (hjobs.congr (by simp) fun _ _ ht => ht)
  | advance ns =>
    exact hf.snoc hr rfl (hf.latency.congr (by simp) fun _ _ ht => ht) (hf.jobs.congr (by simp) fun _ _ ht => ht)

theorem Follows.run (hf : Follows done f) (hr : ∀ before c after, calls = before ++ c :: after → Ready (done ++ before) c) :
    Follows (done ++ calls) (calls.foldl Families.perform f) := by
  induction calls generalizing done f with
  | nil => simpa using hf
  | cons c rest ih =>
    have hfirst := hf.perform (by simpa using hr [] c rest rfl)
    have hrest := ih hfirst fun before d after heq => by
      simpa using hr (c :: before) d after (by rw [heq]; rfl)
    simpa using hrest

def sumOf (points : List (Point Snapshot)) (t : Totals) : Totals :=
  points.foldl (fun t p => t.add p.snapshot) t

theorem sumOf_histograms {m : Nat} {points : List (Point Snapshot)}
    (hp : ∀ p ∈ points, ∃ s, p.snapshot = .histogram s ∧ s.count = m) (t : Totals) :
    sumOf points t = { t with observations := t.observations + points.length * m } := by
  induction points generalizing t with
  | nil => simp [sumOf]
  | cons p rest ih =>
    obtain ⟨⟨s,hs,hm⟩,hrest⟩ := List.forall_mem_cons.mp hp
    have hsum : t.observations + m + rest.length * m = t.observations + (rest.length + 1) * m := by ring
    have hfirst : t.add p.snapshot = { t with observations := t.observations + m } := by rw [hs, Totals.add, hm]
    rw [sumOf, List.foldl_cons, hfirst]
    refine (ih hrest _).trans ?_
    rw [List.length_cons, ← hsum]

/-- Equal whole values are summed exactly. -/
theorem sumOf_counters {m : Nat} {points : List (Point Snapshot)}
    (hp : ∀ p ∈ points, ∃ s, p.snapshot = .counter s ∧ s.value = m.toUInt64.toFloat) (o : Nat) {k : Nat}
    (hk : k + points.length * m ≤ 2 ^ 53) :
    sumOf points { observations := o, increments := k.toUInt64.toFloat } =
      { observations := o, increments := (k + points.length * m).toUInt64.toFloat } := by
  induction points generalizing k with
  | nil => simp [sumOf]
  | cons p rest ih =>
    obtain ⟨⟨s,hs,hm⟩,hrest⟩ := List.forall_mem_cons.mp hp
    have hsum : k + m + rest.length * m = k + (rest.length + 1) * m := by ring
    rw [List.length_cons, ← hsum] at hk ⊢
    have hfirst : Totals.add { observations := o, increments := k.toUInt64.toFloat } p.snapshot =
        { observations := o, increments := (k + m).toUInt64.toFloat } := by
      rw [hs, Totals.add, hm, toFloat_add (by omega)]
    rw [sumOf, List.foldl_cons, hfirst]
    exact ih hrest hk

def workerLabel (worker : Nat) : LabelSet :=
  ⟨[("worker", toString worker)]⟩

def Families.latencyPoints (f : Families) : List (Point Snapshot) :=
  (f.latency.collect f.freshHistogram fun h => (h.collect.1, Snapshot.histogram h.collect.2)).2.1

def Families.jobsPoints (f : Families) : List (Point Snapshot) :=
  (f.jobs.collect f.freshCounter fun c => (c.collect.1, Snapshot.counter c.collect.2)).2.1

theorem collect_snd (f : Families) : f.collect.2 =
    [{ name := f.collect.1.latency.description.fullName, help := f.collect.1.latency.description.help,
        kind := .histogram, points := f.latencyPoints },
      { name := f.collect.1.jobs.description.fullName, help := f.collect.1.jobs.description.help,
        kind := .counter, points := f.jobsPoints }] := rfl

theorem Follows.latencyPoints (hf : Follows calls f) (h : Interleaved exp2 a calls) :
    (f.latencyPoints.map Point.labels).Perm ((List.range a.threads).map workerLabel) ∧
      ∀ p ∈ f.latencyPoints, ∃ s, p.snapshot = .histogram s ∧ s.count = a.observations := by
  have hs : f.latency.Stocked latencyDescription (· < a.threads) fun w h => h.Tally (calls.countP (Call.observes w)) :=
    hf.latency.congr (fun w => ⟨fun hw => h.worker_lt hw rfl, fun hw => (h.finished hw).1⟩) fun _ _ ht => ht
  obtain ⟨_,hlabels,hpoints⟩ := hs.collect rfl f.freshHistogram
    (fun h => (h.collect.1, Snapshot.histogram h.collect.2)) fun u h ht => ht.collect.1
  have hperm := hs.perm_tuples.map (latencyDescription.constLabels.merge latencyDescription.variableLabels)
  rw [← hlabels, List.map_map] at hperm
  refine ⟨hperm, fun p hp => ?_⟩
  obtain ⟨u,g,hu,ht,heq⟩ := hpoints p hp
  exact ⟨_, heq, ht.collect.2.trans (h.finished hu).2.2.1⟩

theorem Follows.jobsPoints (hf : Follows calls f) (h : Interleaved exp2 a calls)
    (hsize : a.threads * a.observations < 2 ^ 53) :
    (f.jobsPoints.map Point.labels).Perm ((List.range a.threads).map workerLabel) ∧
      ∀ p ∈ f.jobsPoints, ∃ s, p.snapshot = .counter s ∧ s.value = a.observations.toUInt64.toFloat := by
  have hs : f.jobs.Stocked jobsDescription (· < a.threads) fun w c => c.Tally (calls.countP (Call.increments w)) :=
    hf.jobs.congr (fun w => ⟨fun hw => h.worker_lt hw rfl, fun hw => (h.finished hw).2.1⟩) fun _ _ ht => ht
  obtain ⟨_,hlabels,hpoints⟩ := hs.collect rfl f.freshCounter
    (fun c => (c.collect.1, Snapshot.counter c.collect.2)) fun u c ht => ht.collect
  have hperm := hs.perm_tuples.map (jobsDescription.constLabels.merge jobsDescription.variableLabels)
  rw [← hlabels, List.map_map] at hperm
  refine ⟨hperm, fun p hp => ?_⟩
  obtain ⟨u,c,hu,ht,heq⟩ := hpoints p hp
  obtain ⟨_,hopened,_,hcount⟩ := h.finished hu
  rw [hcount] at ht
  exact ⟨_, heq, ht.get (h.observations_lt hsize hopened rfl).le⟩

/-- Everything that the writers of an order have done is collected. -/
theorem Follows.totals (hf : Follows calls f) (h : Interleaved exp2 a calls)
    (hsize : a.threads * a.observations < 2 ^ 53) :
    totals f.collect.2 =
      { observations := a.threads * a.observations, increments := Float.ofNat (a.threads * a.observations) } := by
  obtain ⟨hperm,hcounts⟩ := hf.latencyPoints h
  obtain ⟨hperm',hvalues⟩ := hf.jobsPoints h hsize
  have hlength : f.latencyPoints.length = a.threads := by simpa using hperm.length_eq
  have hlength' : f.jobsPoints.length = a.threads := by simpa using hperm'.length_eq
  have hsum := sumOf_counters hvalues (a.threads * a.observations) (k := 0)
    (by rw [Nat.zero_add, hlength']; exact hsize.le)
  rw [hlength', Nat.zero_add, ← ofNat_eq_toFloat hsize] at hsum
  calc Metering.totals f.collect.2
      = sumOf f.jobsPoints (sumOf f.latencyPoints {}) := by simp [Metering.totals, sumOf, collect_snd]
    _ = sumOf f.jobsPoints { observations := a.threads * a.observations, increments := Nat.toUInt64 0 |>.toFloat } := by
        rw [sumOf_histograms hcounts, hlength, Nat.zero_add]
        rfl
    _ = _ := hsum

theorem Follows.names (hf : Follows calls f) :
    f.collect.2.map FamilySnapshot.name = ["work_duration_seconds", "jobs"] := by
  obtain ⟨hlatency,hjobs⟩ := hf.collect
  rw [collect_snd, hlatency.described, hjobs.described]
  rfl

theorem Interleaved.follows {config : HistogramConfig} (h : Interleaved exp2 a calls) (now : Time)
    (hsize : a.threads * a.observations < 2 ^ 53)
    (hexp : ∀ x : Float, 0 ≤ x → x < 100 → (exp2 x).isNaN = false)
    (hl : ∀ c ∈ config.native, c.resetAfter = 0) :
    Follows calls (calls.foldl Families.perform
      { now, config, latency := { description := latencyDescription }, jobs := { description := jobsDescription } }) :=
  (follows_make hl).run fun before c after heq => by
    subst heq
    exact h.ready hsize hexp

theorem lossless_of_totals {n : Nat} (hn : n < 2 ^ 53) :
    Outcome.lossless { expected := n, totals := { observations := n, increments := Float.ofNat n } } = true := by
  have hnumber := (unsigned_toFloat n.toUInt64).number
  change (n == n && Float.ofNat n == Float.ofNat n) = true
  rw [beq_self_eq_true, Bool.true_and, ofNat_eq_toFloat hn, beq_iff_rank hnumber hnumber]

theorem Interleaved.execute_ok (h : Interleaved exp2 a calls) (now : Time)
    (hsize : a.threads * a.observations < 2 ^ 53)
    (hexp : ∀ x : Float, 0 ≤ x → x < 100 → (exp2 x).isNaN = false) :
    execute now a calls = .ok {
      expected := a.threads * a.observations
      totals := { observations := a.threads * a.observations, increments := Float.ofNat (a.threads * a.observations) } } := by
  obtain ⟨config,hmake,hl⟩ := make_ok now a
  have hf := h.follows now hsize hexp hl
  rw [← hf.totals h hsize, execute, hmake]
  rfl

theorem run_lossless (hexp : ∀ x : Float, 0 ≤ x → x < 100 → x.exp2.isNaN = false)
    (hsize : a.threads * a.observations < 2 ^ 53) (now : Time) : (run now a).toOption.map Outcome.lossless = some true := by
  rw [run, (interleaved_inTurn Float.exp2 a).execute_ok now hsize hexp]
  exact congrArg some (lossless_of_totals hsize)

/-- In every order of the calls all observations and increments are found in the end, in a series of each family
for each writer. -/
theorem lossless_in_every_order {exp2 : Float → Float} (hexp : ∀ x : Float, 0 ≤ x → x < 100 → (exp2 x).isNaN = false)
    {a : Arguments} (hsize : a.threads * a.observations < 2 ^ 53) {calls : List Call} (h : Interleaved exp2 a calls)
    (now : Time) :
    ∃ f, Families.make now a = .ok f ∧
      let families := (calls.foldl Families.perform f).collect.2
      let o : Outcome := { expected := a.threads * a.observations, totals := totals families }
      execute now a calls = .ok o ∧ o.totals.observations = a.threads * a.observations ∧
        o.totals.increments = Float.ofNat (a.threads * a.observations) ∧
        value o.totals.increments = (a.threads * a.observations : Nat) ∧ o.lossless = true ∧
        families.map FamilySnapshot.name = ["work_duration_seconds", "jobs"] ∧
        ∀ s ∈ families, (s.points.map Point.labels).Perm ((List.range a.threads).map workerLabel) := by
  obtain ⟨config,hmake,hl⟩ := make_ok now a
  refine ⟨_, hmake, ?_⟩
  intro families o
  have hf := h.follows now hsize hexp hl
  have htotals : o.totals = _ := hf.totals h hsize
  have hexact : value (Float.ofNat (a.threads * a.observations)) = (a.threads * a.observations : Nat) := by
    have hword := toNat_toUInt64 hsize.le
    rw [ofNat_eq_toFloat hsize, value_toFloat (by rw [hword]; exact hsize.le), hword]
  refine ⟨?_, by rw [htotals], by rw [htotals], by rw [htotals, hexact], ?_, hf.names, ?_⟩
  · rw [execute, hmake]
    rfl
  · rw [Outcome.lossless, htotals]
    exact lossless_of_totals hsize
  · intro s hs
    change s ∈ Prod.snd (Families.collect _) at hs
    rw [collect_snd] at hs
    rcases List.mem_cons.mp hs with rfl | hs
    · exact (hf.latencyPoints h).1
    · rw [List.mem_singleton.mp hs]
      exact (hf.jobsPoints h hsize).1

def pairArguments : Arguments :=
  { threads := 2, observations := 2, maxBuckets := 1 }

/-- The powers of two that the first two samples of two writers ask for. -/
def pairPower (x : Float) : Float :=
  if x == 1 / 1000 then Float.ofBits 0x3ff002d711c79a96
  else if x == 35761 / 1000 then Float.ofBits 0x422b1d58e91de051
  else if x == 35760 / 1000 then Float.ofBits 0x422b1889a0146d65
  else 1

/-- Two writers that get in each other's way, with two scrapes between their calls and an hour that passes. -/
def pairCalls : List Call :=
  [.openLatency 1, .openLatency 0, .openJobs 0, .scrape, .observe 0 (sampleBy pairPower 0 0), .openJobs 1,
    .observe 1 (sampleBy pairPower 1 0), .increment 1, .advance 3600000000000, .observe 1 (sampleBy pairPower 1 1),
    .scrape, .increment 0, .observe 0 (sampleBy pairPower 0 1), .increment 1, .increment 0]

theorem interleaved_pair : Interleaved pairPower pairArguments pairCalls where
  writers := by
    intro worker hw
    match worker, hw with
    | 0, _ => rfl
    | 1, _ => rfl
  others := by
    intro worker hw
    have hfirst : 0 ≠ worker := Nat.ne_of_lt (Nat.lt_of_lt_of_le (by decide) hw)
    have hsecond : 1 ≠ worker := Nat.ne_of_lt (Nat.lt_of_lt_of_le (by decide) hw)
    simp [callsOf, pairCalls, Call.worker?, hfirst, hsecond]

theorem isNaN_pairPower (x : Float) : (pairPower x).isNaN = false := by
  unfold pairPower
  split
  · rfl
  split
  · rfl
  split <;> rfl

theorem lossless_in_every_order_pair :
    ∃ o, execute 0 pairArguments pairCalls = .ok o ∧ o.totals.observations = 4 ∧ o.totals.increments = 4 ∧
      o.lossless = true := by
  obtain ⟨f,_,hexecute,hobservations,hincrements,_,hlossless,_,_⟩ :=
    lossless_in_every_order (fun x _ _ => isNaN_pairPower x) (by decide) interleaved_pair 0
  exact ⟨_, hexecute, hobservations, hincrements, hlossless⟩

end Stress
end Metering
