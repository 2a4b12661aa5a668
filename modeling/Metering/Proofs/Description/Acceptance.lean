import Metering.Proofs.Description
import Metering.Proofs.Label

/-! # Which descriptions are accepted

A description is accepted just when the full name is one of the grammar's and every label is spelled as a
label, is not reserved and stands once. Otherwise the refusal names the metric or, if its name is good, the
first label in order at fault, by the first of the three faults that it has.
-/
namespace Metering.Description
open Metering.Label (Spelled)

/-- What a label may be called after those before it. -/
structure Fit (reserved earlier : List String) (name : String) : Prop where
  spelled : Spelled name
  free : name ∉ reserved
  new : name ∉ earlier

/-- What is wrong with a label after those before it, each fault behind the ones that are named first. -/
inductive Fault (reserved earlier : List String) (kind name : String) : Error → Prop
  | spelling (h : ¬ Spelled name) : Fault reserved earlier kind name (.invalidLabelName name)
  | reserved (hs : Spelled name) (h : name ∈ reserved) :
      Fault reserved earlier kind name (.reservedLabelName name kind)
  | repeated (hs : Spelled name) (hr : name ∉ reserved) (h : name ∈ earlier) :
      Fault reserved earlier kind name (.duplicateLabelName name)

def labelNames (o : Options) (labels : List String) : List String :=
  o.constLabels.map Prod.fst ++ labels

/-- What is asked of options and variable labels. -/
structure WellFormed (o : Options) (labels reserved : List String) : Prop where
  name : o.fullName.toList ∈ Metric.grammar
  names : ∀ n ∈ labelNames o labels, Spelled n ∧ n ∉ reserved
  distinct : (labelNames o labels).Nodup

inductive Refused (o : Options) (labels reserved : List String) (kind : String) : Error → Prop
  | name (h : o.fullName.toList ∉ Metric.grammar) :
      Refused o labels reserved kind (.invalidMetricName o.fullName)
  | label {before after : List String} {n : String} {e : Error} (hname : o.fullName.toList ∈ Metric.grammar)
      (hnames : labelNames o labels = before ++ n :: after) (hbefore : ∀ m ∈ before, Spelled m ∧ m ∉ reserved)
      (hdistinct : before.Nodup) (h : Fault reserved before kind n e) : Refused o labels reserved kind e

variable {reserved earlier seen names before after : List String} {kind name : String} {e : Error}

theorem Fault.of_mem_iff (h : Fault reserved earlier kind name e) (hmem : ∀ n, n ∈ earlier ↔ n ∈ seen) :
    Fault reserved seen kind name e := by
  cases h with
  | spelling h => exact .spelling h
  | reserved hs h => exact .reserved hs h
  | repeated hs hr h => exact .repeated hs hr ((hmem _).mp h)

theorem fit_or_fault (reserved earlier : List String) (kind name : String) :
    Fit reserved earlier name ∨ ∃ e, Fault reserved earlier kind name e := by
  by_cases hs : Spelled name
  · by_cases hr : name ∈ reserved
    · exact .inr ⟨_, .reserved hs hr⟩
    · by_cases he : name ∈ earlier
      · exact .inr ⟨_, .repeated hs hr he⟩
      · exact .inl ⟨hs, hr, he⟩
  · exact .inr ⟨_, .spelling hs⟩

theorem checkNames_of_fit (h : Fit reserved seen name) :
    checkNames reserved kind seen (name :: names) = checkNames reserved kind (name :: seen) names := by
  have hs := Label.isName_iff.mpr h.spelled
  simp [checkNames, hs, h.free, h.new]

theorem checkNames_of_fault (h : Fault reserved seen kind name e) :
    checkNames reserved kind seen (name :: names) = .error e := by
  cases h with
  | spelling h =>
    have hs := Bool.eq_false_iff.mpr fun hs => h (Label.isName_iff.mp hs)
    simp [checkNames, hs]
  | reserved hs h => simp [checkNames, Label.isName_iff.mpr hs, h]
  | repeated hs hr h => simp [checkNames, Label.isName_iff.mpr hs, hr, h]

/-- Names that pass are among those seen when the ones after them are checked. -/
theorem checkNames_append (h : checkNames reserved kind seen before = .ok ()) :
    checkNames reserved kind seen (before ++ after) = checkNames reserved kind (before.reverse ++ seen) after := by
  induction before generalizing seen with
  | nil => rfl
  | cons n before ih =>
    rcases fit_or_fault reserved seen kind n with hn | ⟨e,hn⟩
    · rw [checkNames_of_fit hn] at h
      rw [List.cons_append, checkNames_of_fit hn, ih h, List.reverse_cons, List.append_assoc, List.singleton_append]
    · rw [checkNames_of_fault hn] at h
      cases h

/-- A refusal names the first label at fault. -/
theorem checkNames_eq_error_iff : checkNames reserved kind seen names = .error e ↔
    ∃ before n after, names = before ++ n :: after ∧ checkNames reserved kind seen before = .ok () ∧
      Fault reserved (before.reverse ++ seen) kind n e := by
  constructor
  · intro h
    induction names generalizing seen with
    | nil => cases h
    | cons n names ih =>
      rcases fit_or_fault reserved seen kind n with hn | ⟨e',hn⟩
      · rw [checkNames_of_fit hn] at h
        obtain ⟨before,m,after,rfl,hbefore,hm⟩ := ih h
        refine ⟨n :: before, m, after, rfl, (checkNames_of_fit hn).trans hbefore, ?_⟩
        rwa [List.reverse_cons, List.append_assoc, List.singleton_append]
      · rw [checkNames_of_fault hn] at h
        cases h
        exact ⟨[], n, names, rfl, rfl, hn⟩
  · rintro ⟨before,n,after,rfl,hbefore,hn⟩
    rw [checkNames_append hbefore, checkNames_of_fault hn]

theorem checkNames_ok_iff_spelled : checkNames reserved kind [] names = .ok () ↔
    (∀ n ∈ names, Spelled n ∧ n ∉ reserved) ∧ names.Nodup := by
  rw [checkNames_eq_ok_iff]
  simp only [Label.isName_iff, List.not_mem_nil, not_false_eq_true, and_true]

variable {o : Options} {labels : List String}

/-- Names that have been checked make up a label set: the second check finds nothing. -/
theorem ofPairs_of_checkNames (h : checkNames reserved kind [] (labelNames o labels) = .ok ()) :
    LabelSet.ofPairs o.constLabels = .ok ⟨o.constLabels⟩ := by
  obtain ⟨hvalid,hd⟩ := checkNames_eq_ok_iff.mp h
  refine LabelSet.ofPairs_ok (fun p hp => ?_) hd.of_append_left
  exact (hvalid p.1 (List.mem_append_left _ (List.mem_map_of_mem hp))).1

theorem ofOptions_ok_iff : (∃ d, ofOptions o labels reserved kind = .ok d) ↔ WellFormed o labels reserved := by
  constructor
  · rintro ⟨d,hd⟩
    have hacc := accepted hd
    refine ⟨Metric.isName_iff.mp (hacc.fullName ▸ hacc.name_valid), fun n hn => ?_, hacc.distinct⟩
    exact (hacc.valid n hn).imp_left Label.isName_iff.mp
  · intro h
    have hnames : checkNames reserved kind [] (labelNames o labels) = .ok () :=
      checkNames_ok_iff_spelled.mpr ⟨h.names, h.distinct⟩
    rw [ofOptions_of_name (Metric.isName_iff.mpr h.name), ← labelNames, hnames, ofPairs_of_checkNames hnames]
    exact ⟨_, rfl⟩

theorem ofOptions_error_iff : ofOptions o labels reserved kind = .error e ↔ Refused o labels reserved kind e := by
  by_cases hname : o.fullName.toList ∈ Metric.grammar
  · have hnames : ofOptions o labels reserved kind = .error e ↔
        checkNames reserved kind [] (labelNames o labels) = .error e := by
      rw [ofOptions_of_name (Metric.isName_iff.mpr hname), ← labelNames]
      cases hc : checkNames reserved kind [] (labelNames o labels) with
      | error e' =>
        rw [Except.bind, Except.error.injEq, Except.error.injEq]
      | ok u =>
        rw [ofPairs_of_checkNames hc]
        exact iff_of_false nofun nofun
    rw [hnames, checkNames_eq_error_iff]
    constructor
    · rintro ⟨before,n,after,hsplit,hbefore,hfault⟩
      obtain ⟨hfit,hd⟩ := checkNames_ok_iff_spelled.mp hbefore
      exact .label hname hsplit hfit hd (hfault.of_mem_iff (by simp))
    · intro h
      cases h with
      | name h => exact absurd hname h
      | label _ hsplit hfit hd hfault =>
        exact ⟨_, _, _, hsplit, checkNames_ok_iff_spelled.mpr ⟨hfit, hd⟩, hfault.of_mem_iff (by simp)⟩
  · rw [ofOptions_of_bad_name (Bool.eq_false_iff.mpr fun h => hname (Metric.isName_iff.mp h))]
    constructor
    · rintro ⟨⟩
      exact .name hname
    · intro h
      cases h with
      | name _ => rfl
      | label h _ _ _ _ => exact absurd h hname

/-- Descriptions are accepted exactly when they are well-formed, and what is wrong with the others is said in
order; what is accepted keeps the constant labels in name order and the variable ones as given. -/
theorem accepted_iff_wellFormed (o : Options) (given : List (String × String)) (labels reserved : List String)
    (kind : String) :
    let o := { o with constLabels := .ofList given }
    ((∃ d, ofOptions o labels reserved kind = .ok d) ↔ WellFormed o labels reserved) ∧
      (∀ e, ofOptions o labels reserved kind = .error e ↔ Refused o labels reserved kind e) ∧
      (checkNames reserved kind [] (labelNames o labels) = .ok () →
        LabelSet.ofPairs o.constLabels = .ok ⟨o.constLabels⟩) ∧
      o.constLabels.Ascending ∧
      ∀ d, ofOptions o labels reserved kind = .ok d →
        d.fullName = o.fullName ∧ d.help = o.help ∧ d.constLabels.pairs = o.constLabels ∧ d.variableLabels = labels := by
  intro o
  refine ⟨ofOptions_ok_iff, fun e => ofOptions_error_iff, ofPairs_of_checkNames,
    ConstantLabels.ascending_ofList given, fun d hd => ?_⟩
  have hacc := accepted hd
  exact ⟨hacc.fullName, hacc.help, congrArg LabelSet.pairs hacc.constLabels, hacc.variableLabels⟩

def jobsOptions : Options :=
  { namespaceName := "app", name := "jobs", constLabels := .ofList [("team", "core"), ("env", "prod")] }

def jobsDescription : Description :=
  { fullName := "app_jobs", help := "", constLabels := ⟨[("env", "prod"), ("team", "core")]⟩, variableLabels := ["path"] }

theorem ofOptions_jobs : ofOptions jobsOptions ["path"] ["le"] "histogram" = .ok jobsDescription := rfl

/-- Of a repeated and a reserved label the refusal names the first. -/
theorem ofOptions_jobs_repeated :
    ofOptions jobsOptions ["path", "team", "le"] ["le"] "histogram" = .error (.duplicateLabelName "team") := rfl

theorem accepted_iff_wellFormed_jobs :
    WellFormed jobsOptions ["path"] ["le"] ∧
      Refused jobsOptions ["path", "team", "le"] ["le"] "histogram" (.duplicateLabelName "team") ∧
      LabelSet.ofPairs jobsOptions.constLabels = .ok ⟨jobsOptions.constLabels⟩ ∧
      jobsDescription.constLabels.pairs = jobsOptions.constLabels ∧ jobsDescription.variableLabels = ["path"] := by
  have hgood := accepted_iff_wellFormed jobsOptions [("team", "core"), ("env", "prod")] ["path"] ["le"] "histogram"
  have hbad := accepted_iff_wellFormed jobsOptions [("team", "core"), ("env", "prod")] ["path", "team", "le"] ["le"]
    "histogram"
  obtain ⟨hiff,-,hset,-,hkept⟩ := hgood
  obtain ⟨-,-,hconst,hlabels⟩ := hkept _ ofOptions_jobs
  exact ⟨hiff.mp ⟨_, ofOptions_jobs⟩, (hbad.2.1 _).mp ofOptions_jobs_repeated, hset rfl, hconst, hlabels⟩

end Metering.Description
