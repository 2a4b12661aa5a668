import Metering.Proofs.Histogram.Calls
import Metering.Proofs.Histogram.OneWay
import Metering.Proofs.Records

/-! # The journal of a histogram

A histogram reports what upkeep does to its schema and to its zero threshold. A reader who starts from
those of the configuration and follows the records knows both at any time, and hears of every reset.
-/
namespace Metering
open Native

namespace Histogram

structure Resolution where
  schema : Int
  zeroThreshold : Float

namespace Resolution

/-- What a reader makes of a record; a reset leads back to the start. -/
def follow (start r : Resolution) (e : Record) : Resolution :=
  if e.message = "widened native zero bucket" then
    { r with zeroThreshold := (e.float? "zero_threshold").getD r.zeroThreshold }
  else if e.message = "halved native histogram resolution" then
    { r with schema := ((e.text? "schema").bind String.toInt?).getD r.schema }
  else if e.message = "reset native histogram" then start
  else r

def followEvent (start r : Resolution) : Event → Resolution
  | .widened t => { r with zeroThreshold := t }
  | .halved s => { r with schema := s }
  | .overLimit _ => r
  | .reset => start

theorem follow_record (start r : Resolution) (metric : String) (values : List String) (e : Event) :
    start.follow r (e.record metric values) = start.followEvent r e := by
  cases e with
  | widened t => rfl
  | halved s =>
    have hs : (toString s).toInt? = some s := by rw [Int.toString_eq_repr, Int.toInt?_repr]
    change ({ r with schema := (toString s).toInt?.getD r.schema } : Resolution) = _
    rw [hs]
    rfl
  | overLimit k => rfl
  | reset => rfl

end Resolution
end Histogram

def Native.State.resolution (s : State) : Histogram.Resolution :=
  ⟨s.schema, s.zeroThreshold⟩

def NativeSnapshot.resolution (s : NativeSnapshot) : Histogram.Resolution :=
  ⟨s.schema, s.zeroThreshold⟩

def NativeConfig.resolution (c : NativeConfig) : Histogram.Resolution :=
  ⟨c.initialSchema, c.minZeroThreshold⟩

namespace Histogram

variable {σ : Type} {config : HistogramConfig} {h h' : Histogram σ} {c : NativeConfig} {n m : State} {now : Time} {v t : Float}
  {count count' : Nat} {a : Act} {events rest : List Event}

def Event.moves : Event → Bool
  | .widened _ => true
  | .halved _ => true
  | .overLimit _ => false
  | .reset => false

theorem followEvent_overLimit (start r : Resolution) (hrest : ∀ e ∈ rest, ∃ k, e = .overLimit k) :
    rest.foldl start.followEvent r = r := by
  induction rest with
  | nil => rfl
  | cons e rest ih =>
    obtain ⟨⟨k,rfl⟩,htail⟩ := List.forall_mem_cons.mp hrest
    exact ih htail

theorem filter_moves_overLimit (hrest : ∀ e ∈ rest, ∃ k, e = .overLimit k) : rest.filter Event.moves = [] := by
  rw [List.filter_eq_nil_iff]
  intro e he
  obtain ⟨k,rfl⟩ := hrest e he
  exact Bool.false_ne_true

/-- What recording a value does to the native state and to the count, and what it reports. -/
inductive Upkept (c : NativeConfig) (n : State) (v : Float) (count : Nat) : State → Nat → List Event → Prop
  | plain : Upkept c n v count (n.observe v).1 (count + 1) []
  | widened {m : State} (hw : (n.observe v).1.widen? c.maxZeroThreshold = some m) :
      Upkept c n v count m (count + 1) [.widened m.zeroThreshold]
  | halved {m : State} {rest : List Event} (hh : (n.observe v).1.halve? = some m)
      (hrest : ∀ e ∈ rest, ∃ k, e = .overLimit k) : Upkept c n v count m (count + 1) (.halved m.schema :: rest)
  | reset (hcount : 0 < count) : Upkept c n v count (c.fresh.observe v).1 1 [.reset]

theorem schema_widened (hw : (n.observe v).1.widen? t = some m) : m.schema = n.schema :=
  (State.schema_widen hw).trans (State.schema_observe v n)

theorem schema_halved (hh : (n.observe v).1.halve? = some m) : m.schema = n.schema - 1 := by
  rw [State.schema_halve hh, State.schema_observe]

theorem zeroThreshold_halved (hh : (n.observe v).1.halve? = some m) : m.zeroThreshold = n.zeroThreshold := by
  obtain ⟨_,rfl⟩ := State.halve?_eq_some hh
  exact State.zeroThreshold_observe v n

/-- Whoever follows the reports knows schema and threshold. -/
theorem Upkept.resolution (hu : Upkept c n v count m count' events) :
    events.foldl c.resolution.followEvent n.resolution = m.resolution := by
  cases hu with
  | plain => simp [State.resolution]
  | widened hw => simp [State.resolution, Resolution.followEvent, schema_widened hw]
  | halved hh hrest =>
    rw [List.foldl_cons, followEvent_overLimit _ _ hrest]
    simp [State.resolution, Resolution.followEvent, zeroThreshold_halved hh]
  | reset hcount => simp [State.resolution, Resolution.followEvent, NativeConfig.resolution, NativeConfig.fresh]

/-- As calls leave a histogram; until it counts anything its native buckets are as new. -/
structure Regular (config : HistogramConfig) (h : Histogram σ) : Prop extends Settled h, Ranged config h where
  unused : h.count = 0 → h.native = config.native.map NativeConfig.fresh

theorem regular_new (hc : config.Accepted) (created : Time) (sampler : Option σ) :
    Regular config (new config created sampler) :=
  { settled_new config created sampler, ranged_new hc created sampler with unused := fun _ => rfl }

theorem count_pos_of_upkeep {u : Upkeep} (h0 : Regular config h)
    (hu : (h.apply v).1.upkeep? now (h.apply v).2 = some u) : 0 < h.count := by
  rw [Nat.pos_iff_ne_zero]
  intro hzero
  have hnative := h0.unused hzero
  rw [← h0.configured] at hnative
  rw [upkeep?_fresh hnative now v] at hu
  cases hu

/-- What an action reports, set against what becomes of the histogram. -/
structure Explained (a : Act) (h h' : Histogram σ) (events : List Event) : Prop where
  quiet : a.counts = false → events = []
  /-- A reset is a counted value after which the count is no higher, and all that is reported then. -/
  reset : .reset ∈ events ↔ a.counts = true ∧ h'.count ≤ h.count
  alone : .reset ∈ events → events = [.reset]
  /-- Otherwise a new schema and a new threshold are reported once. -/
  schema : .reset ∉ events → ∀ n ∈ h.native, ∀ n' ∈ h'.native, n'.schema ≠ n.schema →
    events.filter Event.moves = [.halved n'.schema]
  zeroThreshold : .reset ∉ events → ∀ n ∈ h.native, ∀ n' ∈ h'.native, n'.zeroThreshold ≠ n.zeroThreshold →
    events.filter Event.moves = [.widened n'.zeroThreshold]
  halved : ∀ s, .halved s ∈ events → ∃ n ∈ h.native, ∃ n' ∈ h'.native, n'.schema = s ∧ s = n.schema - 1
  /-- With the value counted a bucket is folded into the zero bucket, and it was not empty. -/
  widened : ∀ t, .widened t ∈ events → ∃ now v tag, a = .observe now v tag ∧ ∃ n ∈ h.native, ∃ key,
    0 < (n.observe v).1.positive.count key + (n.observe v).1.negative.count key ∧
    h'.native = some { (n.observe v).1.foldIntoZero key with zeroThreshold := t }

/-- Nothing needs to be reported where the count goes on and schema and threshold stay. -/
theorem explained_nil (hcount : a.counts = true → h.count < h'.count)
    (hsame : ∀ n ∈ h.native, ∀ n' ∈ h'.native, n'.schema = n.schema ∧ n'.zeroThreshold = n.zeroThreshold) :
    Explained a h h' [] where
  quiet := fun _ => rfl
  reset := by
    refine ⟨fun he => (nomatch he), ?_⟩
    rintro ⟨ha,hle⟩
    exact absurd (hcount ha) (Nat.not_lt.mpr hle)
  alone := fun he => nomatch he
  schema := fun _ n hn n' hn' hne => absurd (hsame n hn n' hn').1 hne
  zeroThreshold := fun _ n hn n' hn' hne => absurd (hsame n hn n' hn').2 hne
  halved := fun _ he => nomatch he
  widened := fun _ he => nomatch he

theorem explained_apply (now : Time) (v : Float) (tag : Option Tag) (h : Histogram σ) :
    Explained (.observe now v tag) h (h.apply v).1 [] := by
  refine explained_nil (fun _ => Nat.lt_succ_self h.count) ?_
  intro n hn n' hn'
  rw [(native_apply hn).1] at hn'
  cases hn'
  exact ⟨State.schema_observe v n, State.zeroThreshold_observe v n⟩

theorem count_smallestKey_pos {key : Int} (hs : n.Sound) (hk : n.smallestKey? = some key) :
    0 < n.positive.count key + n.negative.count key := by
  rw [Buckets.count_eq hs.positive, Buckets.count_eq hs.negative]
  rcases (hs.smallestKey hk).1 with hm | hm
  · exact Nat.add_pos_left (List.count_pos_iff.mpr hm) _
  · exact Nat.add_pos_right _ (List.count_pos_iff.mpr hm)

theorem Upkept.explained (hu : Upkept c n v h.count m h'.count events) (hs : n.Sound) (hn : h.native = some n)
    (hm : h'.native = some m) (hv : v.isNaN = false) (now : Time) (tag : Option Tag) :
    Explained (.observe now v tag) h h' events := by
  have hcounts := Act.counts_of_number hv now tag
  have hquiet : (Act.observe now v tag).counts = false → events = [] := by
    rw [hcounts]
    exact fun he => nomatch he
  have hstates {k k' : State} (hk : k ∈ h.native) (hk' : k' ∈ h'.native) : k = n ∧ k' = m :=
    ⟨Option.some.inj (hk.symm.trans hn), Option.some.inj (hk'.symm.trans hm)⟩
  generalize hc : h.count = count at hu
  generalize hc' : h'.count = count' at hu
  cases hu with
  | plain =>
    refine explained_nil (fun _ => by omega) ?_
    intro k hk k' hk'
    obtain ⟨rfl,rfl⟩ := hstates hk hk'
    exact ⟨State.schema_observe v k, State.zeroThreshold_observe v k⟩
  | widened hw =>
    refine ⟨hquiet, by simp [hc, hc'], by simp, ?_, ?_, by simp, ?_⟩
    · intro _ k hk k' hk' hne
      obtain ⟨rfl,rfl⟩ := hstates hk hk'
      exact absurd (schema_widened hw) hne
    · intro _ k hk k' hk' _
      obtain ⟨rfl,rfl⟩ := hstates hk hk'
      rfl
    · intro t ht
      cases List.mem_singleton.mp ht
      obtain ⟨key,hkey,rfl⟩ := State.widen?_eq_some hw
      exact ⟨now, v, tag, rfl, n, hn, key, count_smallestKey_pos (hs.observe v) hkey, hm⟩
  | @halved m rest hh hrest =>
    -- Reports of the limit may follow the halving; they move nothing.
    have hother {e : Event} (he : e ∈ .halved m.schema :: rest) (hne : ∀ k, e ≠ .overLimit k) : e = .halved m.schema := by
      rcases List.mem_cons.mp he with he | he
      · exact he
      · obtain ⟨k,hk⟩ := hrest e he
        exact absurd hk (hne k)
    have hreset : .reset ∉ .halved m.schema :: rest := fun he => nomatch hother he fun _ hk => nomatch hk
    refine ⟨hquiet, by simp [hc, hc', hreset], fun he => absurd he hreset, ?_, ?_, ?_, ?_⟩
    · intro _ k hk k' hk' _
      obtain ⟨rfl,rfl⟩ := hstates hk hk'
      rw [List.filter_cons_of_pos rfl, filter_moves_overLimit hrest]
    · intro _ k hk k' hk' hne
      obtain ⟨rfl,rfl⟩ := hstates hk hk'
      exact absurd (zeroThreshold_halved hh) hne
    · intro s he
      cases hother he fun _ hk => nomatch hk
      exact ⟨n, hn, m, hm, rfl, schema_halved hh⟩
    · intro t he
      cases hother he fun _ hk => nomatch hk
  | reset hcount =>
    refine ⟨hquiet, ?_, fun _ => rfl, by simp, by simp, by simp, by simp⟩
    simp only [List.mem_singleton, hcounts, hc, hc', true_and, true_iff]
    exact hcount

variable [Sampler σ]

theorem upkept_record (h0 : Regular config h) (hc : config.native = some c) (hn : h.native = some n) (now : Time)
    (v : Float) : ∃ m, (h.record now v).1.native = some m ∧
      Upkept c n v h.count m (h.record now v).1.count (h.record now v).2 := by
  have hcfg := h0.native_config hc
  have hn1 := (native_apply (v := v) hn).1
  have hpart : (h.apply v).1.nativePart? = some ((n.observe v).1, c) := nativePart?_eq_some.mpr ⟨hn1, hcfg⟩
  cases hu : (h.apply v).1.upkeep? now (h.apply v).2 with
  | none =>
    rw [record_of_none hu]
    exact ⟨_, hn1, .plain⟩
  | some u =>
    cases u with
    | shrink =>
      rw [record_of_shrink hu]
      rcases shrink_cases hpart ((upkeep?_eq_shrink_iff hpart).mp hu).2.2.1 [] with ⟨m,hw,heq⟩ | ⟨m,rest,_,hh,hrest,heq⟩
      · rw [heq]
        exact ⟨m, rfl, .widened hw⟩
      · rw [heq]
        exact ⟨m, rfl, .halved hh hrest⟩
    | reset =>
      rw [record_of_reset hu]
      exact ⟨_, (native_apply (native_reset (h := (h.apply v).1) hcfg now)).1, .reset (count_pos_of_upkeep h0 hu)⟩

theorem record_classic (h0 : Regular config h) (hc : config.native = none) (now : Time) (v : Float) :
    h.record now v = ((h.apply v).1, []) := by
  refine record_of_none ?_
  cases hu : (h.apply v).1.upkeep? now (h.apply v).2 with
  | none => rfl
  | some u =>
    obtain ⟨n,c,hp,_⟩ := upkeep?_eq_some hu
    have hcfg : h.config.native = some c := (nativePart?_eq_some.mp hp).2
    rw [h0.configured, hc] at hcfg
    cases hcfg

theorem explained_record (h0 : Regular config h) (hv : v.isNaN = false) (now : Time) (tag : Option Tag) :
    Explained (.observe now v tag) h (h.record now v).1 (h.record now v).2 := by
  cases hc : config.native with
  | none =>
    rw [record_classic h0 hc]
    exact explained_apply now v tag h
  | some c =>
    obtain ⟨n,hn,hb,_⟩ := h0.ranged c hc
    obtain ⟨m,hm,hu⟩ := upkept_record h0 hc hn now v
    exact hu.explained hb.toSound hn hm hv now tag

def Answer.upkeep : Answer → List Event
  | .observed events => events
  | .collected _ => []

/-- Whoever has followed these reports from the start knows schema and threshold. -/
def Told (config : HistogramConfig) (h : Histogram σ) (events : List Event) : Prop :=
  ∀ c ∈ config.native, ∃ n ∈ h.native, events.foldl c.resolution.followEvent c.resolution = n.resolution

omit [Sampler σ] in
theorem told_new (config : HistogramConfig) (created : Time) (sampler : Option σ) :
    Told config (new config created sampler) [] :=
  fun c hc => ⟨c.fresh, native_new hc created sampler, rfl⟩

theorem Told.record (ht : Told config h events) (h0 : Regular config h) (now : Time) (v : Float) :
    Told config (h.record now v).1 (events ++ (h.record now v).2) := by
  intro c hc
  obtain ⟨n,hn,hfold⟩ := ht c hc
  obtain ⟨m,hm,hu⟩ := upkept_record h0 hc hn now v
  refine ⟨m, hm, ?_⟩
  rw [List.foldl_append, hfold]
  exact hu.resolution

theorem Regular.record (hacc : config.Accepted) (h0 : Regular config h) {b : Buffer} (hq : b.Quiet)
    (hb : b.sequence = (h.record now v).1.count) (tag : Option Tag) :
    Regular config (((h.record now v).1.withBuffer b).offer v tag) where
  quiet := hq
  announced := hb
  configured := (ranged_record hacc now v h0.toRanged).configured
  ranged := (ranged_record hacc now v h0.toRanged).ranged
  unused := by
    intro hzero
    change (h.record now v).1.count = 0 at hzero
    have hr := recorded now v h
    generalize h.record now v = r at hr hzero
    cases hr with
    | plain hu => exact absurd hzero (Nat.succ_ne_zero _)
    | shrunk hn hs hw he => exact absurd hzero (Nat.succ_ne_zero _)
    | reset hn => exact absurd hzero (Nat.succ_ne_zero _)

omit [Sampler σ] in
theorem Regular.idle (h0 : Regular config h) {b : Buffer} (hq : b.Quiet) (hb : b.sequence = h.count)
    (s : Option σ) : Regular config { h with buffer := b, sampler := s } where
  quiet := hq
  announced := hb
  configured := h0.configured
  ranged := h0.ranged
  unused := h0.unused

/-- What a call reports says what becomes of the histogram, and keeps its reader up to date. -/
theorem Regular.call (hacc : config.Accepted) (h0 : Regular config h)
    (hroom : h.count + [a].countP Act.counts < 2 ^ 63) :
    Regular config (h.call a).1 ∧ (h.call a).1.count ≤ h.count + [a].countP Act.counts ∧
      Explained a h (h.call a).1 (h.call a).2.upkeep ∧
      ∀ events, Told config h events → Told config (h.call a).1 (events ++ (h.call a).2.upkeep) := by
  have hupkeep : (h.call a).2.upkeep = ({ histogram := h } : Course σ).events a := by
    cases a with
    | observe now v tag => rfl
    | collect => rfl
  have hstep := Course.stepped (c := { histogram := h }) h0.toSettled hroom
  have hcount := hstep.settled.2
  rw [hupkeep, call_eq a { histogram := h } h0.toSettled]
  dsimp only
  generalize Course.step { histogram := h } a = next at hstep hcount ⊢
  generalize Course.events { histogram := h } a = upkeep at hstep
  cases hstep with
  | idle ha hq hb hs =>
    refine ⟨h0.idle hq hb _, hcount, explained_nil (by simp [ha]) ?_, ?_⟩
    · intro n hn n' hn'
      cases hn.symm.trans hn'
      exact ⟨rfl, rfl⟩
    · intro events ht
      rw [List.append_nil]
      exact ht
  | @recorded now v b tag hv hq hb =>
    have hexplained := explained_record h0 hv now tag
    -- Nothing is said of the buffer and the sampler, in which the two histograms differ.
    exact ⟨h0.record hacc hq hb tag, hcount, { hexplained with }, fun events ht => ht.record h0 now v⟩

theorem Told.report (ht : Told config h events) (hs : Settled h) :
    ∀ c ∈ config.native, ∃ n ∈ h.collect.2.native,
      events.foldl c.resolution.followEvent c.resolution = n.resolution := by
  intro c hc
  obtain ⟨n,hn,hfold⟩ := ht c hc
  rw [snapshot_collect hs]
  exact ⟨nativeSnapshot n, Option.mem_map_of_mem nativeSnapshot hn, hfold⟩

end Histogram
end Metering
