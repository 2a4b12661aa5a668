import Metering.Proofs.Histogram.Accepted
import Metering.Proofs.Histogram.Frame
import Metering.Proofs.Histogram.Resets

/-! # Which options are accepted

Options are accepted just when their kinds, bounds, resolution and thresholds are sound, each looked at only where it
is used. What accepted options give is complete: the bounds that were given, ascending and closed by infinity, and the
kinds of buckets that every report of the histogram shows.
-/
namespace Metering.HistogramOptions
open Binary64 Native

/-- What is asked of options; what an only kind leaves unused is not looked at. -/
structure Sound (o : HistogramOptions) : Prop where
  kinds : ¬ (o.classicOnly = true ∧ o.nativeOnly = true)
  bounds : o.nativeOnly = true ∨ ∀ given ∈ o.buckets, ∀ b ∈ given, b.isNaN = false
  resolution : o.classicOnly = true ∨
    (∀ factor ∈ o.factor, 1 < factor) ∧ (o.factor = none → minSchema ≤ o.schema ∧ o.schema ≤ maxSchema)
  thresholds : o.classicOnly = true ∨
    (o.minZeroThreshold.isNaN = false ∧ o.maxZeroThreshold.isNaN = false) ∧
      0 ≤ o.minZeroThreshold ∧ o.minZeroThreshold ≤ o.maxZeroThreshold

structure Configured (o : HistogramOptions) (c : HistogramConfig) : Prop where
  empty_iff : c.bounds = #[] ↔ o.NoClassic
  bounds : c.bounds ≠ #[] → Completed (o.buckets.getD defaultBounds) c.bounds.toList
  schema : ∀ n ∈ c.native, (minSchema ≤ n.initialSchema ∧ n.initialSchema ≤ maxSchema) ∧
    (o.factor = none → n.initialSchema = o.schema)
  native_iff : c.native.isSome = true ↔ o.classicOnly = false
  some_kind : c.bounds ≠ #[] ∨ c.native.isSome = true

variable {o : HistogramOptions} {c : HistogramConfig}

theorem isNaN_defaultBounds : ∀ b ∈ defaultBounds, b.isNaN = false := by
  decide +kernel

theorem classicBounds_ok_iff (o : HistogramOptions) :
    (∃ bounds, o.classicBounds = .ok bounds) ↔
      o.nativeOnly = true ∨ ∀ given ∈ o.buckets, ∀ b ∈ given, b.isNaN = false := by
  rcases classicBounds_cases o with ⟨hnone,hok⟩ | ⟨hsome,⟨⟨b,hb,hnan⟩,herr⟩ | ⟨hnum,hok⟩⟩
  · refine iff_of_true ⟨_, hok⟩ (hnone.imp id ?_)
    rintro ⟨hbuckets,_⟩ given hg
    rw [hbuckets] at hg
    cases hg
    exact fun _ hb => nomatch hb
  · refine iff_of_false ?_ ?_
    · rintro ⟨bounds,h⟩
      rw [herr] at h
      cases h
    · rintro (h | h)
      · exact hsome (.inl h)
      · cases hbuckets : o.buckets with
        | none =>
          rw [hbuckets] at hb
          rw [isNaN_defaultBounds b hb] at hnan
          cases hnan
        | some given =>
          rw [hbuckets] at hb
          rw [h given hbuckets b hb] at hnan
          cases hnan
  · refine iff_of_true ⟨_, hok⟩ (.inr fun given hg => ?_)
    rwa [Option.mem_def.mp hg] at hnum

theorem chosenSchema_ok_iff (o : HistogramOptions) :
    (∃ s, o.chosenSchema = .ok s) ↔
      (∀ factor ∈ o.factor, 1 < factor) ∧ (o.factor = none → minSchema ≤ o.schema ∧ o.schema ≤ maxSchema) := by
  rw [chosenSchema]
  cases o.factor with
  | none =>
    constructor
    · rintro ⟨s,hs⟩
      exact ⟨fun _ h => absurd h (Option.not_mem_none _), fun _ => (checkSchema_eq_ok_iff.mp hs).1⟩
    · rintro ⟨_,hr⟩
      exact ⟨_, checkSchema_eq_ok_iff.mpr ⟨hr rfl, rfl⟩⟩
  | some factor =>
    refine schemaOfFactor_ok_iff.trans ⟨fun h => ⟨?_, fun hf => absurd hf (Option.some_ne_none _)⟩,
      fun h => h.1 factor rfl⟩
    rintro _ ⟨⟩
    exact h

theorem nativeConfig_ok_iff (o : HistogramOptions) :
    (∃ native, o.nativeConfig = .ok native) ↔
      o.classicOnly = true ∨ (∃ s, o.chosenSchema = .ok s) ∧
        0 ≤ o.minZeroThreshold ∧ o.minZeroThreshold ≤ o.maxZeroThreshold := by
  cases hc : o.classicOnly with
  | true => exact iff_of_true ⟨_, nativeConfig_of_classicOnly hc⟩ (.inl rfl)
  | false =>
    simp only [nativeConfig_eq_ok_iff hc, Bool.false_eq_true, false_or]
    exact ⟨fun ⟨_, s, hs, h, _⟩ => ⟨⟨s, hs⟩, h⟩, fun ⟨⟨s, hs⟩, h⟩ => ⟨_, s, hs, h, rfl⟩⟩

/-- Options are accepted when both of their parts are. -/
theorem config_ok_iff (o : HistogramOptions) :
    (∃ c, o.config = .ok c) ↔ ¬ (o.classicOnly = true ∧ o.nativeOnly = true) ∧
      (∃ bounds, o.classicBounds = .ok bounds) ∧ ∃ native, o.nativeConfig = .ok native := by
  constructor
  · rintro ⟨c,hc⟩
    obtain ⟨hkinds,hb,hn⟩ := parts_of_config hc
    exact ⟨by simpa using hkinds, ⟨_, hb⟩, _, hn⟩
  · rintro ⟨hkinds,⟨bounds,hb⟩,native,hn⟩
    exact ⟨_, config_of_parts (by simpa using hkinds) hb hn⟩

theorem config_ok_iff_sound (o : HistogramOptions) : (∃ c, o.config = .ok c) ↔ o.Sound := by
  rw [config_ok_iff, classicBounds_ok_iff, nativeConfig_ok_iff, chosenSchema_ok_iff]
  constructor
  · rintro ⟨hkinds,hbounds,hnative⟩
    refine ⟨hkinds, hbounds, hnative.imp id And.left, hnative.imp id fun h => ⟨?_, h.2⟩⟩
    exact ⟨(isNaN_of_le h.2.1).2, (isNaN_of_le h.2.2).2⟩
  · rintro ⟨hkinds,hbounds,hresolution,hthresholds⟩
    refine ⟨hkinds, hbounds, ?_⟩
    rcases hresolution with hc | hr
    · exact .inl hc
    · exact hthresholds.imp id fun h => ⟨hr, h.2⟩

theorem configured_of_config (h : o.config = .ok c) : Configured o c := by
  obtain ⟨hkinds,hb,hn⟩ := parts_of_config h
  have hnative : c.native.isSome = true ↔ o.classicOnly = false := by
    cases hc : o.classicOnly with
    | true =>
      rw [nativeConfig_of_classicOnly hc] at hn
      rw [← Except.ok.inj hn]
      exact iff_of_false Bool.false_ne_true (fun h => nomatch h)
    | false =>
      obtain ⟨s,_,_,hs⟩ := (nativeConfig_eq_ok_iff hc).mp hn
      rw [hs]
      exact iff_of_true rfl rfl
  have hschema : ∀ n ∈ c.native, (minSchema ≤ n.initialSchema ∧ n.initialSchema ≤ maxSchema) ∧
      (o.factor = none → n.initialSchema = o.schema) := by
    intro n hmem
    obtain ⟨hs,_⟩ := checks_of_nativeConfig (hn.trans (congrArg Except.ok hmem))
    refine ⟨chosenSchema_range hs, fun hf => ?_⟩
    rw [chosenSchema, hf] at hs
    exact (checkSchema_eq_ok_iff.mp hs).2.symm
  rcases classicBounds_cases o with ⟨hnone,hok⟩ | ⟨hsome,⟨_,herr⟩ | ⟨hnum,hok⟩⟩
  · have hempty : c.bounds = #[] := by
      rw [hb] at hok
      exact Array.toList_eq_nil_iff.mp (Except.ok.inj hok)
    refine ⟨iff_of_true hempty hnone, fun hne => absurd hempty hne, hschema, hnative, .inr ?_⟩
    rw [hnative]
    rcases hnone with honly | ⟨_,hc⟩
    · rwa [honly, Bool.and_true] at hkinds
    · exact hc
  · rw [hb] at herr
    cases herr
  · have hbounds : c.bounds.toList = complete (o.buckets.getD defaultBounds) := by
      rw [hb] at hok
      exact Except.ok.inj hok
    have hcompleted := completed_complete hnum
    rw [← hbounds] at hcompleted
    have hne : c.bounds ≠ #[] := by
      intro he
      have hlast := hcompleted.last
      rw [he] at hlast
      cases hlast
    exact ⟨iff_of_false hne hsome, fun _ => hcompleted, hschema, hnative, .inl hne⟩

theorem kind_snapshot {σ : Type} {g : Histogram σ} (hs : g.Shaped c) (exemplars : List Exemplar) :
    (g.snapshot exemplars).kind =
      if c.bounds.isEmpty then .native else if c.native.isSome then .hybrid else .classic := by
  have hlength : (g.snapshot exemplars).classic.length = c.bounds.size := by
    rw [Histogram.snapshot, length_cumulate, List.length_zip, Array.length_toList, Array.length_toList, hs.config,
      hs.classic, Nat.min_self]
  have hempty : (g.snapshot exemplars).classic.isEmpty = c.bounds.isEmpty := by
    rw [Bool.eq_iff_iff, List.isEmpty_iff_length_eq_zero, Array.isEmpty_iff_size_eq_zero, hlength]
  have hnative : (g.snapshot exemplars).native.isSome = c.native.isSome := Option.isSome_map.trans hs.native
  rw [HistogramSnapshot.kind, hempty, hnative]

theorem kind_report {σ : Type} [Sampler σ] (c : HistogramConfig) (created : Time) (sampler : Option σ)
    (acts : List Histogram.Act) :
    (Histogram.Course.run c created sampler acts).report.kind =
      if c.bounds.isEmpty then .native else if c.native.isSome then .hybrid else .classic := by
  have hs := Histogram.shaped_run c created sampler acts
  obtain ⟨_,g,hg,heq⟩ := Histogram.collect_framed (Histogram.Course.run c created sampler acts).histogram
  rw [Histogram.Course.report, heq, kind_snapshot (hs.framed hg)]

theorem Configured.kinds (h : Configured o c) {kind : HistogramKind}
    (hk : kind = if c.bounds.isEmpty then .native else if c.native.isSome then .hybrid else .classic) :
    (kind = .classic ↔ o.classicOnly = true) ∧ (kind = .native ↔ c.bounds = #[]) ∧
      (kind = .hybrid ↔ o.classicOnly = false ∧ c.bounds ≠ #[]) := by
  have hnative := h.native_iff
  have hsome := h.some_kind
  rw [hk]
  cases hb : c.bounds.isEmpty with
  | true =>
    have he : c.bounds = #[] := Array.isEmpty_iff.mp hb
    have hclassic : o.classicOnly = false := hnative.mp (hsome.resolve_left (not_not_intro he))
    simp [he, hclassic]
  | false =>
    have hne : c.bounds ≠ #[] := fun he => by rw [he] at hb; cases hb
    cases hn : c.native.isSome with
    | true => simp [hne, hnative.mp hn]
    | false =>
      have hclassic : o.classicOnly = true := by
        rw [hn] at hnative
        simpa using hnative
      simp [hne, hclassic]

/-- Options are accepted exactly when they are sound, and what they give is complete: the bounds, a schema within the
supported range, whatever logarithm the growth factor has, and in every report the kind that was asked for. -/
theorem accepted_iff_sound (o : HistogramOptions) :
    ((∃ c, o.config = .ok c) ↔ o.Sound) ∧
      (∀ exponent : Float, minSchema ≤ schemaOfExponent exponent ∧ schemaOfExponent exponent ≤ maxSchema) ∧
      ∀ c, o.config = .ok c → Configured o c ∧
        ∀ (σ : Type) [Sampler σ] (created : Time) (sampler : Option σ) (acts : List Histogram.Act) (kind : HistogramKind),
          (Histogram.Course.run c created sampler acts).report.kind = kind →
            (kind = .classic ↔ o.classicOnly = true) ∧ (kind = .native ↔ c.bounds = #[]) ∧
              (kind = .hybrid ↔ o.classicOnly = false ∧ c.bounds ≠ #[]) := by
  refine ⟨config_ok_iff_sound o, schemaOfExponent_range, fun c hc => ?_⟩
  have hconfigured := configured_of_config hc
  refine ⟨hconfigured, fun σ _ created sampler acts kind hk => hconfigured.kinds ?_⟩
  rw [← hk]
  exact kind_report c created sampler acts

theorem accepted_iff_sound_restless :
    restlessOptions.config = .ok restlessConfig ∧ restlessOptions.Sound ∧ Configured restlessOptions restlessConfig ∧
      (Histogram.Course.run restlessConfig 0 Histogram.unsampled Histogram.restlessRun).report.kind = .hybrid := by
  obtain ⟨hsound,_,hgiven⟩ := accepted_iff_sound restlessOptions
  obtain ⟨hconfigured,hkind⟩ := hgiven restlessConfig config_restless
  have hne : restlessConfig.bounds ≠ #[] := by simp [restlessConfig, tightConfig]
  exact ⟨config_restless, hsound.mp ⟨_, config_restless⟩, hconfigured,
    (hkind Recorder 0 none Histogram.restlessRun _ rfl).2.2.mpr ⟨rfl, hne⟩⟩

end Metering.HistogramOptions
