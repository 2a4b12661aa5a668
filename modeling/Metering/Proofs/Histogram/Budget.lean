import Metering.Proofs.Histogram.Reclassification

/-! # The bucket budget over a run

Halving may merge nothing, and only one step is taken per new bucket, so that the number of native
buckets can pass the limit. It passes it by at most the number of halvings so far; at the lowest
schema, where shrinking stops, the keys that are left bound it.
-/
namespace Metering
open Binary64 Native

namespace Native

def State.populated (s : State) : Nat :=
  (s.positive.countP fun kc => 0 < kc.2) + s.negative.countP fun kc => 0 < kc.2

theorem Buckets.Tidy.countP_filled {b : Buckets} (h : b.Tidy) :
    (b.countP fun kc => 0 < kc.2) = b.length :=
  List.countP_eq_length.mpr fun kc hm => decide_eq_true (h.filled kc hm)

theorem State.Sound.bucketNumber_eq_populated {s : State} (h : s.Sound) : s.bucketNumber = s.populated := by
  rw [h.number, populated, h.positive.countP_filled, h.negative.countP_filled]

/-- Distinct keys within bounds are no more than there are keys within them. -/
theorem Buckets.Tidy.length_le {b : Buckets} (h : b.Tidy) {low high : Int}
    (hk : ∀ kc ∈ b, low ≤ kc.1 ∧ kc.1 ≤ high) : b.length ≤ (high + 1 - low).toNat := by
  have hnodup : (b.map Prod.fst).Nodup := List.pairwise_map.mpr (h.ascending.imp fun hab => hab.ne)
  have hsub : (b.map Prod.fst).toFinset ⊆ Finset.Icc low high := by
    intro k hm
    obtain ⟨kc,hmem,rfl⟩ := List.mem_map.mp (List.mem_toFinset.mp hm)
    exact Finset.mem_Icc.mpr (hk kc hmem)
  have hcard := Finset.card_le_card hsub
  rw [List.toFinset_card_of_nodup hnodup, List.length_map, Int.card_Icc] at hcard
  exact hcard

theorem State.Sound.keys_minSchema {s : State} (h : s.Sound) (hs : s.schema = minSchema) :
    ∀ kc ∈ s.positive ++ s.negative, -67 ≤ kc.1 ∧ kc.1 ≤ 65 := by
  intro kc hm
  have hindex : IsIndex minSchema kc.1 := by
    rw [← hs]
    rcases List.mem_append.mp hm with hm | hm
    · exact h.positive_keys _ ((Buckets.mem_occurrences h.positive.filled).mpr ⟨kc, hm, rfl⟩)
    · exact h.negative_keys _ ((Buckets.mem_occurrences h.negative.filled).mpr ⟨kc, hm, rfl⟩)
  obtain ⟨v,hn,hp,he⟩ := hindex
  rw [← he]
  exact bucketIndex_minSchema hn hp

theorem State.Sound.bucketNumber_minSchema {s : State} (h : s.Sound) (hs : s.schema = minSchema) :
    s.bucketNumber ≤ 266 := by
  have hk := h.keys_minSchema hs
  have hp := h.positive.length_le fun kc hm => hk kc (List.mem_append_left _ hm)
  have hn := h.negative.length_le fun kc hm => hk kc (List.mem_append_right _ hm)
  rw [h.number]
  have he : ((65 : Int) + 1 - -67).toNat = 133 := by decide
  omega

end Native

namespace Histogram

variable {σ : Type} [Sampler σ]
variable {h : Histogram σ} {c : NativeConfig} {v : Float}

/-- Over the limit by no more than the halvings that the schema tells of. -/
structure Budgeted (c : NativeConfig) (s : State) : Prop extends s.Sound where
  lowered : s.schema ≤ c.initialSchema
  within : minSchema < s.schema → (s.bucketNumber : Int) ≤ c.maxBuckets + (c.initialSchema - s.schema)

theorem bucketNumber_le_of_not_over {s : State} (hm : c.maxBuckets ≠ 0) (h : overBudget c s = false) :
    s.bucketNumber ≤ c.maxBuckets := by
  rw [overBudget, bne_iff_ne.mpr hm, Bool.true_and, decide_eq_false_iff_not] at h
  omega

theorem budgeted_fresh (hc : c.Accepted) : Budgeted c c.fresh where
  toSound := hc.sound
  lowered := Int.le_refl _
  within := by
    intro _
    have h0 : c.fresh.bucketNumber = 0 := rfl
    have hs : c.fresh.schema = c.initialSchema := rfl
    omega

theorem budgeted_fresh_observe (hc : c.Accepted) (hm : c.maxBuckets ≠ 0) (v : Float) :
    Budgeted c (c.fresh.observe v).1 where
  toSound := hc.sound.observe v
  lowered := by
    rw [State.schema_observe]
    exact Int.le_refl _
  within := by
    intro _
    have hn := State.bucketNumber_observe v c.fresh
    have h0 : c.fresh.bucketNumber = 0 := rfl
    have hs : c.fresh.schema = c.initialSchema := rfl
    rw [State.schema_observe, hs]
    split at hn <;> omega

/-- Shrinking makes up for the bucket that was created. -/
theorem Budgeted.shrink {n n' : State} {limit : Float} (h : Budgeted c n)
    (hw : (n.observe v).1.widen? limit = some n' ∨ (n.observe v).1.halve? = some n') :
    Budgeted c n' := by
  have hs := h.toSound.observe v
  have hn := State.bucketNumber_observe v n
  have hschema := State.schema_observe v n
  have hle := h.lowered
  have hwithin := h.within
  have hnum : (n.observe v).1.bucketNumber ≤ n.bucketNumber + 1 := by
    split at hn <;> omega
  rcases hw with hw | hh
  · have hlt := hs.bucketNumber_widen hw
    have hsame := State.schema_widen hw
    refine ⟨hs.widen hw, by omega, ?_⟩
    intro h4
    have := hwithin (by omega)
    omega
  · have hle' := hs.bucketNumber_halve hh
    have hdown := State.schema_halve hh
    refine ⟨hs.halve hh, by omega, ?_⟩
    intro h4
    have := hwithin (by omega)
    omega

def OnBudget (c : NativeConfig) (h : Histogram σ) : Prop :=
  h.config.native = some c ∧ ∃ n, h.native = some n ∧ Budgeted c n

theorem onBudget_record (hc : c.Accepted) (hm : c.maxBuckets ≠ 0) (now : Time) (v : Float)
    (h0 : OnBudget c h) : OnBudget c (h.record now v).1 := by
  obtain ⟨hcfg,n,hn,hb⟩ := h0
  obtain ⟨hn1,hcr⟩ := native_apply (v := v) hn
  have hpart : (h.apply v).1.nativePart? = some _ := nativePart?_eq_some.mpr ⟨hn1, hcfg⟩
  have hr := recorded now v h
  generalize h.record now v = r at hr ⊢
  cases hr with
  | plain hu =>
    refine ⟨hcfg, _, hn1, hb.toSound.observe v, ?_, ?_⟩
    · rw [State.schema_observe]
      exact hb.lowered
    · intro h4
      have hle := hb.lowered
      have hnum := State.bucketNumber_observe v n
      rw [State.schema_observe] at h4 ⊢
      -- A new bucket past the limit would have called for upkeep; without a new one the number stays.
      cases hcreated : (n.observe v).2 with
      | true =>
        have hover : overBudget c (n.observe v).1 = false := by
          rw [← Bool.not_eq_true]
          intro ho
          refine not_crowded_of_upkeep?_none hu hpart ⟨hcr.trans hcreated, ?_, ho⟩
          rw [State.schema_observe]
          exact h4
        have := bucketNumber_le_of_not_over hm hover
        omega
      | false =>
        have := hb.within h4
        rw [hcreated, if_neg Bool.false_ne_true] at hnum
        omega
  | shrunk hn' hs hw he =>
    rw [hpart] at hn'
    cases hn'
    exact ⟨hcfg, _, rfl, hb.shrink hw⟩
  | reset hn' =>
    have hfresh := native_reset (h := (h.apply v).1) hcfg now
    exact ⟨hcfg, _, (native_apply hfresh).1, budgeted_fresh_observe hc hm v⟩

theorem onBudget_run {config : HistogramConfig} (hacc : c.Accepted) (hc : config.native = some c) (hm : c.maxBuckets ≠ 0)
    (created : Time) (sampler : Option σ) {acts : List Act} (hroom : acts.countP Act.counts < 2 ^ 63) :
    OnBudget c (Course.run config created sampler acts).histogram :=
  (Course.run_invariant (fun h _ => OnBudget c h) config created sampler (fun _ _ _ _ hi => hi)
    ⟨hc, c.fresh, native_new hc created sampler, budgeted_fresh hacc⟩
    (fun _ _ now v hi _ _ => onBudget_record hacc hm now v hi) hroom (fun _ _ _ _ _ => trivial)).2

/-- After any run the populated buckets pass the limit by at most the number of halvings, and at the
lowest schema there are at most 266 of them, with keys from -67 to 65. Also while the next value is
counted the kept number is right, and folding a key never takes it below zero. -/
theorem bucketNumber_le_budget {o : HistogramOptions} {config : HistogramConfig} {c : NativeConfig}
    (ho : o.config = .ok config) (hc : config.native = some c) (hm : c.maxBuckets ≠ 0) (created : Time)
    (sampler : Option σ) {acts : List Act} (hroom : acts.countP Act.counts < 2 ^ 63) :
    ∃ s, (Course.run config created sampler acts).histogram.native = some s ∧
      s.bucketNumber = s.populated ∧
      (minSchema < s.schema → (s.populated : Int) ≤ c.maxBuckets + (c.initialSchema - s.schema)) ∧
      (s.schema = minSchema → s.populated ≤ 266 ∧
        ∀ kc ∈ s.positive ++ s.negative, -67 ≤ kc.1 ∧ kc.1 ≤ 65) ∧
      ∀ v, (s.observe v).1.bucketNumber = (s.observe v).1.populated ∧
        ∀ key, (s.observe v).1.sides key ≤ (s.observe v).1.bucketNumber := by
  have hacc := (HistogramOptions.config_accepted ho).native c hc
  obtain ⟨_,s,hn,hb⟩ := onBudget_run hacc hc hm created sampler hroom
  have hpop := hb.bucketNumber_eq_populated
  refine ⟨s, hn, hpop, ?_, ?_, ?_⟩
  · rw [← hpop]
    exact hb.within
  · intro hs
    rw [← hpop]
    exact ⟨hb.bucketNumber_minSchema hs, hb.keys_minSchema hs⟩
  · intro v
    exact ⟨(hb.toSound.observe v).bucketNumber_eq_populated, (hb.toSound.observe v).sides_le⟩

theorem bucketNumber_le_budget_tight :
    ∃ s, (Course.run HistogramOptions.tightConfig 0 unsampled tightRun).histogram.native = some s ∧
      s.bucketNumber = s.populated ∧
      (minSchema < s.schema → (s.populated : Int) ≤ 1 + (0 - s.schema)) ∧
      (s.schema = minSchema → s.populated ≤ 266 ∧
        ∀ kc ∈ s.positive ++ s.negative, -67 ≤ kc.1 ∧ kc.1 ≤ 65) ∧
      ∀ v, (s.observe v).1.bucketNumber = (s.observe v).1.populated ∧
        ∀ key, (s.observe v).1.sides key ≤ (s.observe v).1.bucketNumber :=
  bucketNumber_le_budget HistogramOptions.config_tight rfl Nat.one_ne_zero 0 none room_tightRun

end Histogram
end Metering
