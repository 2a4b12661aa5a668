import Metering.Proofs.Histogram.Consistency
import Metering.Proofs.Histogram.Resets
import Metering.Proofs.Native.Threshold

/-! # What moves one way

Between resets a histogram counts on, gives up resolution and widens its zero bucket, and takes none
of it back. Schema and threshold keep within the limits of the configuration at all times.
-/
namespace Metering
open Binary64 Native

theorem NativeConfig.Accepted.bounded {c : NativeConfig} (h : c.Accepted) :
    c.fresh.Bounded c.minZeroThreshold c.maxZeroThreshold where
  toSound := h.sound
  least := (le_iff_rank h.number h.number).mpr (le_refl _)
  most := h.ordered
  above := fun _ hk => nomatch hk

namespace Histogram
open HistogramOptions (restlessConfig config_restless)

variable {σ : Type} {config : HistogramConfig} {h : Histogram σ} {now : Time} {v t : Float}

/-- The native state keeps within the limits of the configuration. -/
structure Ranged (config : HistogramConfig) (h : Histogram σ) : Prop where
  configured : h.config = config
  ranged : ∀ c ∈ config.native, ∃ n, h.native = some n ∧
    n.Bounded c.minZeroThreshold c.maxZeroThreshold ∧ n.schema ≤ c.initialSchema

theorem ranged_new (hc : config.Accepted) (created : Time) (sampler : Option σ) :
    Ranged config (new config created sampler) where
  configured := rfl
  ranged := by
    intro c hm
    exact ⟨c.fresh, native_new hm created sampler, (hc.native c hm).bounded, le_refl _⟩

theorem Ranged.native_config (h0 : Ranged config h) {c : NativeConfig} (hm : config.native = some c) :
    h.config.native = some c :=
  (congrArg HistogramConfig.native h0.configured).trans hm

theorem ranged_apply (v : Float) (h0 : Ranged config h) : Ranged config (h.apply v).1 where
  configured := h0.configured
  ranged := by
    intro c hm
    obtain ⟨n,hn,hb,hs⟩ := h0.ranged c hm
    refine ⟨_, (native_apply hn).1, hb.observe v, ?_⟩
    rw [State.schema_observe]
    exact hs

theorem ranged_reset [Sampler σ] (hc : config.Accepted) (h0 : Ranged config h) (now : Time) : Ranged config (h.reset now) where
  configured := h0.configured
  ranged := by
    intro c hm
    exact ⟨c.fresh, native_reset (h0.native_config hm) now, (hc.native c hm).bounded, le_refl _⟩

theorem Ranged.part {n : State} {c : NativeConfig} (h0 : Ranged config h) (hp : h.nativePart? = some (n, c)) :
    n.Bounded c.minZeroThreshold c.maxZeroThreshold ∧ n.schema ≤ c.initialSchema := by
  obtain ⟨hn,hm⟩ := nativePart?_eq_some.mp hp
  rw [h0.configured] at hm
  obtain ⟨m,hn',hb,hs⟩ := h0.ranged c hm
  rw [hn] at hn'
  cases hn'
  exact ⟨hb, hs⟩

theorem ranged_record [Sampler σ] (hc : config.Accepted) (now : Time) (v : Float) (h0 : Ranged config h) :
    Ranged config (h.record now v).1 := by
  refine @record_invariant σ _ (fun h _ => Ranged config h) h [] v now ?_ ?_ ?_ h0
  · intro h _ h0
    exact ranged_apply v h0
  · intro h _ n n' c h0 hp hw
    obtain ⟨hb,hs⟩ := h0.part hp
    refine ⟨h0.configured, ?_⟩
    intro c' hm
    rw [← h0.configured, Option.mem_def, (nativePart?_eq_some.mp hp).2] at hm
    cases hm
    refine ⟨n', rfl, ?_⟩
    rcases hw with hw | hh
    · exact ⟨hb.widen hw, (State.schema_widen hw).le.trans hs⟩
    · refine ⟨hb.halve hh, ?_⟩
      rw [State.schema_halve hh]
      omega
  · intro h _ h0
    exact ranged_reset hc h0 now

theorem ranged_run [Sampler σ] (hc : config.Accepted) (created : Time) (sampler : Option σ) {acts : List Act}
    (hroom : acts.countP Act.counts < 2 ^ 63) : Ranged config (Course.run config created sampler acts).histogram :=
  (Course.run_invariant (fun h _ => Ranged config h) config created sampler (fun _ _ _ _ hi => ⟨hi.1, hi.2⟩)
    (ranged_new hc created sampler) (fun _ _ now v hi _ _ => ranged_record hc now v hi) hroom
    (fun _ _ _ _ _ => trivial)).2

/-- The count has not fallen, the schema has not risen, and the zero threshold has not fallen. -/
structure Onward (h h' : Histogram σ) : Prop where
  count : h.count ≤ h'.count
  native : ∀ n ∈ h.native, ∃ n' ∈ h'.native,
    n'.schema ≤ n.schema ∧ rank n.zeroThreshold ≤ rank n'.zeroThreshold

theorem Onward.refl (h : Histogram σ) : Onward h h where
  count := le_refl _
  native := fun n hn => ⟨n, hn, le_refl _, le_refl _⟩

theorem Onward.trans {h h' h'' : Histogram σ} (hh : Onward h h') (hh' : Onward h' h'') : Onward h h'' where
  count := hh.count.trans hh'.count
  native := by
    intro n hn
    obtain ⟨n',hn',hs,ht⟩ := hh.native n hn
    obtain ⟨n'',hn'',hs',ht'⟩ := hh'.native n' hn'
    exact ⟨n'', hn'', hs'.trans hs, ht.trans ht'⟩

theorem onward_apply (v : Float) (h : Histogram σ) : Onward h (h.apply v).1 where
  count := Nat.le_succ _
  native := by
    intro n hn
    refine ⟨_, (native_apply hn).1, ?_⟩
    rw [State.schema_observe, State.zeroThreshold_observe]
    exact ⟨le_refl _, le_refl _⟩

theorem onward_shrink {n n' : State} {c : NativeConfig} (hn : h.native = some n)
    (hb : n.Bounded c.minZeroThreshold c.maxZeroThreshold)
    (hw : n.widen? c.maxZeroThreshold = some n' ∨ n.halve? = some n') :
    Onward h { h with native := some n' } where
  count := le_refl _
  native := by
    intro m hm
    rw [hn] at hm
    cases hm
    refine ⟨n', rfl, ?_⟩
    rcases hw with hw | hh
    · have hle := hb.zeroThreshold_le_widen hw
      rw [le_iff_rank hb.threshold_number (isNaN_of_le hle).2] at hle
      exact ⟨(State.schema_widen hw).le, hle⟩
    · obtain ⟨_,rfl⟩ := State.halve?_eq_some hh
      exact ⟨by dsimp only; omega, le_refl _⟩

theorem Onward.zeroThreshold_le {h' : Histogram σ} (hgo : Onward h h') (h0 : Ranged config h) (h0' : Ranged config h')
    (hp : h.native.isSome = config.native.isSome) :
    ∀ n ∈ h.native, ∃ n' ∈ h'.native, n'.schema ≤ n.schema ∧ n.zeroThreshold ≤ n'.zeroThreshold := by
  intro n hn
  obtain ⟨n',hn',hs,ht⟩ := hgo.native n hn
  rw [hn, Option.isSome_some, eq_comm, Option.isSome_iff_exists] at hp
  obtain ⟨c,hm⟩ := hp
  have hb := (h0.part (nativePart?_eq_some.mpr ⟨hn, h0.native_config hm⟩)).1
  have hb' := (h0'.part (nativePart?_eq_some.mpr ⟨hn', h0'.native_config hm⟩)).1
  exact ⟨n', hn', hs, (le_iff_rank hb.threshold_number hb'.threshold_number).mpr ht⟩

variable [Sampler σ]

/-- Recording a value moves on, unless it resets the histogram. -/
theorem onward_record (h0 : Ranged config h) (hr : (h.record now v).2.any Event.isReset = false) :
    Onward h (h.record now v).1 := by
  have hgo := onward_apply v h
  cases hu : (h.apply v).1.upkeep? now (h.apply v).2 with
  | none =>
    rw [record_of_none hu]
    exact hgo
  | some u =>
    cases u with
    | reset =>
      rw [any_isReset_record.mpr hu] at hr
      cases hr
    | shrink =>
      obtain ⟨n,c,hp,hs⟩ := upkeep?_eq_some hu
      obtain ⟨n',more,heq,_,hw⟩ := shrink_spec (w := []) hp (hs rfl).2.1
      have hb := ((ranged_apply v h0).part hp).1
      rw [record_of_shrink hu, heq]
      exact hgo.trans (onward_shrink (nativePart?_eq_some.mp hp).1 hb hw)

theorem onward_run (hc : config.Accepted) (created : Time) (sampler : Option σ) {pre mid : List Act}
    (hroom : (pre ++ mid).countP Act.counts < 2 ^ 63)
    (hno : (Course.run config created sampler pre).resets mid = []) :
    Onward (Course.run config created sampler pre).histogram (Course.run config created sampler (pre ++ mid)).histogram := by
  induction mid using List.reverseRecOn with
  | nil =>
    rw [List.append_nil]
    exact Onward.refl _
  | append_singleton mid a ih =>
    rw [← List.append_assoc] at hroom ⊢
    have hstep := Course.stepped_run config created sampler hroom
    have hbefore := Course.room_left hroom
    rw [Course.resets_append, ← Course.run_append, Course.resets_singleton, List.append_eq_nil_iff] at hno
    have hgo := ih hbefore hno.1
    have h0 := ranged_run hc created sampler hbefore
    have hquiet := hno.2
    generalize Course.run config created sampler (pre ++ mid ++ [a]) = c' at hstep ⊢
    generalize Course.run config created sampler (pre ++ mid) = c at hstep hgo h0 hquiet
    generalize c.events a = events at hstep hquiet
    refine hgo.trans ?_
    cases hstep with
    | idle ha hq hb => exact ⟨le_refl _, (Onward.refl c.histogram).native⟩
    | @recorded now v b tag hv hq hb =>
      have hr : (c.histogram.record now v).2.any Event.isReset = false := by
        rw [← Bool.not_eq_true]
        intro hr
        rw [Act.reset?, if_pos hr] at hquiet
        cases hquiet
      have hgo' := onward_record h0 hr
      exact ⟨hgo'.count, hgo'.native⟩

/-- A widening that is reported was one of the zero bucket after the value was counted. -/
theorem widened_of_mem (he : .widened t ∈ (h.record now v).2) :
    ∃ n c m, (h.apply v).1.nativePart? = some (n, c) ∧ n.widen? c.maxZeroThreshold = some m ∧
      t = m.zeroThreshold ∧ (h.record now v).1.native = some m := by
  cases hu : (h.apply v).1.upkeep? now (h.apply v).2 with
  | none =>
    rw [record_of_none hu] at he
    cases he
  | some u =>
    cases u with
    | reset =>
      rw [record_of_reset hu] at he
      cases List.mem_singleton.mp he
    | shrink =>
      obtain ⟨n,c,hp,hs⟩ := upkeep?_eq_some hu
      rcases shrink_cases hp (hs rfl).2.1 [] with ⟨m,hw,heq⟩ | ⟨m,rest,_,_,hrest,heq⟩
      · rw [record_of_shrink hu, heq] at he ⊢
        cases List.mem_singleton.mp he
        exact ⟨n, c, m, hp, hw, rfl, rfl⟩
      · rw [record_of_shrink hu, heq] at he
        rcases List.mem_cons.mp he with he | he
        · cases he
        · obtain ⟨k,hk⟩ := hrest _ he
          cases hk

/-- A widening that is reported has raised the threshold, if not always strictly. -/
theorem raised_record (h0 : Ranged config h) (he : .widened t ∈ (h.record now v).2) :
    ∃ n c, h.native = some n ∧ config.native = some c ∧ n.zeroThreshold ≤ t ∧
      (∀ vs, Reclassified c h vs → Plain c.minZeroThreshold v → n.zeroThreshold < t) ∧
      ∃ m ∈ (h.record now v).1.native, m.zeroThreshold = t := by
  obtain ⟨n',c,m,hp,hw,rfl,hm⟩ := widened_of_mem he
  have hle := ((ranged_apply v h0).part hp).1.zeroThreshold_le_widen hw
  obtain ⟨hn',hcfg⟩ := nativePart?_eq_some.mp hp
  have hc : config.native = some c := h0.configured ▸ hcfg
  obtain ⟨n,hn,_⟩ := h0.ranged c hc
  rw [(native_apply hn).1] at hn'
  cases hn'
  rw [State.zeroThreshold_observe] at hle
  refine ⟨n, c, hn, hc, hle, ?_, m, hm, rfl⟩
  rintro vs ⟨_,k,hk,hcl⟩ hv
  rw [hn] at hk
  cases hk
  have hlt := (hcl.observe hv).zeroThreshold_lt_widen hw
  rwa [State.zeroThreshold_observe] at hlt

theorem plain_of_zero {least : Float} (hl : least.isNaN = false) (h0 : 0 ≤ rank least) (hv : Plain 0 v) :
    Plain least v := by
  obtain ⟨hn,ha⟩ := (plain_iff isNaN_zero).mp hv
  rw [rank_zero] at ha
  exact (plain_iff hl).mpr ⟨hn, ha.imp_left fun h => h.trans h0⟩

theorem raised_by_widening (hc : config.Accepted) (created : Time) (sampler : Option σ) {pre : List Act} {a : Act}
    (hroom : (pre ++ [a]).countP Act.counts < 2 ^ 63)
    (he : .widened t ∈ (Course.run config created sampler pre).events a) :
    ∃ n ∈ (Course.run config created sampler pre).histogram.native, n.zeroThreshold ≤ t ∧
      ((∀ now v tag, Act.observe now v tag ∈ pre ++ [a] → v.isNaN = false → Plain 0 v) → n.zeroThreshold < t) ∧
      ∃ n' ∈ (Course.run config created sampler (pre ++ [a])).histogram.native, n'.zeroThreshold = t := by
  have hstep := Course.stepped_run config created sampler hroom
  have hbefore := Course.room_left hroom
  have h0 := ranged_run hc created sampler hbefore
  have hcl := fun c hm hval => (reclassified_run (hc.native c hm) hm created sampler hbefore hval).2
  generalize Course.run config created sampler (pre ++ [a]) = after at hstep ⊢
  generalize Course.run config created sampler pre = before at *
  generalize before.events a = events at hstep he
  cases hstep with
  | idle ha hq hb => cases he
  | @recorded now v b tag hv hq hb =>
    obtain ⟨n,c,hn,hm,hle,hlt,hafter⟩ := raised_record h0 he
    refine ⟨n, hn, hle, ?_, hafter⟩
    intro hplain
    have hacc := hc.native c hm
    have hval := fun now v tag hmem hv => plain_of_zero hacc.number hacc.nonneg (hplain now v tag hmem hv)
    exact hlt _ (hcl c hm fun now v tag hmem => hval now v tag (List.mem_append_left _ hmem)) (hval now v tag (by simp) hv)

theorem mem_native_report {c : Course σ} {exemplars : List Exemplar} {n : State}
    (hr : c.report = c.histogram.snapshot exemplars) (hn : n ∈ c.histogram.native) :
    nativeSnapshot n ∈ c.report.native := by
  rw [hr]
  exact Option.mem_map_of_mem nativeSnapshot hn

/-- Between two moments of a run without a reset the count does not fall, the schema does not rise and
the zero threshold does not fall. Resets keep the reset duration between them and do not happen without
one. A widening that is reported does not lower the threshold, and raises it if every value was zero or
a normal one. Schema and threshold are within their limits at all times. -/
theorem moves_one_way {o : HistogramOptions} (ho : o.config = .ok config) (created : Time) (sampler : Option σ)
    {pre mid : List Act} (hroom : (pre ++ mid).countP Act.counts < 2 ^ 63) :
    let before := Course.run config created sampler pre
    let after := Course.run config created sampler (pre ++ mid)
    let resets := Course.runResets config created sampler (pre ++ mid)
    (before.resets mid = [] → before.report.count ≤ after.report.count ∧
      ∀ n ∈ before.report.native, ∃ n' ∈ after.report.native,
        n'.schema ≤ n.schema ∧ n.zeroThreshold ≤ n'.zeroThreshold) ∧
    ((∀ c ∈ config.native, c.resetAfter = 0) → resets = []) ∧
    (created :: resets).IsChain (Spaced config) ∧
    (∀ a rest t, mid = a :: rest → .widened t ∈ before.events a →
      ∃ n ∈ before.report.native, n.zeroThreshold ≤ t ∧
        ((∀ now v tag, Act.observe now v tag ∈ pre ++ [a] → v.isNaN = false → Plain 0 v) → n.zeroThreshold < t) ∧
        ∃ n' ∈ (Course.run config created sampler (pre ++ [a])).report.native, n'.zeroThreshold = t) ∧
    ∀ c ∈ config.native, ∃ n ∈ after.report.native, minSchema ≤ n.schema ∧ n.schema ≤ c.initialSchema ∧
      c.minZeroThreshold ≤ n.zeroThreshold ∧ n.zeroThreshold ≤ c.maxZeroThreshold := by
  intro before after resets
  have hacc := HistogramOptions.config_accepted ho
  have hbefore := Course.room_left hroom
  have hreport := Course.report_run config created sampler hroom
  have hreport' := Course.report_run config created sampler hbefore
  have hranged := ranged_run hacc created sampler hroom
  refine ⟨?_, fun hzero => Course.runResets_eq_nil hzero created sampler hroom,
    (Course.timed_run config created sampler hroom).2.2, ?_, ?_⟩
  · intro hno
    have hgo := onward_run hacc created sampler hroom hno
    have hpresent := (accurate_run hacc created sampler hbefore).2.present
    refine ⟨by rw [hreport, hreport']; exact hgo.count, ?_⟩
    intro n hn
    rw [hreport'] at hn
    obtain ⟨m,hm,rfl⟩ := Option.mem_map.mp hn
    obtain ⟨m',hm',hs,ht⟩ := hgo.zeroThreshold_le (ranged_run hacc created sampler hbefore) hranged hpresent m hm
    exact ⟨_, mem_native_report hreport hm', hs, ht⟩
  · rintro a rest t rfl he
    have hroom' : (pre ++ [a]).countP Act.counts < 2 ^ 63 := by
      rw [List.append_cons] at hroom
      exact Course.room_left hroom
    obtain ⟨n,hn,hle,hlt,n',hn',ht⟩ := raised_by_widening hacc created sampler hroom' he
    exact ⟨_, mem_native_report hreport' hn, hle, hlt, _,
      mem_native_report (Course.report_run config created sampler hroom') hn', ht⟩
  · intro c hm
    obtain ⟨n,hn,hb,hs⟩ := hranged.ranged c hm
    exact ⟨_, mem_native_report hreport hn, hb.coarsest, hs, hb.least, hb.most⟩

/-- The second value widens the zero bucket, and the third resets the histogram. -/
theorem moves_one_way_restless :
    let before := Course.run restlessConfig 0 unsampled [.observe 0 1 none]
    let after := Course.run restlessConfig 0 unsampled wideningRun
    before.report.count ≤ after.report.count ∧
      (∃ n ∈ before.report.native, n.zeroThreshold < 1 ∧ ∃ n' ∈ after.report.native, n'.zeroThreshold = 1) ∧
      ([0, 20] : List Time).IsChain (Spaced restlessConfig) := by
  intro before after
  have hroom : restlessRun.countP Act.counts < 2 ^ 63 := by decide +kernel
  have hroom' : wideningRun.countP Act.counts < 2 ^ 63 := Course.room_left hroom
  have hno : before.resets [.observe 1 4 none] = [] := by decide +kernel
  have hwidened : before.events (.observe 1 4 none) = [.widened 1] := by decide +kernel
  have hresets : Course.runResets restlessConfig 0 unsampled restlessRun = [20] := by decide +kernel
  have hplain : ∀ now v tag, Act.observe now v tag ∈ wideningRun → v.isNaN = false → Plain 0 v := by
    intro now v tag hm hv
    refine ⟨hv, .inr ?_⟩
    simp only [wideningRun, List.mem_cons, Act.observe.injEq, List.not_mem_nil, or_false] at hm
    rcases hm with ⟨_, rfl, _⟩ | ⟨_, rfl, _⟩ <;> rfl
  obtain ⟨hgo,_,_,hraise,_⟩ :=
    @moves_one_way _ _ _ _ config_restless 0 unsampled [.observe 0 1 none] [.observe 1 4 none] hroom'
  obtain ⟨n,hn,_,hlt,hafter⟩ := hraise _ _ 1 rfl (by rw [hwidened]; exact List.mem_singleton_self _)
  obtain ⟨_,_,hchain,_⟩ := @moves_one_way _ _ _ _ config_restless 0 unsampled wideningRun [.collect, .observe 20 6 none] hroom
  refine ⟨(hgo hno).1, ⟨n, hn, hlt hplain, hafter⟩, ?_⟩
  rw [← hresets]
  exact hchain

end Histogram
end Metering
