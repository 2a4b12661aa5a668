import Metering.Proofs.Histogram.Classic
import Metering.Proofs.Histogram.Reclassification

/-! # Consistent snapshots

The sum, the count, the classic buckets and the native state are kept apart from one another. After
any run they tell of the same values, those observed since the last reset.
-/
namespace Metering.Histogram
open Binary64 Native

variable {σ : Type} {config : HistogramConfig} {h : Histogram σ} {v : Float} {vs : List Float}

/-- Every part of a histogram tells of the given values. -/
structure Accurate (config : HistogramConfig) (h : Histogram σ) (vs : List Float) : Prop where
  configured : h.config = config
  present : h.native.isSome = config.native.isSome
  numbers : ∀ v ∈ vs, v.isNaN = false
  count : h.count = vs.length
  sum : h.sum = vs.foldl (· + ·) 0
  sized : h.classic.size = config.bounds.size
  classic : cumulate 0 (config.bounds.toList.zip h.classic.toList) =
    config.bounds.toList.map fun b => ⟨b, vs.countP fun v => v ≤ b⟩
  sound : ∀ n ∈ h.native, n.Sound
  total : ∀ n ∈ h.native, n.total = vs.length

theorem accurate_new (hc : config.Accepted) (created : Time) (sampler : Option σ) :
    Accurate config (new config created sampler) [] where
  configured := rfl
  present := Option.isSome_map
  numbers := fun _ hv => nomatch hv
  count := rfl
  sum := rfl
  sized := Array.size_map
  classic := by
    change cumulate 0 (config.bounds.toList.zip (config.bounds.map fun _ => 0).toList) = _
    rw [Array.toList_map]
    exact cumulate_zeros _ 0
  sound := by
    intro n hn
    obtain ⟨c,hc',rfl⟩ := Option.map_eq_some_iff.mp hn
    exact (hc.native c hc').sound
  total := by
    intro n hn
    obtain ⟨c,hc',rfl⟩ := Option.map_eq_some_iff.mp hn
    rfl

theorem accurate_reset [Sampler σ] (hc : config.Accepted) (h0 : Accurate config h vs) (now : Time) :
    Accurate config (h.reset now) [] := by
  have hcfg := h0.configured
  subst hcfg
  have hnew := accurate_new hc now h.sampler
  have hz : (h.classic.map fun _ => 0).toList = h.config.bounds.toList.map fun _ => 0 := by
    rw [Array.toList_map, List.map_const', List.map_const', Array.length_toList, Array.length_toList,
      h0.sized]
  exact {
    configured := rfl
    present := Option.isSome_map
    numbers := hnew.numbers
    count := rfl
    sum := rfl
    sized := Array.size_map.trans h0.sized
    classic := by
      change cumulate 0 (h.config.bounds.toList.zip (h.classic.map fun _ => 0).toList) = _
      rw [hz]
      exact cumulate_zeros _ 0
    sound := hnew.sound
    total := hnew.total }

theorem size_classic_apply (v : Float) (h : Histogram σ) : (h.apply v).1.classic.size = h.classic.size := by
  rw [apply]
  dsimp only
  split
  · exact Array.size_modify
  · rfl

theorem classic_apply (hc : config.Accepted) (h0 : Accurate config h vs) (hv : v.isNaN = false) :
    cumulate 0 (config.bounds.toList.zip (h.apply v).1.classic.toList) =
      config.bounds.toList.map fun b => ⟨b, (vs ++ [v]).countP fun v => v ≤ b⟩ := by
  have hclassic := h0.classic
  have hcfg := h0.configured
  subst hcfg
  rcases Nat.eq_zero_or_pos h.config.bounds.size with hz | hpos
  · have hnil : h.config.bounds.toList = [] := List.eq_nil_of_length_eq_zero (by simpa using hz)
    rw [hnil]
    rfl
  · obtain ⟨i,hf,hi⟩ := findBucket_spec hc.bounds hv hpos
    have hcl : (h.apply v).1.classic = h.classic.modify i (· + 1) := by
      rw [apply]
      simp only [hf]
    rw [hcl]
    exact cumulate_modify_bucket hi hclassic

theorem native_apply_none (hn : h.native = none) : (h.apply v).1.native = none := by
  rw [apply]
  simp only [hn]

theorem mem_native_apply {n : State} (hn : n ∈ (h.apply v).1.native) :
    ∃ s ∈ h.native, n = (s.observe v).1 := by
  cases hs : h.native with
  | none =>
    rw [native_apply_none hs] at hn
    cases hn
  | some s =>
    rw [(native_apply hs).1] at hn
    cases hn
    exact ⟨s, rfl, rfl⟩

theorem accurate_apply (hc : config.Accepted) (h0 : Accurate config h vs) (hv : v.isNaN = false) :
    Accurate config (h.apply v).1 (vs ++ [v]) where
  configured := h0.configured
  present := by
    rw [← h0.present]
    cases hs : h.native with
    | none => rw [native_apply_none hs]
    | some s => rw [(native_apply hs).1]; rfl
  numbers := forall_mem_snoc h0.numbers hv
  count := by rw [count_apply, h0.count, List.length_append]; rfl
  sum := by
    rw [List.foldl_append, ← h0.sum]
    rfl
  sized := (size_classic_apply v h).trans h0.sized
  classic := classic_apply hc h0 hv
  sound := by
    intro n hn
    obtain ⟨s,hs,rfl⟩ := mem_native_apply hn
    exact (h0.sound s hs).observe v
  total := by
    intro n hn
    obtain ⟨s,hs,rfl⟩ := mem_native_apply hn
    rw [State.total_observe, h0.total s hs, List.length_append]
    rfl

theorem accurate_shrink {n n' : State} {c : NativeConfig} (h0 : Accurate config h vs)
    (hn : h.nativePart? = some (n, c))
    (hw : n.widen? c.maxZeroThreshold = some n' ∨ n.halve? = some n') :
    Accurate config { h with native := some n' } vs := by
  have hmem := (nativePart?_eq_some.mp hn).1
  have hs := h0.sound n hmem
  have ht := h0.total n hmem
  refine { h0 with present := ?_, sound := ?_, total := ?_ }
  · rw [← h0.present, hmem]
    rfl
  · rintro m hm
    cases hm
    rcases hw with hw | hh
    · exact hs.widen hw
    · exact hs.halve hh
  · rintro m hm
    cases hm
    rcases hw with hw | hh
    · exact (hs.total_widen hw).trans ht
    · exact (State.total_halve hh).trans ht

variable [Sampler σ]

theorem accurate_record (hc : config.Accepted) (h0 : Accurate config h vs) (now : Time)
    (hv : v.isNaN = false) :
    Accurate config (h.record now v).1 (remember vs v (h.record now v).2) :=
  record_invariant now (fun _ _ hi => accurate_apply hc hi hv) (fun _ _ _ _ _ hi => accurate_shrink hi)
    (fun _ _ hi => accurate_reset hc hi now) h0

theorem countP_le_of_rank {a b : Float} (ha : a.isNaN = false) (hb : b.isNaN = false)
    (hab : rank a ≤ rank b) (vs : List Float) :
    (vs.countP fun v => v ≤ a) ≤ vs.countP fun v => v ≤ b := by
  refine List.countP_mono_left fun v _ hva => ?_
  rw [decide_eq_true_iff] at hva ⊢
  have hv := (isNaN_of_le hva).1
  rw [le_iff_rank hv ha] at hva
  rw [le_iff_rank hv hb]
  omega

theorem countP_le_infinity (h : ∀ v ∈ vs, v.isNaN = false) :
    (vs.countP fun v => v ≤ infinity) = vs.length := by
  refine List.countP_eq_length.mpr fun v hm => decide_eq_true ?_
  rw [le_iff_rank (h v hm) isNaN_infinity, rank_infinity]
  exact rank_le_infinity (h v hm)

theorem accurate_run (hc : config.Accepted) (created : Time) (sampler : Option σ) {acts : List Act}
    (hroom : acts.countP Act.counts < 2 ^ 63) :
    Settled (Course.run config created sampler acts).histogram ∧
      Accurate config (Course.run config created sampler acts).histogram (Course.run config created sampler acts).since :=
  Course.run_invariant (Accurate config) config created sampler (fun _ _ _ _ hi => { hi with })
    (accurate_new hc created sampler) (fun _ _ now _ hi hv _ => accurate_record hc hi now hv) hroom
    (fun _ _ _ _ _ => trivial)

/-- Every snapshot of a run counts and sums the values since the last reset: in all, up to every
classic bound, and in the native buckets. -/
theorem snapshot_consistent {o : HistogramOptions} {config : HistogramConfig} (ho : o.config = .ok config)
    (created : Time) (sampler : Option σ) {acts : List Act} (hroom : acts.countP Act.counts < 2 ^ 63) :
    let c := Course.run config created sampler acts
    let s := c.histogram.collect.2
    s.count = c.since.length ∧ s.sum = c.since.foldl (· + ·) 0 ∧
      s.classic = (config.bounds.toList.map fun b => ⟨b, c.since.countP fun v => v ≤ b⟩) ∧
      (s.classic.Pairwise fun a b => a.count ≤ b.count) ∧
      (∀ b ∈ s.classic.getLast?, b.upperBound = infinity ∧ b.count = s.count) ∧
      (s.native.isSome = config.native.isSome ∧ ∀ n ∈ s.native, n.total = s.count) := by
  intro c s
  have hacc := HistogramOptions.config_accepted ho
  obtain ⟨hs,h0⟩ := accurate_run hacc created sampler hroom
  obtain ⟨b,_,_,heq⟩ := collect_settled hs
  have hsnap : s = c.histogram.snapshot (Sampler.handOver c.histogram.sampler).1 :=
    congrArg Prod.snd heq
  have hcount : s.count = c.since.length := by rw [hsnap]; exact h0.count
  have hclassic : s.classic = config.bounds.toList.map fun b => ⟨b, c.since.countP fun v => v ≤ b⟩ := by
    rw [hsnap, snapshot, h0.configured]
    exact h0.classic
  refine ⟨hcount, by rw [hsnap]; exact h0.sum, hclassic, ?_, ?_, ?_, ?_⟩
  · rw [hclassic, List.pairwise_map]
    refine hacc.bounds.ascending.imp_of_mem fun ha hb hab => ?_
    exact countP_le_of_rank (hacc.bounds.numbers _ ha) (hacc.bounds.numbers _ hb) hab c.since
  · intro b hb
    rw [hclassic, List.getLast?_map] at hb
    obtain ⟨x,hx,rfl⟩ := Option.map_eq_some_iff.mp hb
    obtain rfl := eq_infinity_of_rank (hacc.bounds.closed x hx)
    exact ⟨rfl, (countP_le_infinity h0.numbers).trans hcount.symm⟩
  · rw [hsnap, ← h0.present]
    exact Option.isSome_map
  · intro n hn
    rw [hsnap] at hn
    obtain ⟨m,hm,rfl⟩ := Option.map_eq_some_iff.mp hn
    exact (h0.total m hm).trans hcount.symm

theorem snapshot_consistent_tight :
    let s := (Course.run HistogramOptions.tightConfig 0 unsampled tightRun).histogram.collect.2
    (Course.run HistogramOptions.tightConfig 0 unsampled tightRun).since = [1, 4, -3] ∧ s.count = 3 ∧
      s.sum = 2 ∧ s.classic = [⟨1, 2⟩, ⟨infinity, 3⟩] ∧ ∀ n ∈ s.native, n.total = 3 := by
  have hsince : (Course.run HistogramOptions.tightConfig 0 unsampled tightRun).since = [1, 4, -3] :=
    rfl
  have hsum : ([1, 4, -3] : List Float).foldl (· + ·) 0 = 2 := rfl
  have hone : ([1, 4, -3] : List Float).countP (fun v => v ≤ 1) = 2 := rfl
  have hall : ([1, 4, -3] : List Float).countP (fun v => v ≤ infinity) = 3 := rfl
  obtain ⟨hcount,hs,hclassic,_,_,_,htotal⟩ := snapshot_consistent HistogramOptions.config_tight 0 unsampled room_tightRun
  rw [hsince] at hcount hs hclassic
  refine ⟨hsince, hcount, hs.trans hsum, ?_, fun n hn => (htotal n hn).trans hcount⟩
  rw [hclassic]
  change [ClassicBucket.mk 1 _, ClassicBucket.mk infinity _] = _
  rw [hone, hall]

end Metering.Histogram
