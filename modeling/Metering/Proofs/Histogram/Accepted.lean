import Metering.Histogram.Settings
import Metering.Proofs.Native.Bound
import Metering.Proofs.Native.Schema

/-! # Accepted histogram options

What the code may rely on once options are accepted: ascending bounds that end in infinity, a schema
within range and thresholds that are numbers.
-/
namespace Metering
open Binary64 Native

/-- No bounds, or ascending ones that end in infinity. -/
structure Closed (bounds : List Float) : Prop where
  numbers : ∀ b ∈ bounds, b.isNaN = false
  ascending : bounds.Pairwise fun a b => rank a ≤ rank b
  closed : ∀ b ∈ bounds.getLast?, rank b = 2047 * 2 ^ 52

structure NativeConfig.Accepted (c : NativeConfig) : Prop where
  coarsest : minSchema ≤ c.initialSchema
  finest : c.initialSchema ≤ maxSchema
  number : c.minZeroThreshold.isNaN = false
  nonneg : 0 ≤ rank c.minZeroThreshold
  ordered : c.minZeroThreshold ≤ c.maxZeroThreshold

structure HistogramConfig.Accepted (c : HistogramConfig) : Prop where
  bounds : Closed c.bounds.toList
  native : ∀ n ∈ c.native, n.Accepted

namespace HistogramOptions

/-- The given bounds and infinity, each once, strictly ascending; `-0.0` and `0.0` are one bound. -/
structure Completed (given bounds : List Float) : Prop where
  ascending : bounds.Pairwise (· < ·)
  last : bounds.getLast? = some infinity
  mem : ∀ b ∈ bounds, b ∈ given ∨ b = infinity
  all : ∀ g ∈ given, ∃ b ∈ bounds, (b == g) = true

def NoClassic (o : HistogramOptions) : Prop :=
  o.nativeOnly = true ∨ o.buckets = some [] ∧ o.classicOnly = false

def chosenSchema (o : HistogramOptions) : Except Error Int :=
  match o.factor with
  | some factor => schemaOfFactor factor
  | none => checkSchema o.schema

theorem chosenSchema_range {o : HistogramOptions} {s : Int} (h : o.chosenSchema = .ok s) :
    minSchema ≤ s ∧ s ≤ maxSchema := by
  rw [chosenSchema] at h
  cases hf : o.factor with
  | some factor =>
    rw [hf] at h
    exact schemaOfFactor_range h
  | none =>
    rw [hf] at h
    exact checkSchema_range h

def checkedThresholds (o : HistogramOptions) (schema : Int) : Except Error (Option NativeConfig) :=
  if !(0 ≤ o.minZeroThreshold) then .error (.invalidZeroThreshold o.minZeroThreshold)
  else if !(o.minZeroThreshold ≤ o.maxZeroThreshold) then
    .error (.invalidZeroThreshold o.maxZeroThreshold)
  else .ok (some {
    initialSchema := schema
    minZeroThreshold := o.minZeroThreshold
    maxZeroThreshold := o.maxZeroThreshold
    maxBuckets := o.maxBuckets
    resetAfter := o.resetAfter })

theorem nativeConfig_eq (o : HistogramOptions) :
    o.nativeConfig = if o.classicOnly then .ok none else o.chosenSchema.bind o.checkedThresholds := by
  unfold nativeConfig
  rw [chosenSchema]
  split
  · rfl
  · cases o.factor with
    | some factor => rfl
    | none => rfl

theorem nativeConfig_of_checks {o : HistogramOptions} {s : Int} (hk : o.classicOnly = false)
    (hs : o.chosenSchema = .ok s) (h0 : 0 ≤ o.minZeroThreshold) (h1 : o.minZeroThreshold ≤ o.maxZeroThreshold) :
    o.nativeConfig = .ok (some {
      initialSchema := s
      minZeroThreshold := o.minZeroThreshold
      maxZeroThreshold := o.maxZeroThreshold
      maxBuckets := o.maxBuckets
      resetAfter := o.resetAfter }) := by
  have h0' : (!decide (0 ≤ o.minZeroThreshold)) = false := by rw [decide_eq_true h0]; rfl
  have h1' : (!decide (o.minZeroThreshold ≤ o.maxZeroThreshold)) = false := by rw [decide_eq_true h1]; rfl
  rw [nativeConfig_eq, hk, hs, Except.bind, checkedThresholds, h0', h1']
  rfl

/-- What options without an only classic kind give: the checked thresholds and the schema that is chosen. -/
theorem nativeConfig_eq_ok_iff {o : HistogramOptions} {native : Option NativeConfig} (hc : o.classicOnly = false) :
    o.nativeConfig = .ok native ↔
      ∃ s, o.chosenSchema = .ok s ∧ (0 ≤ o.minZeroThreshold ∧ o.minZeroThreshold ≤ o.maxZeroThreshold) ∧
        native = some {
          initialSchema := s
          minZeroThreshold := o.minZeroThreshold
          maxZeroThreshold := o.maxZeroThreshold
          maxBuckets := o.maxBuckets
          resetAfter := o.resetAfter } := by
  constructor
  · intro hn
    rw [nativeConfig_eq, hc, if_neg Bool.false_ne_true] at hn
    cases hs : o.chosenSchema with
    | error e =>
      rw [hs] at hn
      cases hn
    | ok s =>
      rw [hs, Except.bind, checkedThresholds] at hn
      split at hn
      · cases hn
      · rename_i h0
        split at hn
        · cases hn
        · rename_i h1
          cases hn
          exact ⟨s, rfl, ⟨by simpa using h0, by simpa using h1⟩, rfl⟩
  · rintro ⟨s,hs,⟨h0,h1⟩,rfl⟩
    exact nativeConfig_of_checks hc hs h0 h1

theorem nativeConfig_of_classicOnly {o : HistogramOptions} (hc : o.classicOnly = true) : o.nativeConfig = .ok none := by
  rw [nativeConfig_eq, if_pos hc]

theorem checks_of_nativeConfig {o : HistogramOptions} {c : NativeConfig} (h : o.nativeConfig = .ok (some c)) :
    o.chosenSchema = .ok c.initialSchema ∧ 0 ≤ c.minZeroThreshold ∧ c.minZeroThreshold ≤ c.maxZeroThreshold ∧
      c.resetAfter = o.resetAfter := by
  cases hc : o.classicOnly with
  | true =>
    rw [nativeConfig_of_classicOnly hc] at h
    cases h
  | false =>
    obtain ⟨s,hs,⟨h0,h1⟩,heq⟩ := (nativeConfig_eq_ok_iff hc).mp h
    cases heq
    exact ⟨hs, h0, h1, rfl⟩

theorem nativeConfig_accepted {o : HistogramOptions} {c : NativeConfig}
    (h : o.nativeConfig = .ok (some c)) : c.Accepted := by
  obtain ⟨hs,hz,hordered,_⟩ := checks_of_nativeConfig h
  obtain ⟨h4,h8⟩ := chosenSchema_range hs
  have hn := (isNaN_of_le hz).2
  have hr := (le_iff_rank isNaN_zero hn).mp hz
  rw [rank_zero] at hr
  exact ⟨h4, h8, hn, hr, hordered⟩

theorem dedup_sublist (xs : List Float) : (dedup xs).Sublist xs := by
  fun_induction dedup xs with
  | case1 => exact .slnil
  | case2 x => exact List.Sublist.refl _
  | case3 x y rest hxy ih => exact ih.trans ((List.sublist_cons_self y rest).cons_cons x)
  | case4 x y rest hxy ih => exact ih.cons_cons x

theorem rank_le_of_orderKey {x y : Float} (h : orderKey x ≤ orderKey y) : rank x ≤ rank y := by
  have hx := signBit_sign x
  have hy := signBit_sign y
  have hp : signBit .positive = 0 := rfl
  have hn : signBit .negative = 1 := rfl
  rw [orderKey, orderKey] at h
  rw [rank, rank]
  cases hsx : sign x <;> cases hsy : sign y <;> rw [hsx] at hx <;> rw [hsy] at hy <;>
    simp only [Float.Model.UnpackedFloat.Sign.apply, hp, hn] at hx hy ⊢ <;> split at h <;>
    split at h <;> omega

theorem pairwise_sorted (bounds : List Float) :
    (bounds.mergeSort fun a b => orderKey a ≤ orderKey b).Pairwise fun a b => rank a ≤ rank b := by
  have : IsTrans Float fun a b => orderKey a ≤ orderKey b := ⟨fun _ _ _ => le_trans⟩
  have : Std.Total fun a b => orderKey a ≤ orderKey b := ⟨fun _ _ => le_total _ _⟩
  exact (List.pairwise_mergeSort' (fun a b => orderKey a ≤ orderKey b) bounds).imp rank_le_of_orderKey

theorem pairwise_dedup {xs : List Float} (hn : ∀ b ∈ xs, b.isNaN = false) (hs : xs.Pairwise fun a b => rank a ≤ rank b) :
    (dedup xs).Pairwise fun a b => rank a < rank b := by
  fun_induction dedup xs with
  | case1 => exact .nil
  | case2 x => exact List.pairwise_singleton _ _
  | case3 x y rest hxy ih =>
    have hsub : (x :: rest).Sublist (x :: y :: rest) := (List.sublist_cons_self y rest).cons_cons x
    exact ih (fun b hb => hn b (hsub.subset hb)) (hs.sublist hsub)
  | case4 x y rest hxy ih =>
    obtain ⟨hhead,htail⟩ := List.pairwise_cons.mp hs
    refine List.pairwise_cons.mpr ⟨?_, ih (fun b hb => hn b (List.mem_cons_of_mem x hb)) htail⟩
    intro b hb
    have hle := hhead y (by simp)
    rw [beq_iff_rank (hn x (by simp)) (hn y (by simp))] at hxy
    rcases List.mem_cons.mp ((dedup_sublist (y :: rest)).subset hb) with rfl | hb
    · omega
    · have := (List.pairwise_cons.mp htail).1 b hb
      omega

theorem exists_mem_dedup {xs : List Float} (hn : ∀ b ∈ xs, b.isNaN = false) :
    ∀ g ∈ xs, ∃ b ∈ dedup xs, rank b = rank g := by
  fun_induction dedup xs with
  | case1 => exact fun _ hg => nomatch hg
  | case2 x => exact fun g hg => ⟨g, hg, rfl⟩
  | case3 x y rest hxy ih =>
    have hih := ih fun b hb => hn b (((List.sublist_cons_self y rest).cons_cons x).subset hb)
    rw [beq_iff_rank (hn x (by simp)) (hn y (by simp))] at hxy
    intro g hg
    rcases List.mem_cons.mp hg with rfl | hg
    · exact hih g (by simp)
    · rcases List.mem_cons.mp hg with rfl | hg
      · obtain ⟨b,hb,hr⟩ := hih x (by simp)
        exact ⟨b, hb, hr.trans hxy⟩
      · exact hih g (List.mem_cons_of_mem x hg)
  | case4 x y rest hxy ih =>
    intro g hg
    rcases List.mem_cons.mp hg with rfl | hg
    · exact ⟨g, by simp, rfl⟩
    · obtain ⟨b,hb,hr⟩ := ih (fun b hb => hn b (List.mem_cons_of_mem x hb)) g hg
      exact ⟨b, List.mem_cons_of_mem x hb, hr⟩

/-- Where infinity is not the last of ascending numbers it is none of them. -/
theorem lt_infinity_of_last {xs : List Float} (hn : ∀ b ∈ xs, b.isNaN = false)
    (hs : xs.Pairwise fun a b => rank a < rank b) (hlast : ¬ xs.getLast?.any (· == infinity) = true)
    {a : Float} (ha : a ∈ xs) : a < infinity := by
  cases hb : xs.getLast? with
  | none =>
    rw [List.getLast?_eq_none_iff.mp hb] at ha
    cases ha
  | some b =>
    have hbn := hn b (List.mem_of_getLast? hb)
    have hle := rank_le_infinity hbn
    rw [hb, Option.any_some, beq_iff_rank hbn isNaN_infinity, rank_infinity] at hlast
    rw [lt_iff_rank (hn a ha) isNaN_infinity, rank_infinity]
    obtain ⟨init,rfl⟩ := List.getLast?_eq_some_iff.mp hb
    rcases List.mem_append.mp ha with ha | ha
    · have := (List.pairwise_append.mp hs).2.2 a ha b (by simp)
      omega
    · rw [List.mem_singleton.mp ha]
      omega

/-- Ascending numbers are closed by infinity where it is not yet the last of them. -/
theorem completed_closed {given sorted : List Float} (hnum : ∀ b ∈ sorted, b.isNaN = false ∧ b ∈ given)
    (hs : sorted.Pairwise fun a b => rank a < rank b) (hall : ∀ g ∈ given, ∃ b ∈ sorted, (b == g) = true) :
    Completed given (if sorted.getLast?.any (· == infinity) then sorted else sorted ++ [infinity]) := by
  have hlt : sorted.Pairwise (· < ·) := by
    refine List.Pairwise.imp_of_mem ?_ hs
    intro a b ha hb hr
    exact (lt_iff_rank (hnum a ha).1 (hnum b hb).1).mpr hr
  split
  · rename_i hlast
    refine ⟨hlt, ?_, fun b hb => .inl (hnum b hb).2, hall⟩
    cases hb : sorted.getLast? with
    | none =>
      rw [hb] at hlast
      cases hlast
    | some b =>
      rw [hb, Option.any_some, beq_iff_rank (hnum b (List.mem_of_getLast? hb)).1 isNaN_infinity, rank_infinity] at hlast
      rw [eq_infinity_of_rank hlast]
  · rename_i hlast
    refine ⟨List.pairwise_append.mpr ⟨hlt, List.pairwise_singleton _ _, ?_⟩, by simp, ?_, ?_⟩
    · intro a ha b hb
      rw [List.mem_singleton.mp hb]
      exact lt_infinity_of_last (fun b hb => (hnum b hb).1) hs hlast ha
    · intro b hb
      rcases List.mem_append.mp hb with hb | hb
      · exact .inl (hnum b hb).2
      · exact .inr (List.mem_singleton.mp hb)
    · intro g hg
      obtain ⟨b,hb,heq⟩ := hall g hg
      exact ⟨b, List.mem_append_left _ hb, heq⟩

theorem completed_complete {given : List Float} (hn : ∀ b ∈ given, b.isNaN = false) :
    Completed given (complete given) := by
  have hmem : ∀ b ∈ given.mergeSort fun a b => orderKey a ≤ orderKey b, b.isNaN = false :=
    fun b hb => hn b (List.mem_mergeSort.mp hb)
  have hsub := (dedup_sublist (given.mergeSort fun a b => orderKey a ≤ orderKey b)).subset
  refine completed_closed (fun b hb => ⟨hmem b (hsub hb), List.mem_mergeSort.mp (hsub hb)⟩)
    (pairwise_dedup hmem (pairwise_sorted given)) fun g hg => ?_
  obtain ⟨b,hb,hr⟩ := exists_mem_dedup hmem g (List.mem_mergeSort.mpr hg)
  exact ⟨b, hb, (beq_iff_rank (hmem b (hsub hb)) (hn g hg)).mpr hr⟩

theorem closed_complete {bounds : List Float} (h : ∀ b ∈ bounds, b.isNaN = false) :
    Closed (complete bounds) := by
  have hc := completed_complete h
  have hnum : ∀ b ∈ complete bounds, b.isNaN = false := by
    intro b hb
    rcases hc.mem b hb with hg | rfl
    · exact h b hg
    · exact isNaN_infinity
  refine ⟨hnum, ?_, ?_⟩
  · refine List.Pairwise.imp_of_mem ?_ hc.ascending
    intro a b ha hb hlt
    exact ((lt_iff_rank (hnum a ha) (hnum b hb)).mp hlt).le
  · intro b hb
    rw [hc.last] at hb
    cases hb
    exact rank_infinity

theorem closed_nil : Closed [] :=
  ⟨fun _ h => (nomatch h), List.Pairwise.nil, fun _ h => nomatch h⟩

/-- Options without classic buckets have no bounds; others complete theirs, unless one of them is NaN. -/
theorem classicBounds_cases (o : HistogramOptions) :
    (o.NoClassic ∧ o.classicBounds = .ok []) ∨
      ¬ o.NoClassic ∧
        ((∃ b ∈ o.buckets.getD defaultBounds, b.isNaN = true) ∧ o.classicBounds = .error .nanUpperBound ∨
          (∀ b ∈ o.buckets.getD defaultBounds, b.isNaN = false) ∧
            o.classicBounds = .ok (complete (o.buckets.getD defaultBounds))) := by
  have hempty : (o.buckets.getD defaultBounds).isEmpty = true ↔ o.buckets = some [] := by
    cases o.buckets with
    | none => exact iff_of_false (by decide) (fun h => nomatch h)
    | some given => rw [Option.getD_some, List.isEmpty_iff, Option.some.injEq]
  rw [NoClassic, classicBounds, ← hempty]
  cases o.nativeOnly with
  | true => exact .inl ⟨.inl rfl, rfl⟩
  | false =>
    rw [if_neg Bool.false_ne_true]
    dsimp only
    generalize o.buckets.getD defaultBounds = given
    cases he : given.isEmpty && !o.classicOnly with
    | true =>
      rw [Bool.and_eq_true, Bool.not_eq_true'] at he
      exact .inl ⟨.inr he, rfl⟩
    | false =>
      rw [if_neg Bool.false_ne_true]
      refine .inr ⟨?_, ?_⟩
      · rintro (h | ⟨h,hc⟩)
        · cases h
        · rw [h, hc] at he
          cases he
      · cases hn : given.any Float.isNaN with
        | true => exact .inl ⟨List.any_eq_true.mp hn, rfl⟩
        | false =>
          refine .inr ⟨fun b hb => ?_, rfl⟩
          rw [← Bool.not_eq_true]
          exact List.any_eq_false.mp hn b hb

theorem closed_classicBounds {o : HistogramOptions} {bounds : List Float}
    (h : o.classicBounds = .ok bounds) : Closed bounds := by
  rcases classicBounds_cases o with ⟨_,hok⟩ | ⟨_,⟨_,herr⟩ | ⟨hnum,hok⟩⟩
  · cases h.symm.trans hok
    exact closed_nil
  · cases h.symm.trans herr
  · cases h.symm.trans hok
    exact closed_complete hnum

theorem parts_of_config {o : HistogramOptions} {c : HistogramConfig} (h : o.config = .ok c) :
    (o.classicOnly && o.nativeOnly) = false ∧ o.classicBounds = .ok c.bounds.toList ∧
      o.nativeConfig = .ok c.native := by
  unfold config at h
  simp only [bind, Except.bind, pure, Except.pure, throw, throwThe, MonadExceptOf.throw] at h
  split at h
  · cases h
  · rename_i hkinds
    cases hb : o.classicBounds with
    | error e =>
      rw [hb] at h
      cases h
    | ok bounds =>
      cases hn : o.nativeConfig with
      | error e =>
        rw [hb, hn] at h
        cases h
      | ok native =>
        rw [hb, hn] at h
        cases h
        exact ⟨Bool.eq_false_of_not_eq_true hkinds, rfl, rfl⟩

theorem config_accepted {o : HistogramOptions} {c : HistogramConfig} (h : o.config = .ok c) :
    c.Accepted := by
  obtain ⟨_,hb,hn⟩ := parts_of_config h
  refine ⟨closed_classicBounds hb, ?_⟩
  intro n hmem
  exact nativeConfig_accepted (hn.trans (congrArg Except.ok hmem))

/-- One classic bucket beside the last, and a single native one before shrinking. -/
def tightOptions : HistogramOptions :=
  { buckets := some [1], schema := 0, maxBuckets := 1 }

def tightNative : NativeConfig :=
  { initialSchema := 0
    minZeroThreshold := defaultZeroThreshold
    maxZeroThreshold := defaultZeroThreshold
    maxBuckets := 1
    resetAfter := 0 }

def tightConfig : HistogramConfig :=
  { bounds := #[1, infinity], native := some tightNative }

theorem classicBounds_tight : tightOptions.classicBounds = .ok [1, infinity] := by
  have hnan : ([1] : List Float).any Float.isNaN = false := rfl
  have hinf : ((1 : Float) == infinity) = false := rfl
  have hc : complete [1] = [1, infinity] := by
    rw [complete, List.mergeSort_singleton, dedup, List.getLast?_singleton, Option.any_some, hinf]
    rfl
  simp [classicBounds, tightOptions, hnan, hc]

theorem config_of_parts {o : HistogramOptions} {bounds : List Float} {native : Option NativeConfig}
    (hk : (o.classicOnly && o.nativeOnly) = false) (hb : o.classicBounds = .ok bounds)
    (hn : o.nativeConfig = .ok native) : o.config = .ok { bounds := bounds.toArray, native } := by
  rw [config, hk, hb, hn]
  rfl

theorem config_tight : tightOptions.config = .ok tightConfig :=
  config_of_parts rfl classicBounds_tight
    (nativeConfig_of_checks rfl rfl (of_decide_eq_true rfl) (of_decide_eq_true rfl))

/-- Room for widening up to 8, and a reset after ten nanoseconds. -/
def restlessOptions : HistogramOptions :=
  { tightOptions with maxZeroThreshold := 8, resetAfter := 10 }

def restlessNative : NativeConfig :=
  { tightNative with maxZeroThreshold := 8, resetAfter := 10 }

def restlessConfig : HistogramConfig :=
  { tightConfig with native := some restlessNative }

theorem config_restless : restlessOptions.config = .ok restlessConfig :=
  config_of_parts rfl classicBounds_tight
    (nativeConfig_of_checks rfl rfl (of_decide_eq_true rfl) (of_decide_eq_true rfl))

def coarsestOptions : HistogramOptions :=
  { tightOptions with schema := Native.minSchema, resetAfter := 10 }

def coarsestNative : NativeConfig :=
  { tightNative with initialSchema := Native.minSchema, resetAfter := 10 }

def coarsestConfig : HistogramConfig :=
  { tightConfig with native := some coarsestNative }

theorem config_coarsest : coarsestOptions.config = .ok coarsestConfig :=
  config_of_parts rfl classicBounds_tight
    (nativeConfig_of_checks rfl rfl (of_decide_eq_true rfl) (of_decide_eq_true rfl))

end HistogramOptions
end Metering
