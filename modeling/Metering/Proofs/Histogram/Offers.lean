import Metering.Proofs.Histogram.Classic
import Metering.Proofs.Histogram.Frame
import Metering.Proofs.Histogram.Resets

/-! # Buckets found and offers made

Whichever search is taken, a value is found in the first bucket whose bound it does not exceed. The sampler is offered
every value once, with the range of that bucket, whatever upkeep the value calls for.
-/
namespace Metering.Histogram
open Binary64 HistogramOptions

variable {σ : Type} {bounds : Array Float} {config : HistogramConfig} {v : Float} {h : Histogram σ}

/-- A range that comes with a value: none where there are no bounds, else the range of its bucket. -/
structure Ranges (bounds : Array Float) (v : Float) (range : Option BucketRange) : Prop where
  none_iff : range = none ↔ bounds = #[]
  bucket : ∀ r ∈ range, ∃ i, IsBucket v bounds i ∧ bounds[i]? = some r.upper ∧
    (i = 0 ∧ r.lower = -infinity ∨ ∃ j, i = j + 1 ∧ bounds[j]? = some r.lower)
  within : ∀ r ∈ range, v ≤ r.upper ∧ (r.lower < v ∨ v = -infinity)

/-- What the sampler is told of an observation. -/
inductive Conveyed (bounds : Array Float) : Act → Offer → Prop
  | observed {v : Float} {range : Option BucketRange} (now : Time) (tag : Option Tag) (hr : Ranges bounds v range) :
    Conveyed bounds (.observe now v tag) ⟨v, range, tag.map Tag.labels⟩

theorem neg_infinity_lt (hv : v.isNaN = false) : -infinity < v ∨ v = -infinity := by
  have hn := isNaN_neg hv
  have hle := rank_le_infinity hn
  rw [rank_neg hv] at hle
  rcases Int.lt_or_eq_of_le hle with hlt | heq
  · left
    rw [lt_iff_rank (isNaN_neg isNaN_infinity) hv, rank_neg isNaN_infinity, rank_infinity]
    omega
  · right
    have hinf : -v = infinity := eq_infinity_of_rank (by rw [rank_neg hv]; exact heq)
    rw [← hinf, neg_neg hv]

theorem lt_of_isBucket (hc : Closed bounds.toList) (hv : v.isNaN = false) {i j : Nat} (hi : IsBucket v bounds i)
    (hj : j < bounds.size) (hij : j < i) : bounds[j] < v := by
  have hnot := (hi.2 j hj).not.mpr (by omega)
  rw [le_iff_rank hv (hc.number hj)] at hnot
  rw [lt_iff_rank (hc.number hj) hv]
  omega

theorem bucketRange_upper {i : Nat} (hi : i < h.config.bounds.size) :
    h.config.bounds[i]? = some (h.bucketRange i).upper := by
  rw [bucketRange, Array.getElem?_eq_getElem hi]
  exact congrArg some (Array.getElem_eq_getD 0)

/-- The lower end of a bucket is the bound before it; a value in the bucket lies above. -/
theorem bucketRange_lower (hc : Closed h.config.bounds.toList) (hv : v.isNaN = false) {i : Nat}
    (hi : IsBucket v h.config.bounds i) :
    (i = 0 ∧ (h.bucketRange i).lower = -infinity ∨
      ∃ j, i = j + 1 ∧ h.config.bounds[j]? = some (h.bucketRange i).lower) ∧
      ((h.bucketRange i).lower < v ∨ v = -infinity) := by
  cases i with
  | zero =>
    have hlower : (h.bucketRange 0).lower = -infinity := by rw [bucketRange, if_pos rfl]
    rw [hlower]
    exact ⟨.inl ⟨rfl, rfl⟩, neg_infinity_lt hv⟩
  | succ j =>
    have hj : j < h.config.bounds.size := by have := hi.1; omega
    have hlower : (h.bucketRange (j + 1)).lower = h.config.bounds[j] := by
      rw [bucketRange, if_neg (Nat.succ_ne_zero j)]
      exact (Array.getElem_eq_getD 0).symm
    rw [hlower]
    exact ⟨.inr ⟨j, rfl, Array.getElem?_eq_getElem hj⟩, .inl (lt_of_isBucket hc hv hi hj (Nat.lt_succ_self j))⟩

theorem ranges_bucketRange (hc : Closed h.config.bounds.toList) (hv : v.isNaN = false) :
    Ranges h.config.bounds v ((h.findBucket v).map h.bucketRange) := by
  rcases Nat.eq_zero_or_pos h.config.bounds.size with h0 | hpos
  · have hempty : h.config.bounds = #[] := Array.eq_empty_of_size_eq_zero h0
    have hfind : h.findBucket v = none := by
      rw [findBucket, hempty]
      rfl
    rw [hfind]
    exact ⟨iff_of_true rfl hempty, fun _ hr => absurd hr (Option.not_mem_none _),
      fun _ hr => absurd hr (Option.not_mem_none _)⟩
  · obtain ⟨i,hfind,hi⟩ := findBucket_spec hc hv hpos
    obtain ⟨hlower,hlt⟩ := bucketRange_lower hc hv hi
    have hupper := bucketRange_upper hi.1
    have hle : v ≤ (h.bucketRange i).upper := by
      rw [Array.getElem?_eq_getElem hi.1, Option.some.injEq] at hupper
      rw [← hupper]
      exact (hi.2 i hi.1).mpr (Nat.le_refl i)
    rw [hfind]
    refine ⟨iff_of_false (by simp) (by rintro he; simp [he] at hpos), ?_, ?_⟩
    · rintro r ⟨⟩
      exact ⟨i, hi, hupper, hlower⟩
    · rintro r ⟨⟩
      exact ⟨hle, hlt⟩

theorem searches_agree (hc : Closed bounds.toList) (hne : bounds ≠ #[]) (hv : v.isNaN = false) :
    ∃ i, IsBucket v bounds i ∧ Search.firstAtLeast? v bounds = some i ∧ Search.partitionPoint (· < v) bounds = i ∧
      ∀ (σ : Type) (h : Histogram σ), h.config.bounds = bounds → h.findBucket v = some i := by
  have hpos : 0 < bounds.size := Array.size_pos_iff.mpr hne
  obtain ⟨i,hlinear,hi⟩ := isBucket_linear hc hv hpos
  have hhalving := isBucket_halving hc hv hpos
  have heq : Search.partitionPoint (· < v) bounds = i := by
    have h1 := (hi.2 _ hhalving.1).mp ((hhalving.2 _ hhalving.1).mpr (Nat.le_refl _))
    have h2 := (hhalving.2 _ hi.1).mp ((hi.2 _ hi.1).mpr (Nat.le_refl _))
    omega
  refine ⟨i, hi, hlinear, heq, fun σ h hb => ?_⟩
  have hempty : bounds.isEmpty = false := by simpa using hne
  rw [findBucket, hb, hempty, if_neg Bool.false_ne_true, hlinear, heq, ite_self]

/-- The offers so far, and one for each value observed since. -/
def Offered (c : HistogramConfig) (before : Array Offer) (acts : List Act) (h : Histogram Recorder) : Prop :=
  ∃ s new, h.sampler = some s ∧ s.offers.toList = before.toList ++ new ∧
    List.Forall₂ (Conveyed c.bounds) (acts.filter Act.counts) new

theorem tallying_offers : Tallying Recorder.offers :=
  ⟨fun _ => rfl, fun _ => rfl⟩

variable {h g : Histogram Recorder}

theorem Offered.framed {before : Array Offer} {acts : List Act} (ho : Offered config before acts h)
    (hg : Framed h g) : Offered config before acts g := by
  obtain ⟨s,new,hs,hnew,htold⟩ := ho
  have hoffers := hg.sampler tallying_offers
  rw [hs, Option.map_some, Option.map_eq_some_iff] at hoffers
  obtain ⟨s',hs',heq⟩ := hoffers
  exact ⟨s', new, hs', by rw [heq, hnew], htold⟩

theorem Offered.offered {before : Array Offer} {acts : List Act} (hc : Closed config.bounds.toList) (hs : Shaped config h)
    (ho : Offered config before acts h) (hv : v.isNaN = false) (now : Time) (tag : Option Tag) :
    Offered config before (acts ++ [.observe now v tag]) (h.offer v tag) := by
  obtain ⟨s,new,hsome,hnew,htold⟩ := ho
  have hcounts : [Act.observe now v tag].filter Act.counts = [.observe now v tag] := by
    rw [List.filter_cons, if_pos (Act.counts_of_number hv now tag), List.filter_nil]
  have hranges := ranges_bucketRange (h := h) (by rwa [hs.config]) hv
  rw [hs.config] at hranges
  refine ⟨s.offer v ((h.findBucket v).map h.bucketRange) tag,
    new ++ [⟨v, (h.findBucket v).map h.bucketRange, tag.map Tag.labels⟩], ?_, ?_, ?_⟩
  · rw [offer, hsome]
    rfl
  · change (s.offers.push _).toList = _
    rw [Array.toList_push, hnew, List.append_assoc]
  · rw [List.filter_append, hcounts]
    exact List.rel_append htold (.cons (.observed now tag hranges) .nil)

theorem Offered.idle {before : Array Offer} {acts : List Act} {a : Act} (ho : Offered config before acts h)
    (ha : a.counts = false) : Offered config before (acts ++ [a]) h := by
  obtain ⟨s,new,hs,hnew,htold⟩ := ho
  refine ⟨s, new, hs, hnew, ?_⟩
  rwa [List.filter_append, List.filter_cons_of_neg (by rw [ha]; exact Bool.false_ne_true), List.filter_nil,
    List.append_nil]

theorem Offered.step {before : Array Offer} {acts : List Act} (hc : Closed config.bounds.toList) {c : Course Recorder} (a : Act)
    (hs : Shaped config c.histogram) (ho : Offered config before acts c.histogram) :
    Offered config before (acts ++ [a]) (c.step a).histogram := by
  cases a with
  | observe now v tag =>
    cases hv : v.isNaN with
    | true =>
      rw [Course.step, observe_nan hv]
      exact ho.idle (Act.counts_of_nan hv now tag)
    | false =>
      obtain ⟨g,hg,heq⟩ := observe_framed hv now tag c.histogram
      rw [Course.step, heq]
      exact (ho.framed hg).offered hc (hs.framed hg) hv now tag
  | collect => exact (ho.framed (collect_framed c.histogram).1).idle rfl

theorem offered_run (hc : Closed config.bounds.toList) (created : Time) (s : Recorder) (acts : List Act) :
    Offered config s.offers acts (Course.run config created (some s) acts).histogram := by
  induction acts using List.reverseRecOn with
  | nil => exact ⟨s, [], rfl, (List.append_nil _).symm, .nil⟩
  | append_singleton acts a ih =>
    rw [Course.run_snoc]
    exact ih.step hc a (shaped_run config created (some s) acts)

/-- Both searches find the first bucket whose bound a value does not exceed, and in every run the sampler is offered
each number once and in turn, with the range of that bucket; NaN is never offered. -/
theorem offered_once {o : HistogramOptions} (ho : o.config = .ok config) :
    (config.bounds ≠ #[] → ∀ v : Float, v.isNaN = false →
      ∃ i, IsBucket v config.bounds i ∧ Search.firstAtLeast? v config.bounds = some i ∧
        Search.partitionPoint (· < v) config.bounds = i ∧
        ∀ (σ : Type) (h : Histogram σ), h.config.bounds = config.bounds → h.findBucket v = some i) ∧
      ∀ (created : Time) (s : Recorder) (acts : List Act),
        ∃ s' new, (Course.run config created (some s) acts).histogram.sampler = some s' ∧
          s'.offers.toList = s.offers.toList ++ new ∧
          List.Forall₂ (Conveyed config.bounds) (acts.filter Act.counts) new := by
  have hc := (config_accepted ho).bounds
  exact ⟨fun hne v hv => searches_agree hc hne hv, fun created s acts => offered_run hc created s acts⟩

/-- Three values, the last of which resets the histogram, and NaN. -/
def mixedRun : List Act :=
  restlessRun ++ [.observe 21 nan none]

theorem offered_once_restless :
    restlessOptions.config = .ok restlessConfig ∧
      (∃ i, IsBucket 4 restlessConfig.bounds i ∧ Search.firstAtLeast? 4 restlessConfig.bounds = some i ∧
        Search.partitionPoint (· < 4) restlessConfig.bounds = i ∧
        ∀ (σ : Type) (h : Histogram σ), h.config.bounds = restlessConfig.bounds → h.findBucket 4 = some i) ∧
      ∃ s new, (Course.run restlessConfig 0 (some ({} : Recorder)) mixedRun).histogram.sampler = some s ∧
        s.offers.toList = [] ++ new ∧ new.length = 3 ∧
        List.Forall₂ (Conveyed restlessConfig.bounds) (mixedRun.filter Act.counts) new := by
  obtain ⟨hfound,hoffered⟩ := offered_once config_restless
  obtain ⟨s,new,hs,hnew,htold⟩ := hoffered 0 {} mixedRun
  have hlength : (mixedRun.filter Act.counts).length = 3 := by decide +kernel
  exact ⟨config_restless, hfound (by simp [restlessConfig, tightConfig]) 4 rfl, s, new, hs, hnew,
    htold.length_eq.symm.trans hlength, htold⟩

end Metering.Histogram
