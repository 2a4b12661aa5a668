import Metering.Proofs.Native.Sound
import Metering.Snapshot

/-! # Native states as classified observations

As long as no value is a subnormal one above the smallest threshold, a native state is the direct
classification of the values it counted, under its present schema and threshold. Widening and
halving change the schema and the threshold and nothing else.
-/
namespace Metering.Native
open Binary64 Buckets

/-- Every value in the zero bucket or in the bucket of its magnitude, the keys in order. -/
def classify (schema : Int) (threshold : Float) (vs : List Float) : NativeSnapshot :=
  { schema
    zeroThreshold := threshold
    zeroCount := vs.countP fun v => v.abs ≤ threshold
    positive := listed (fun v => bucketIndex v schema) (vs.filter fun v => threshold < v)
    negative := listed (fun v => bucketIndex (-v) schema) (vs.filter fun v => v < -threshold) }

abbrev smallestNormal : Float := Float.ofBits 0x0010000000000000

/-- A value in the zero bucket from the start, or a normal one. -/
def Plain (least v : Float) : Prop :=
  v.isNaN = false ∧ (v.abs ≤ least ∨ smallestNormal ≤ v.abs)

def keysAbove (schema : Int) (t : Float) (vs : List Float) : List Int :=
  (vs.filter fun v => t < v).map fun v => bucketIndex v schema

/-- The buckets list the values beyond the zero threshold by sign and index. -/
structure Filed (vs : List Float) (s : State) : Prop extends State.Sound s where
  threshold_number : s.zeroThreshold.isNaN = false
  numbers : ∀ v ∈ vs, v.isNaN = false
  positive_counts : s.positive.occurrences.Perm (keysAbove s.schema s.zeroThreshold vs)
  negative_counts : s.negative.occurrences.Perm (keysAbove s.schema s.zeroThreshold (vs.map (- ·)))

structure Classified (least : Float) (vs : List Float) (s : State) : Prop extends Filed vs s where
  least_number : least.isNaN = false
  raised : rank least ≤ rank s.zeroThreshold
  values : ∀ v ∈ vs, Plain least v
  counted : s.total = vs.length

variable {least t u v : Float} {vs : List Float} {schema : Int} {s s' : State}

theorem plain_iff (hl : least.isNaN = false) :
    Plain least v ↔ v.isNaN = false ∧ (|rank v| ≤ rank least ∨ 2 ^ 52 ≤ |rank v|) := by
  have hn : smallestNormal.isNaN = false := rfl
  have hr : rank smallestNormal = 2 ^ 52 := rfl
  refine and_congr_right fun hv => ?_
  rw [le_iff_rank (isNaN_abs hv) hl, le_iff_rank hn (isNaN_abs hv), rank_abs hv, hr]

theorem Plain.neg (hl : least.isNaN = false) (h : Plain least v) : Plain least (-v) := by
  obtain ⟨hv,ha⟩ := (plain_iff hl).mp h
  rw [plain_iff hl, rank_neg hv, abs_neg]
  exact ⟨isNaN_neg hv, ha⟩

theorem Plain.regular (hl : least.isNaN = false) (h : Plain least v) (h0 : 0 ≤ rank t)
    (hr : rank least ≤ rank t) (hv : t < v) : Regular v := by
  obtain ⟨hn,ha⟩ := (plain_iff hl).mp h
  have hlt := (lt_iff_rank (isNaN_of_lt hv).1 hn).mp hv
  rw [abs_of_nonneg (by omega)] at ha
  exact ⟨hn, by omega⟩

theorem length_eq_three (schema : Int) (ht : t.isNaN = false) (h0 : 0 ≤ rank t) (hv : ∀ v ∈ vs, v.isNaN = false) :
    (vs.countP fun v => v.abs ≤ t) + (keysAbove schema t vs).length +
      (keysAbove schema t (vs.map (- ·))).length = vs.length := by
  simp only [keysAbove, List.length_map, ← List.countP_eq_length_filter, List.countP_map]
  induction vs with
  | nil => rfl
  | cons v rest ih =>
    have hn := hv v List.mem_cons_self
    have ih := ih fun w hw => hv w (List.mem_cons_of_mem _ hw)
    have ha := le_iff_rank (isNaN_abs hn) ht
    have hp := lt_iff_rank ht hn
    have hm := lt_iff_rank ht (isNaN_neg hn)
    rw [rank_abs hn] at ha
    rw [rank_neg hn] at hm
    simp only [List.countP_cons, List.length_cons, Function.comp_apply, decide_eq_true_eq, ha, hp, hm]
    rcases le_total 0 (rank v) with h | h
    · rw [abs_of_nonneg h]
      split <;> split <;> split <;> omega
    · rw [abs_of_nonpos h]
      split <;> split <;> split <;> omega

theorem keysAbove_append (schema : Int) (t v : Float) (vs : List Float) :
    keysAbove schema t (vs ++ [v]) =
      keysAbove schema t vs ++ if t < v then [bucketIndex v schema] else [] := by
  rw [keysAbove, keysAbove, List.filter_append, List.map_append]
  congr 1
  by_cases h : t < v
  · rw [List.filter_singleton, decide_eq_true h, if_pos h]
    rfl
  · rw [List.filter_singleton, decide_eq_false h, if_neg h]
    rfl

theorem occurrences_add_one (key : Int) (b : Buckets) :
    (b.add key 1).occurrences.Perm (b.occurrences ++ [key]) :=
  (occurrences_add key 1 b).trans List.perm_append_comm

theorem occurrences_positive_observe (v : Float) (s : State) :
    (s.observe v).1.positive.occurrences.Perm
      (s.positive.occurrences ++ if s.zeroThreshold < v then [bucketIndex v s.schema] else []) := by
  by_cases ha : s.zeroThreshold < v
  · rw [State.observe_above ha, if_pos ha]
    exact occurrences_add_one _ _
  · rw [if_neg ha, List.append_nil]
    by_cases hb : v < -s.zeroThreshold
    · rw [State.observe_below ha hb]
    · rw [State.observe_within ha hb]

theorem occurrences_negative_observe (ht : s.zeroThreshold.isNaN = false) (h0 : 0 ≤ rank s.zeroThreshold)
    (hv : v.isNaN = false) :
    (s.observe v).1.negative.occurrences.Perm
      (s.negative.occurrences ++ if s.zeroThreshold < -v then [bucketIndex (-v) s.schema] else []) := by
  have hbelow := State.below_iff ht hv
  by_cases ha : s.zeroThreshold < v
  · have hnot : ¬ s.zeroThreshold < -v := by
      rw [lt_iff_rank ht hv] at ha
      rw [lt_iff_rank ht (isNaN_neg hv), rank_neg hv]
      omega
    rw [if_neg hnot, List.append_nil, State.observe_above ha]
  · by_cases hb : v < -s.zeroThreshold
    · rw [if_pos (hbelow.mp hb), State.observe_below ha hb]
      exact occurrences_add_one _ _
    · rw [if_neg (mt hbelow.mpr hb), List.append_nil, State.observe_within ha hb]

theorem forall_mem_snoc {p : Float → Prop} (h : ∀ w ∈ vs, p w) (hv : p v) : ∀ w ∈ vs ++ [v], p w := by
  intro w hw
  rcases List.mem_append.mp hw with hw | hw
  · exact h w hw
  · rw [List.mem_singleton.mp hw]
    exact hv

theorem Filed.observe (h : Filed vs s) (hv : v.isNaN = false) : Filed (vs ++ [v]) (s.observe v).1 where
  toSound := h.toSound.observe v
  threshold_number := by rw [State.zeroThreshold_observe]; exact h.threshold_number
  numbers := forall_mem_snoc h.numbers hv
  positive_counts := by
    rw [State.schema_observe, State.zeroThreshold_observe, keysAbove_append]
    exact (occurrences_positive_observe v s).trans (h.positive_counts.append_right _)
  negative_counts := by
    have hmap : (vs ++ [v]).map (- ·) = vs.map (- ·) ++ [-v] := List.map_append
    rw [State.schema_observe, State.zeroThreshold_observe, hmap, keysAbove_append]
    exact (occurrences_negative_observe h.threshold_number h.threshold hv).trans
      (h.negative_counts.append_right _)

theorem Classified.observe (h : Classified least vs s) (hv : Plain least v) :
    Classified least (vs ++ [v]) (s.observe v).1 where
  toFiled := h.toFiled.observe hv.1
  least_number := h.least_number
  raised := by rw [State.zeroThreshold_observe]; exact h.raised
  values := forall_mem_snoc h.values hv
  counted := by
    rw [State.total_observe, h.counted, List.length_append]
    rfl

/-- Above a bucket bound lie the values of the other keys, all of them larger. -/
theorem keysAbove_upperBound (h4 : minSchema ≤ schema) (h8 : schema ≤ maxSchema) (hu : Regular u)
    (htu : t < u) (hreg : ∀ v ∈ vs, t < v → Regular v)
    (hmin : ∀ k ∈ keysAbove schema t vs, bucketIndex u schema ≤ k) (hn : ∀ v ∈ vs, v.isNaN = false) :
    keysAbove schema (upperBound (bucketIndex u schema) schema) vs =
      (keysAbove schema t vs).filter (· != bucketIndex u schema) := by
  have hbn := hu.isNaN_upperBound h4 h8
  have hub := hu.rank_le_upperBound h4 h8
  have htr := (lt_iff_rank (isNaN_of_lt htu).1 hu.1).mp htu
  rw [keysAbove, keysAbove, List.filter_map, List.filter_filter]
  congr 1
  refine List.filter_congr fun v hv => ?_
  have hlt := lt_iff_rank hbn (hn v hv)
  have hle := le_iff_rank (hn v hv) hbn
  rw [Bool.eq_iff_iff, Bool.and_eq_true, decide_eq_true_iff, decide_eq_true_iff]
  -- Of the values above the old threshold those of the smallest key are the ones up to its bound.
  by_cases ht : t < v
  · have hmem : bucketIndex v schema ∈ keysAbove schema t vs :=
      List.mem_map.mpr ⟨v, List.mem_filter.mpr ⟨hv, decide_eq_true ht⟩, rfl⟩
    have hge := hmin _ hmem
    have hiff := hu.index_le_index_iff (hreg v hv ht) h4 h8
    rw [hle] at hiff
    rw [hlt, Function.comp_apply, bne_iff_ne]
    constructor
    · intro _
      exact ⟨by omega, ht⟩
    · rintro ⟨_, _⟩
      omega
  · rw [lt_iff_rank (isNaN_of_lt htu).1 (hn v hv)] at ht
    rw [hlt, lt_iff_rank (isNaN_of_lt htu).1 (hn v hv)]
    constructor
    · intro h
      omega
    · intro h
      omega

theorem Classified.regular (h : Classified least vs s) (hv : Plain least v) (ht : s.zeroThreshold < v) :
    Regular v :=
  hv.regular h.least_number h.threshold h.raised ht

theorem Classified.neg_values (h : Classified least vs s) : ∀ v ∈ vs.map (- ·), Plain least v := by
  intro v hv
  obtain ⟨w,hw,rfl⟩ := List.mem_map.mp hv
  exact (h.values w hw).neg h.least_number

theorem Classified.smallest_value (h : Classified least vs s) {key : Int}
    (hk : s.smallestKey? = some key) :
    ∃ u, Regular u ∧ s.zeroThreshold < u ∧ bucketIndex u s.schema = key := by
  rcases (h.smallestKey hk).1 with hm | hm
  · obtain ⟨u,hu,rfl⟩ := List.mem_map.mp (h.positive_counts.mem_iff.mp hm)
    obtain ⟨hv,ht⟩ := List.mem_filter.mp hu
    exact ⟨u, h.regular (h.values u hv) (of_decide_eq_true ht), of_decide_eq_true ht, rfl⟩
  · obtain ⟨u,hu,rfl⟩ := List.mem_map.mp (h.negative_counts.mem_iff.mp hm)
    obtain ⟨hv,ht⟩ := List.mem_filter.mp hu
    exact ⟨u, h.regular (h.neg_values u hv) (of_decide_eq_true ht), of_decide_eq_true ht, rfl⟩

theorem Classified.widen (h : Classified least vs s) {limit : Float} (hw : s.widen? limit = some s') :
    Classified least vs s' := by
  have hs := h.toSound.widen hw
  have htotal := h.total_widen hw
  obtain ⟨key,hk,rfl⟩ := State.widen?_eq_some hw
  obtain ⟨u,hu,htu,rfl⟩ := h.smallest_value hk
  obtain ⟨_,hpos,hneg⟩ := h.smallestKey hk
  have hub := hu.rank_le_upperBound h.coarsest h.finest
  have htr := (lt_iff_rank h.threshold_number hu.1).mp htu
  have hraised := h.raised
  refine {
    toSound := hs
    least_number := h.least_number
    threshold_number := hu.isNaN_upperBound h.coarsest h.finest
    numbers := h.numbers
    raised := by dsimp only; omega
    values := h.values
    positive_counts := ?_
    negative_counts := ?_
    counted := htotal.trans h.counted }
  · change (erase _ s.positive).occurrences.Perm (keysAbove s.schema (upperBound _ s.schema) vs)
    rw [occurrences_erase, keysAbove_upperBound h.coarsest h.finest hu htu]
    · exact h.positive_counts.filter _
    · exact fun v hv => h.regular (h.values v hv)
    · exact fun k hk => hpos k (h.positive_counts.mem_iff.mpr hk)
    · exact fun v hv => (h.values v hv).1
  · change (erase _ s.negative).occurrences.Perm
      (keysAbove s.schema (upperBound _ s.schema) (vs.map (- ·)))
    rw [occurrences_erase, keysAbove_upperBound h.coarsest h.finest hu htu]
    · exact h.negative_counts.filter _
    · exact fun v hv => h.regular (h.neg_values v hv)
    · exact fun k hk => hneg k (h.negative_counts.mem_iff.mpr hk)
    · exact fun v hv => (h.neg_values v hv).1

theorem keysAbove_sub_one (h4 : minSchema < schema) (h8 : schema ≤ maxSchema) (h0 : 0 ≤ rank t)
    (vs : List Float) : keysAbove (schema - 1) t vs = (keysAbove schema t vs).map halvedIndex := by
  rw [keysAbove, keysAbove, List.map_map]
  refine List.map_congr_left fun v hv => ?_
  obtain ⟨hn,hp⟩ := State.pos_of_above h0 (of_decide_eq_true (List.mem_filter.mp hv).2)
  exact (halvedIndex_bucketIndex hn hp h4 h8).symm

/-- Halving files every value one schema lower. -/
theorem Filed.halve (h : Filed vs s) (hh : s.halve? = some s') : Filed vs s' := by
  have hs := h.toSound.halve hh
  obtain ⟨h4,rfl⟩ := State.halve?_eq_some hh
  exact {
    toSound := hs
    threshold_number := h.threshold_number
    numbers := h.numbers
    positive_counts := by
      dsimp only
      rw [keysAbove_sub_one h4 h.finest h.threshold]
      exact (occurrences_halve _).trans (h.positive_counts.map _)
    negative_counts := by
      dsimp only
      rw [keysAbove_sub_one h4 h.finest h.threshold]
      exact (occurrences_halve _).trans (h.negative_counts.map _) }

theorem Classified.halve (h : Classified least vs s) (hh : s.halve? = some s') :
    Classified least vs s' := by
  have hf := h.toFiled.halve hh
  have htotal := State.total_halve hh
  obtain ⟨_,rfl⟩ := State.halve?_eq_some hh
  exact {
    toFiled := hf
    least_number := h.least_number
    raised := h.raised
    values := h.values
    counted := htotal.trans h.counted }

theorem Filed.eq_listed (h : Filed vs s) :
    s.positive = (classify s.schema s.zeroThreshold vs).positive ∧
      s.negative = (classify s.schema s.zeroThreshold vs).negative := by
  have hneg : keysAbove s.schema s.zeroThreshold (vs.map (- ·)) =
      (vs.filter fun v => v < -s.zeroThreshold).map fun v => bucketIndex (-v) s.schema := by
    rw [keysAbove, List.filter_map, List.map_map]
    congr 1
    refine List.filter_congr fun v hv => ?_
    rw [Bool.eq_iff_iff, decide_eq_true_iff, Function.comp_apply, decide_eq_true_iff]
    exact (State.below_iff h.threshold_number (h.numbers v hv)).symm
  exact ⟨h.positive.eq_listed h.positive_counts, h.negative.eq_listed (hneg ▸ h.negative_counts)⟩

theorem Filed.bucketNumber_eq (h : Filed vs s) :
    s.bucketNumber = (classify s.schema s.zeroThreshold vs).bucketNumber := by
  obtain ⟨hp,hn⟩ := h.eq_listed
  rw [h.number, hp, hn]
  rfl

theorem bucketNumber_classify_le (schema : Int) (t : Float) {ws : List Float} (h : vs ⊆ ws) :
    (classify schema t vs).bucketNumber ≤ (classify schema t ws).bucketNumber :=
  Nat.add_le_add (length_listed_le _ (List.filter_subset _ h)) (length_listed_le _ (List.filter_subset _ h))

/-- The state lists what was counted, by schema and threshold alone. -/
theorem Classified.eq_classify (h : Classified least vs s) :
    NativeSnapshot.mk s.schema s.zeroThreshold s.zeroCount s.positive s.negative =
      classify s.schema s.zeroThreshold vs := by
  have hlen := length_eq_three s.schema h.threshold_number h.threshold h.numbers
  have htotal := h.counted
  rw [State.total, ← length_occurrences, ← length_occurrences, h.positive_counts.length_eq,
    h.negative_counts.length_eq] at htotal
  have hzero : s.zeroCount = vs.countP fun v => v.abs ≤ s.zeroThreshold := by omega
  obtain ⟨hp,hn⟩ := h.toFiled.eq_listed
  rw [hp, hn, hzero]
  rfl

end Metering.Native
