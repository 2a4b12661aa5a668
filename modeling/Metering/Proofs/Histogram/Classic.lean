import Metering.Histogram
import Metering.Proofs.Histogram.Accepted
import Metering.Proofs.Search

/-! # Classic buckets

Both searches find the first bound that is not below a value. Counting the value there raises the
cumulative counts of just the bounds that it does not exceed.
-/
namespace Metering
open Binary64

variable {σ : Type} [Sampler σ]

theorem cumulate_succ (total : Nat) (xs : List (Float × Nat)) :
    cumulate (total + 1) xs = (cumulate total xs).map fun b => ⟨b.upperBound, b.count + 1⟩ := by
  induction xs generalizing total with
  | nil => rfl
  | cons x rest ih =>
    obtain ⟨b,n⟩ := x
    have hn : total + 1 + n = total + n + 1 := by omega
    rw [cumulate, cumulate, List.map_cons, hn, ih]

theorem cumulate_modify (i total : Nat) (bounds : List Float) (counts : List Nat) :
    cumulate total (bounds.zip (counts.modify i (· + 1))) =
      (cumulate total (bounds.zip counts)).mapIdx fun j b =>
        ⟨b.upperBound, if i ≤ j then b.count + 1 else b.count⟩ := by
  induction bounds generalizing i total counts with
  | nil => rfl
  | cons bound bounds ih =>
    cases counts with
    | nil =>
      rw [List.modify_nil]
      rfl
    | cons n counts =>
      cases i with
      | zero =>
        rw [List.modify_zero_cons, List.zip_cons_cons, List.zip_cons_cons, cumulate, cumulate,
          List.mapIdx_cons, ← Nat.add_assoc, cumulate_succ]
        simp only [Nat.zero_le, if_true]
        congr 1
        exact (List.mapIdx_eq_iff.mpr fun j => List.getElem?_map).symm
      | succ i =>
        have hz : ¬ i + 1 ≤ 0 := Nat.not_succ_le_zero i
        rw [List.modify_succ_cons, List.zip_cons_cons, List.zip_cons_cons, cumulate, cumulate,
          List.mapIdx_cons, ih, if_neg hz]
        simp only [Nat.succ_le_succ_iff]

theorem cumulate_zeros (bounds : List Float) (total : Nat) :
    cumulate total (bounds.zip (bounds.map fun _ => 0)) = bounds.map fun b => ⟨b, total⟩ := by
  induction bounds generalizing total with
  | nil => rfl
  | cons b rest ih => rw [List.map_cons, List.zip_cons_cons, cumulate, List.map_cons, Nat.add_zero, ih]

/-- The first bound that is not below a value. -/
def IsBucket (v : Float) (bounds : Array Float) (i : Nat) : Prop :=
  i < bounds.size ∧ ∀ j (hj : j < bounds.size), v ≤ bounds[j] ↔ i ≤ j

variable {bounds : Array Float} {v : Float}

theorem Closed.number (h : Closed bounds.toList) {j : Nat} (hj : j < bounds.size) :
    bounds[j].isNaN = false :=
  h.numbers _ (Array.getElem_mem_toList hj)

theorem Closed.rank_le (h : Closed bounds.toList) {i j : Nat} (hj : j < bounds.size) (hij : i ≤ j) :
    rank bounds[i] ≤ rank bounds[j] := by
  rcases Nat.lt_or_eq_of_le hij with hlt | rfl
  · exact List.pairwise_iff_getElem.mp h.ascending i j (by simpa using (by omega)) (by simpa using hj) hlt
  · exact Int.le_refl _

theorem Closed.le_last (h : Closed bounds.toList) (hv : v.isNaN = false) (hpos : 0 < bounds.size) :
    v ≤ bounds[bounds.size - 1] := by
  have hl : bounds.toList.getLast? = some bounds[bounds.size - 1] := by
    rw [List.getLast?_eq_getElem?]
    simp
  have hr := h.closed _ hl
  rw [le_iff_rank hv (h.number (by omega)), hr]
  exact rank_le_infinity hv

theorem isBucket_linear (h : Closed bounds.toList) (hv : v.isNaN = false) (hpos : 0 < bounds.size) :
    ∃ i, Search.firstAtLeast? v bounds = some i ∧ IsBucket v bounds i := by
  cases hf : Search.firstAtLeast? v bounds with
  | none =>
    have hall := Array.findIdx?_eq_none_iff.mp hf
    have hlast := hall bounds[bounds.size - 1] (Array.getElem_mem _)
    rw [decide_eq_true (h.le_last hv hpos)] at hlast
    cases hlast
  | some i =>
    obtain ⟨hi,hle,hlt⟩ := Array.findIdx?_eq_some_iff_getElem.mp hf
    refine ⟨i, rfl, hi, ?_⟩
    intro j hj
    rw [decide_eq_true_iff, le_iff_rank hv (h.number hi)] at hle
    constructor
    · intro hvj
      by_contra hij
      exact hlt j (by omega) (decide_eq_true hvj)
    · intro hij
      have := h.rank_le hj hij
      rw [le_iff_rank hv (h.number hj)]
      omega

theorem isBucket_halving (h : Closed bounds.toList) (hv : v.isNaN = false) (hpos : 0 < bounds.size) :
    IsBucket v bounds (Search.partitionPoint (· < v) bounds) := by
  have hlt : ∀ j (hj : j < bounds.size), bounds[j] < v ↔ rank bounds[j] < rank v :=
    fun j hj => lt_iff_rank (h.number hj) hv
  have hp : Search.Partitioned (fun b => decide (b < v)) bounds := by
    intro i j hi hj hij ht
    rw [decide_eq_true_iff, hlt] at ht ⊢
    have := h.rank_le hj hij
    omega
  have hiff : ∀ j (hj : j < bounds.size),
      v ≤ bounds[j] ↔ Search.partitionPoint (· < v) bounds ≤ j := by
    intro j hj
    have hp := Search.lt_partitionPoint_iff hp hj
    rw [decide_eq_true_iff, hlt j hj] at hp
    rw [le_iff_rank hv (h.number hj)]
    omega
  refine ⟨?_, hiff⟩
  have := (hiff (bounds.size - 1) (by omega)).mp (h.le_last hv hpos)
  omega

omit [Sampler σ] in
theorem findBucket_spec {h : Histogram σ} (hc : Closed h.config.bounds.toList) (hv : v.isNaN = false)
    (hpos : 0 < h.config.bounds.size) :
    ∃ i, h.findBucket v = some i ∧ IsBucket v h.config.bounds i := by
  have hne : h.config.bounds.isEmpty = false := by
    rw [← Bool.not_eq_true, Array.isEmpty_iff_size_eq_zero]
    omega
  rw [Histogram.findBucket, hne, if_neg Bool.false_ne_true]
  split
  · exact isBucket_linear hc hv hpos
  · exact ⟨_, rfl, isBucket_halving hc hv hpos⟩

/-- Counting a value in its bucket counts it under every bound that it does not exceed. -/
theorem cumulate_modify_bucket {counts : Array Nat} {vs : List Float} {i : Nat}
    (hi : IsBucket v bounds i)
    (hc : cumulate 0 (bounds.toList.zip counts.toList) =
      bounds.toList.map fun b => ⟨b, vs.countP fun w => w ≤ b⟩) :
    cumulate 0 (bounds.toList.zip (counts.modify i (· + 1)).toList) =
      bounds.toList.map fun b => ⟨b, (vs ++ [v]).countP fun w => w ≤ b⟩ := by
  rw [Array.toList_modify, cumulate_modify, hc]
  refine List.ext_getElem (by simp) fun j hj _ => ?_
  simp only [List.getElem_mapIdx, List.getElem_map, List.countP_append, List.countP_singleton,
    Array.getElem_toList, decide_eq_true_eq]
  have hiff := hi.2 j (by simpa using hj)
  by_cases hij : i ≤ j
  · rw [if_pos hij, if_pos (hiff.mpr hij)]
  · rw [if_neg hij, if_neg (mt hiff.mp hij), Nat.add_zero]

end Metering
