import Metering.Native.Bucket
import Metering.Proofs.Binary64.Scale
import Metering.Proofs.Search

/-! # The tables of bounds

A table of schema `s` holds `2 ^ s` ascending fractions from 0.5 on, and every second one is a bound
of the table before it. All of it follows from the finest table.
-/
namespace Metering.Native
open Binary64

@[simp] theorem length_bounds (s : Nat) : (bounds s).length = 2 ^ s := by
  induction s with
  | zero => rfl
  | succ s ih =>
    rw [bounds, List.length_flatMap]
    simp [ih, Nat.pow_succ]

theorem sublist_flatMap_pair (f : Float → Float) (bs : List Float) :
    bs.Sublist (bs.flatMap fun b => [b, f b]) := by
  induction bs with
  | nil => exact .slnil
  | cons b bs ih =>
    rw [List.flatMap_cons]
    exact (ih.cons (f b)).cons_cons b

theorem bounds_sublist {s t : Nat} (h : s ≤ t) : (bounds s).Sublist (bounds t) := by
  induction h with
  | refl => exact List.Sublist.refl _
  | step _ ih => exact ih.trans (sublist_flatMap_pair _ _)

/-- The finest table ascends, and leaves room between its last bound and 1. -/
theorem bounds_eight : ((bounds 8).map fun b => b.toBits.toNat).IsChain (· < ·) ∧
    ((bounds 8).all fun b => decide (b.toBits.toNat / 2 ^ 52 = 1022 ∧ b.toBits.toNat + 1 < 1023 * 2 ^ 52)) = true := by
  decide +kernel

theorem word_of_mem_bounds {s : Nat} (hs : s ≤ 8) {b : Float} (hb : b ∈ bounds s) :
    b.toBits.toNat / 2 ^ 52 = 1022 ∧ b.toBits.toNat + 1 < 1023 * 2 ^ 52 :=
  of_decide_eq_true (List.all_eq_true.mp bounds_eight.2 b ((bounds_sublist hs).subset hb))

theorem parts_of_mem_bounds {s : Nat} (hs : s ≤ 8) {b : Float} (hb : b ∈ bounds s) :
    sign b = .positive ∧ field b = 1022 := by
  obtain ⟨h1,_⟩ := word_of_mem_bounds hs hb
  obtain ⟨hp,hf,_⟩ := parts_of_toNat (x := b) (f := 1022) (r := b.toBits.toNat % 2 ^ 52) (by decide)
    (Nat.mod_lt _ (by decide)) (by omega)
  exact ⟨hp, hf⟩

theorem rank_of_mem_bounds {s : Nat} (hs : s ≤ 8) {b : Float} (hb : b ∈ bounds s) :
    1022 * 2 ^ 52 ≤ rank b ∧ rank b + 1 < 1023 * 2 ^ 52 := by
  obtain ⟨h1,h2⟩ := word_of_mem_bounds hs hb
  rw [rank_of_positive (parts_of_mem_bounds hs hb).1]
  omega

theorem bounds_ascending {s : Nat} (hs : s ≤ 8) : (bounds s).Pairwise fun a b => rank a < rank b := by
  have h8 := List.pairwise_map.mp (List.isChain_iff_pairwise.mp bounds_eight.1)
  refine (h8.sublist (bounds_sublist hs)).imp_of_mem ?_
  intro a b ha hb hlt
  rw [rank_of_positive (parts_of_mem_bounds hs ha).1, rank_of_positive (parts_of_mem_bounds hs hb).1]
  exact Int.ofNat_lt.mpr hlt

theorem getElem?_flatMap_pair (f : Float → Float) (bs : List Float) (i : Nat) :
    (bs.flatMap fun b => [b, f b])[2 * i]? = bs[i]? := by
  induction bs generalizing i with
  | nil => rfl
  | cons b bs ih =>
    cases i with
    | zero => rfl
    | succ i => exact ih i

theorem table_eq {s : Nat} (hs : s ≤ 8) : table s = (bounds s).toArray := by
  rw [table, tables, Array.getD_eq_getD_getElem?, Array.getElem?_map, Array.getElem?_range]
  rw [if_pos (by omega)]
  rfl

@[simp] theorem size_table {s : Nat} (hs : s ≤ 8) : (table s).size = 2 ^ s := by
  rw [table_eq hs, List.size_toArray, length_bounds]

theorem getD_table {s i : Nat} (hs : s ≤ 8) (hi : i < (table s).size) :
    (table s).getD i 0 = (table s)[i] ∧ (table s)[i] ∈ bounds s := by
  have hl : i < (bounds s).length := by simpa [table_eq hs] using hi
  refine ⟨Array.getElem_eq_getD _ |>.symm, ?_⟩
  simp only [table_eq hs, List.getElem_toArray]
  exact List.getElem_mem hl

/-- Every second bound stands in the table before. -/
theorem getD_table_double {s : Nat} (hs : s + 1 ≤ 8) (i : Nat) :
    (table (s + 1)).getD (2 * i) 0 = (table s).getD i 0 := by
  rw [table_eq hs, table_eq (by omega), Array.getD_eq_getD_getElem?, Array.getD_eq_getD_getElem?,
    List.getElem?_toArray, List.getElem?_toArray, bounds, getElem?_flatMap_pair]

theorem getD_table_zero {s : Nat} (hs : s ≤ 8) : (table s).getD 0 0 = 0.5 := by
  induction s with
  | zero => rw [table_eq hs]; rfl
  | succ s ih => rw [← ih (by omega), ← getD_table_double hs 0]

theorem rank_table {s i : Nat} (hs : s ≤ 8) (hi : i < 2 ^ s) :
    ((table s).getD i 0).isNaN = false ∧ 1022 * 2 ^ 52 ≤ rank ((table s).getD i 0) ∧
      rank ((table s).getD i 0) + 1 < 1023 * 2 ^ 52 := by
  obtain ⟨he,hm⟩ := getD_table hs (by rw [size_table hs]; exact hi)
  have hf := (parts_of_mem_bounds hs hm).2
  rw [he]
  exact ⟨isNaN_of_field (by omega), rank_of_mem_bounds hs hm⟩

theorem rank_table_lt {s i j : Nat} (hs : s ≤ 8) (hij : i < j) (hj : j < 2 ^ s) :
    rank ((table s).getD i 0) < rank ((table s).getD j 0) := by
  have hsize := size_table hs
  rw [(getD_table hs (by omega)).1, (getD_table hs (by omega)).1]
  simp only [table_eq hs, List.getElem_toArray]
  exact List.pairwise_iff_getElem.mp (bounds_ascending hs) i j _ _ hij

/-- The search in a table counts the bounds below a fraction. -/
theorem lt_partitionPoint_table {s i : Nat} {f : Float} (hs : s ≤ 8) (hf : f.isNaN = false)
    (hi : i < 2 ^ s) :
    i < Search.partitionPoint (· < f) (table s) ↔ rank ((table s).getD i 0) < rank f := by
  have hsize := size_table hs
  have hrank : ∀ j (hj : j < (table s).size),
      decide ((table s)[j] < f) = true ↔ rank ((table s).getD j 0) < rank f := by
    intro j hj
    rw [decide_eq_true_iff, ← (getD_table hs hj).1]
    exact lt_iff_rank (rank_table hs (by omega)).1 hf
  have hp : Search.Partitioned (fun x => decide (x < f)) (table s) := by
    intro i j hi hj hij h
    rw [hrank] at h ⊢
    rcases Nat.lt_or_eq_of_le hij with hlt | rfl
    · exact (rank_table_lt hs hlt (by omega)).trans h
    · exact h
  rw [Search.lt_partitionPoint_iff hp (by omega), hrank]

theorem partitionPoint_table_le {s : Nat} (f : Float) (hs : s ≤ 8) :
    Search.partitionPoint (· < f) (table s) ≤ 2 ^ s :=
  Search.partitionPoint_le.trans_eq (size_table hs)

end Metering.Native
