import Metering.Native.Buckets
import Mathlib.Data.List.Sort
import Mathlib.Data.List.Count
import Mathlib.Data.List.Dedup

/-! # Sparse buckets as counted keys

Tidy buckets ascend strictly and hold no empty bucket. They are then fixed by the list of their
occurrences, every key as often as it was counted; adding, erasing and halving act on that list.
-/
namespace Metering.Native.Buckets

structure Tidy (b : Buckets) : Prop where
  ascending : b.Pairwise fun x y => x.1 < y.1
  filled : ∀ kc ∈ b, 0 < kc.2

/-- Every key as often as it was counted. -/
def occurrences (b : Buckets) : List Int :=
  b.flatMap fun kc => List.replicate kc.2 kc.1

@[simp] theorem occurrences_nil : occurrences [] = [] := rfl

@[simp] theorem occurrences_cons (kc : Int × Nat) (b : Buckets) :
    occurrences (kc :: b) = List.replicate kc.2 kc.1 ++ occurrences b := List.flatMap_cons

theorem tidy_nil : Tidy [] := ⟨List.Pairwise.nil, fun _ h => nomatch h⟩

theorem Tidy.cons {k : Int} {c : Nat} {rest : Buckets} (hlt : ∀ kc ∈ rest, k < kc.1) (hc : 0 < c)
    (h : Tidy rest) : Tidy ((k, c) :: rest) :=
  ⟨List.pairwise_cons.mpr ⟨hlt, h.ascending⟩, List.forall_mem_cons.mpr ⟨hc, h.filled⟩⟩

theorem Tidy.head_lt {kc : Int × Nat} {rest : Buckets} (h : Tidy (kc :: rest)) : ∀ x ∈ rest, kc.1 < x.1 :=
  (List.pairwise_cons.mp h.ascending).1

theorem Tidy.tail {kc : Int × Nat} {rest : Buckets} (h : Tidy (kc :: rest)) : Tidy rest :=
  ⟨(List.pairwise_cons.mp h.ascending).2, fun x hm => h.filled x (List.mem_cons_of_mem _ hm)⟩

theorem length_occurrences (b : Buckets) : (occurrences b).length = b.total := by
  induction b with
  | nil => rfl
  | cons kc rest ih => rw [occurrences_cons, List.length_append, List.length_replicate, ih, total_cons]

theorem mem_occurrences {b : Buckets} (h : ∀ kc ∈ b, 0 < kc.2) {key : Int} :
    key ∈ occurrences b ↔ ∃ kc ∈ b, kc.1 = key := by
  rw [occurrences, List.mem_flatMap]
  refine exists_congr fun kc => and_congr_right fun hm => ?_
  rw [List.mem_replicate]
  have := h kc hm
  constructor
  · exact fun hk => hk.2.symm
  · exact fun hk => ⟨by omega, hk.symm⟩

theorem contains_iff {b : Buckets} (h : Tidy b) {key : Int} :
    b.contains key = true ↔ key ∈ occurrences b := by
  rw [mem_occurrences h.filled, contains, List.any_eq_true]
  simp only [beq_iff_eq]

theorem Tidy.head_notMem {k : Int} {c : Nat} {rest : Buckets} (h : Tidy ((k, c) :: rest)) :
    k ∉ occurrences rest := by
  rw [mem_occurrences h.tail.filled]
  rintro ⟨kc,hm,he⟩
  have := h.head_lt kc hm
  omega

theorem count_eq {b : Buckets} (h : Tidy b) (key : Int) : b.count key = (occurrences b).count key := by
  induction b with
  | nil => rfl
  | cons kc rest ih =>
    obtain ⟨k,c⟩ := kc
    have ih := ih h.tail
    rw [count] at ih
    rw [count, occurrences_cons, List.count_append, List.count_replicate, List.lookup_cons]
    by_cases hk : key = k
    · subst hk
      rw [List.count_eq_zero_of_not_mem h.head_notMem]
      simp
    · have hne : (key == k) = false := beq_eq_false_iff_ne.mpr hk
      have hne' : (k == key) = false := beq_eq_false_iff_ne.mpr (Ne.symm hk)
      simp [hne, hne', ih]

theorem smallest?_eq_some {b : Buckets} (h : Tidy b) {key : Int} (hk : b.smallest? = some key) :
    key ∈ occurrences b ∧ ∀ k ∈ occurrences b, key ≤ k := by
  cases b with
  | nil => cases hk
  | cons kc rest =>
    obtain rfl : kc.1 = key := Option.some.inj hk
    refine ⟨(mem_occurrences h.filled).mpr ⟨kc, List.mem_cons_self, rfl⟩, ?_⟩
    intro k hm
    obtain ⟨kc',hm',rfl⟩ := (mem_occurrences h.filled).mp hm
    rcases List.mem_cons.mp hm' with rfl | hm'
    · exact le_refl _
    · exact (h.head_lt kc' hm').le

theorem smallest?_eq_none {b : Buckets} (h : b.smallest? = none) : b = [] := by
  cases b with
  | nil => rfl
  | cons kc rest => cases h

theorem mem_add {key : Int} {n : Nat} {b : Buckets} {kc : Int × Nat} (h : kc ∈ add key n b) :
    kc.1 = key ∨ ∃ kc' ∈ b, kc'.1 = kc.1 := by
  induction b with
  | nil => exact .inl (by rw [List.mem_singleton.mp h])
  | cons hd rest ih =>
    obtain ⟨k,c⟩ := hd
    rw [add] at h
    split at h
    · rcases List.mem_cons.mp h with rfl | h
      · exact .inl rfl
      · exact .inr ⟨kc, h, rfl⟩
    · split at h
      · rename_i he
        rcases List.mem_cons.mp h with rfl | h
        · exact .inl he.symm
        · exact .inr ⟨kc, List.mem_cons_of_mem _ h, rfl⟩
      · rcases List.mem_cons.mp h with rfl | h
        · exact .inr ⟨(k, c), List.mem_cons_self, rfl⟩
        · rcases ih h with h | ⟨kc',hm,he⟩
          · exact .inl h
          · exact .inr ⟨kc', List.mem_cons_of_mem _ hm, he⟩

theorem Tidy.add {b : Buckets} (h : Tidy b) (key : Int) {n : Nat} (hn : 0 < n) :
    Tidy (Buckets.add key n b) := by
  induction b with
  | nil => exact tidy_nil.cons (fun _ hm => nomatch hm) hn
  | cons hd rest ih =>
    obtain ⟨k,c⟩ := hd
    have hc := h.filled (k, c) List.mem_cons_self
    rw [Buckets.add]
    split
    · rename_i hk
      refine h.cons ?_ hn
      intro kc hm
      rcases List.mem_cons.mp hm with rfl | hm
      · exact hk
      · exact hk.trans (h.head_lt kc hm)
    · split
      · exact h.tail.cons h.head_lt (Nat.add_pos_left hc n)
      · rename_i hk he
        refine (ih h.tail).cons ?_ hc
        intro kc hm
        rcases mem_add hm with h' | ⟨kc',hm',he'⟩
        · omega
        · rw [← he']
          exact h.head_lt kc' hm'

theorem occurrences_add (key : Int) (n : Nat) (b : Buckets) :
    (occurrences (add key n b)).Perm (List.replicate n key ++ occurrences b) := by
  induction b with
  | nil => exact List.Perm.refl _
  | cons hd rest ih =>
    obtain ⟨k,c⟩ := hd
    rw [add]
    split
    · exact List.Perm.refl _
    · split
      · rename_i he
        rw [occurrences_cons, occurrences_cons, he, ← List.append_assoc, List.replicate_append_replicate,
          Nat.add_comm]
      · rw [occurrences_cons, occurrences_cons]
        exact (List.Perm.append_left _ ih).trans (List.perm_append_comm_assoc _ _ _)

theorem Tidy.erase {b : Buckets} (h : Tidy b) (key : Int) : Tidy (Buckets.erase key b) :=
  ⟨h.ascending.sublist List.filter_sublist, fun kc hm => h.filled kc (List.mem_of_mem_filter hm)⟩

theorem occurrences_erase (key : Int) (b : Buckets) :
    occurrences (erase key b) = (occurrences b).filter (· != key) := by
  induction b with
  | nil => rfl
  | cons kc rest ih =>
    rw [erase] at ih ⊢
    rw [occurrences_cons, List.filter_append, ← ih, List.filter_cons, List.filter_replicate]
    by_cases hk : (kc.1 != key) = true
    · rw [if_pos hk, if_pos hk, occurrences_cons]
    · rw [if_neg hk, if_neg hk, List.nil_append]

theorem total_erase {b : Buckets} (h : Tidy b) (key : Int) :
    (erase key b).total + b.count key = b.total := by
  have hl := List.length_eq_countP_add_countP (· == key) (l := occurrences b)
  rw [count_eq h, ← length_occurrences, ← length_occurrences, occurrences_erase,
    ← List.countP_eq_length_filter, hl, List.count, Nat.add_comm]
  congr 1
  refine List.countP_congr fun k _ => ?_
  simp

theorem length_add {b : Buckets} (h : Tidy b) (key : Int) (n : Nat) :
    (add key n b).length = b.length + if b.contains key then 0 else 1 := by
  induction b with
  | nil => rfl
  | cons hd rest ih =>
    obtain ⟨k,c⟩ := hd
    have ih := ih h.tail
    have hlt := h.head_lt
    rw [add]
    split
    · rename_i hk
      have hc : contains key ((k, c) :: rest) = false := by
        rw [← Bool.not_eq_true, contains, List.any_eq_true]
        rintro ⟨kc, hm, he⟩
        rw [beq_iff_eq] at he
        rcases List.mem_cons.mp hm with rfl | hm
        · omega
        · have := hlt kc hm
          omega
      rw [hc]
      rfl
    · split
      · rename_i hk he
        rw [contains, List.any_cons, he, beq_self_eq_true, Bool.true_or, if_pos rfl]
        rfl
      · rename_i hk he
        have hne : (k == key) = false := beq_eq_false_iff_ne.mpr (Ne.symm he)
        rw [contains, List.any_cons, hne, Bool.false_or, List.length_cons, ih, contains]
        exact Nat.add_right_comm _ _ _

theorem length_erase {b : Buckets} (h : Tidy b) (key : Int) :
    (erase key b).length + (if b.contains key then 1 else 0) = b.length := by
  induction b with
  | nil => rfl
  | cons hd rest ih =>
    obtain ⟨k,c⟩ := hd
    have ih := ih h.tail
    have hlt := h.head_lt
    rw [erase] at ih ⊢
    rw [contains] at ih ⊢
    rw [List.filter_cons, List.any_cons, List.length_cons]
    by_cases he : k = key
    · subst he
      have hc : (rest.any (·.1 == k)) = false := by
        rw [← Bool.not_eq_true, List.any_eq_true]
        rintro ⟨kc, hm, he⟩
        rw [beq_iff_eq] at he
        have := hlt kc hm
        omega
      rw [hc] at ih
      simpa using ih
    · have hne : (k == key) = false := beq_eq_false_iff_ne.mpr he
      rw [if_pos (bne_iff_ne.mpr he), hne, Bool.false_or, List.length_cons]
      omega

theorem Tidy.foldl_add (f : Int → Int) {b merged : Buckets} (h : ∀ kc ∈ b, 0 < kc.2) (hm : Tidy merged) :
    Tidy (b.foldl (fun m kc => Buckets.add (f kc.1) kc.2 m) merged) := by
  induction b generalizing merged with
  | nil => exact hm
  | cons kc rest ih =>
    exact ih (fun x hx => h x (List.mem_cons_of_mem _ hx)) (hm.add _ (h kc List.mem_cons_self))

theorem Tidy.halve {b : Buckets} (h : Tidy b) : Tidy b.halve :=
  Tidy.foldl_add halvedIndex h.filled tidy_nil

theorem occurrences_foldl_add (f : Int → Int) (b merged : Buckets) :
    (occurrences (b.foldl (fun m kc => add (f kc.1) kc.2 m) merged)).Perm
      (occurrences merged ++ (occurrences b).map f) := by
  induction b generalizing merged with
  | nil => rw [occurrences_nil, List.map_nil, List.append_nil]; exact List.Perm.refl _
  | cons kc rest ih =>
    rw [List.foldl_cons, occurrences_cons, List.map_append, List.map_replicate, ← List.append_assoc]
    exact (ih _).trans (((occurrences_add _ _ _).trans List.perm_append_comm).append_right _)

theorem occurrences_halve (b : Buckets) : (occurrences b.halve).Perm ((occurrences b).map halvedIndex) :=
  occurrences_foldl_add halvedIndex b []

theorem length_foldl_add_le (f : Int → Int) {b merged : Buckets} (h : ∀ kc ∈ b, 0 < kc.2) (hm : Tidy merged) :
    (b.foldl (fun m kc => add (f kc.1) kc.2 m) merged).length ≤ merged.length + b.length := by
  induction b generalizing merged with
  | nil => exact Nat.le_refl _
  | cons kc rest ih =>
    have hl := length_add hm (f kc.1) kc.2
    have ih := ih (fun x hx => h x (List.mem_cons_of_mem _ hx)) (hm.add (f kc.1) (h kc List.mem_cons_self))
    rw [List.foldl_cons, List.length_cons]
    split at hl <;> omega

theorem length_halve_le {b : Buckets} (h : Tidy b) : b.halve.length ≤ b.length := by
  have hl := length_foldl_add_le halvedIndex h.filled tidy_nil
  rwa [List.length_nil, Nat.zero_add] at hl

/-- The values with each index that occurs, by ascending index. -/
def listed (index : Float → Int) (vs : List Float) : Buckets :=
  ((vs.map index).dedup.mergeSort (· ≤ ·)).map fun k => (k, vs.countP fun v => index v == k)

theorem length_listed_le (index : Float → Int) {vs ws : List Float} (h : vs ⊆ ws) :
    (listed index vs).length ≤ (listed index ws).length := by
  have hsub : (vs.map index).dedup ⊆ (ws.map index).dedup := by
    intro k hk
    rw [List.mem_dedup] at hk ⊢
    exact List.map_subset index h hk
  rw [listed, listed, List.length_map, List.length_map, List.length_mergeSort, List.length_mergeSort]
  exact (List.subperm_of_subset (List.nodup_dedup _) hsub).length_le

theorem Tidy.eq_map {b : Buckets} (h : Tidy b) :
    b = (b.map Prod.fst).map fun k => (k, (occurrences b).count k) := by
  induction b with
  | nil => rfl
  | cons hd rest ih =>
    obtain ⟨k,c⟩ := hd
    have hlt := h.head_lt
    rw [List.map_cons, List.map_cons, occurrences_cons, List.count_append,
      List.count_eq_zero_of_not_mem h.head_notMem, List.count_replicate_self, Nat.add_zero]
    congr 1
    refine (ih h.tail).trans (List.map_congr_left fun k' hk' => ?_)
    obtain ⟨kc,hm,rfl⟩ := List.mem_map.mp hk'
    have hne := hlt kc hm
    rw [List.count_append, List.count_replicate, if_neg (by simp; omega), Nat.zero_add]

theorem Tidy.keys_eq {b : Buckets} (h : Tidy b) {keys : List Int} (hp : (occurrences b).Perm keys) :
    b.map Prod.fst = keys.dedup.mergeSort (· ≤ ·) := by
  have hs : (b.map Prod.fst).Pairwise (· < ·) := List.pairwise_map.mpr h.ascending
  have hk : (b.map Prod.fst).Perm (keys.dedup.mergeSort (· ≤ ·)) := by
    refine List.Perm.trans ?_ (List.mergeSort_perm _ _).symm
    rw [List.perm_ext_iff_of_nodup (hs.imp (fun hab => hab.ne)) (List.nodup_dedup _)]
    intro k
    rw [List.mem_dedup, ← hp.mem_iff, mem_occurrences h.filled, List.mem_map]
  exact List.Perm.eq_of_pairwise' (hs.imp fun hab => hab.le) (List.pairwise_mergeSort' (· ≤ ·) _) hk

theorem Tidy.eq_listed {b : Buckets} (h : Tidy b) {index : Float → Int} {vs : List Float}
    (hp : (occurrences b).Perm (vs.map index)) : b = listed index vs := by
  rw [h.eq_map, h.keys_eq hp, listed]
  refine List.map_congr_left fun k _ => ?_
  rw [hp.count_eq, List.count, List.countP_map]
  rfl

end Metering.Native.Buckets
