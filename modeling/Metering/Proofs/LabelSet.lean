import Metering.LabelSet
import Mathlib.Data.List.Nodup

/-! # Pairs of a label set

A label set with distinct names gives back each of its values under its own name. Label sets that are
merged from the same constant pairs and names compare as the values do.
-/
namespace Metering.LabelSet

variable {s : LabelSet} {names v w : List String} {pairs : List (String × String)}

theorem lookup_of_nodup {name value : String} (hd : (pairs.map Prod.fst).Nodup) (hp : (name, value) ∈ pairs) :
    pairs.lookup name = some value := by
  induction pairs with
  | nil => simp at hp
  | cons q rest ih =>
    obtain ⟨n,x⟩ := q
    obtain ⟨hout,hrest⟩ := List.nodup_cons.mp hd
    rcases List.mem_cons.mp hp with heq | hm
    · cases heq
      simp
    · have hne : name ≠ n := fun heq => hout (List.mem_map.mpr ⟨(name, value), hm, heq⟩)
      simp [List.lookup_cons, beq_eq_false_iff_ne.mpr hne, ih hrest hm]

theorem get?_of_mem {name value : String} (hd : s.names.Nodup) (hp : (name, value) ∈ s.pairs) :
    s.get? name = some value :=
  lookup_of_nodup hd hp

theorem contains_eq_false {name : String} (hname : name ∉ s.names) : s.contains name = false := by
  have hnone : s.pairs.lookup name = none := by
    rw [List.lookup_eq_none_iff]
    intro p hp
    have hne : name ≠ p.1 := by
      rintro rfl
      exact hname (List.mem_map_of_mem hp)
    simpa using hne
  simp [contains, get?, hnone]

theorem push_ok {name : String} (hvalid : Label.isName name = true) (hname : name ∉ s.names) (value : String) :
    s.push name value = .ok ⟨s.pairs ++ [(name, value)]⟩ := by
  simp [push, hvalid, contains_eq_false hname]

theorem ofPairs_ok (hvalid : ∀ p ∈ pairs, Label.isName p.1 = true) (hd : (pairs.map Prod.fst).Nodup) :
    ofPairs pairs = .ok ⟨pairs⟩ := by
  suffices hgen : ∀ s : LabelSet, (s.names ++ pairs.map Prod.fst).Nodup →
      pairs.foldlM (fun s p => s.push p.1 p.2) s = .ok ⟨s.pairs ++ pairs⟩ from
    hgen {} hd
  induction pairs with
  | nil =>
    intro s _
    simp [Pure.pure, Except.pure]
  | cons p rest ih =>
    intro s hs
    obtain ⟨hp,hrest⟩ := List.forall_mem_cons.mp hvalid
    have hout : p.1 ∉ s.names := fun hm => List.disjoint_of_nodup_append hs hm List.mem_cons_self
    rw [List.foldlM_cons, push_ok hp hout]
    have hnext := ih hrest (List.nodup_cons.mp hd).2 ⟨s.pairs ++ [p]⟩ (by simpa [names] using hs)
    simpa [Bind.bind, Except.bind] using hnext

theorem names_merge (hlen : v.length = names.length) :
    (s.merge names v).names = s.names ++ names := by
  simp [LabelSet.names, merge, List.map_fst_zip, hlen]

theorem size_merge (hlen : v.length = names.length) : (s.merge names v).size = s.size + names.length := by
  simp [size, merge, hlen]

theorem comparePair_self (p : String × String) : comparePair p p = .eq := by
  simp [comparePair]

theorem compareLex_append_left (xs ys zs : List (String × String)) :
    List.compareLex comparePair (xs ++ ys) (xs ++ zs) = List.compareLex comparePair ys zs := by
  induction xs with
  | nil => rfl
  | cons x xs ih => simp [List.compareLex_cons_cons, comparePair_self, ih]

theorem compare_self (s : LabelSet) : compare s s = .eq := by
  have h := compareLex_append_left s.pairs [] []
  rwa [List.append_nil] at h

theorem compareLex_zip (hv : v.length = names.length) (hw : w.length = names.length) :
    List.compareLex comparePair (names.zip v) (names.zip w) = compare v w := by
  induction names generalizing v w with
  | nil =>
    rw [List.length_eq_zero_iff.mp hv, List.length_eq_zero_iff.mp hw]
    rfl
  | cons n names ih =>
    obtain ⟨a,v,rfl⟩ := List.exists_cons_of_length_eq_add_one hv
    obtain ⟨b,w,rfl⟩ := List.exists_cons_of_length_eq_add_one hw
    have htail := ih (Nat.succ.inj hv) (Nat.succ.inj hw)
    have hcons : compare (a :: v) (b :: w) = (compare a b).then (compare v w) := List.compareLex_cons_cons
    rw [List.zip_cons_cons, List.zip_cons_cons, List.compareLex_cons_cons, htail, hcons]
    simp [comparePair]

/-- Under the same constant pairs and names the order is that of the values. -/
theorem compare_merge (hv : v.length = names.length) (hw : w.length = names.length) :
    compare (s.merge names v) (s.merge names w) = compare v w := by
  change List.compareLex comparePair _ _ = _
  rw [merge, merge, compareLex_append_left, compareLex_zip hv hw]

theorem ascending_merge {tuples : List (List String)} (hlen : ∀ v ∈ tuples, v.length = names.length)
    (ht : tuples.Pairwise fun v w => compare v w = .lt) :
    (tuples.map (s.merge names)).Pairwise fun s t => compare s t = .lt := by
  rw [List.pairwise_map]
  refine ht.imp_of_mem ?_
  intro v w hv hw hlt
  exact (compare_merge (hlen v hv) (hlen w hw)).trans hlt

theorem nodup_of_ascending {sets : List LabelSet} (hs : sets.Pairwise fun s t => compare s t = .lt) :
    sets.Nodup := by
  refine hs.imp ?_
  rintro s t hlt rfl
  simp [compare_self] at hlt

end Metering.LabelSet
