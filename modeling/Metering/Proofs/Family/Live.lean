import Metering.Family

/-! # Live series

Live series are kept in strictly ascending order of their tuples. A tuple then has at most one
handle, and linking or dropping a tuple changes what is found under this tuple only.
-/
namespace Metering.Family

def Ascending (live : List (List String × Nat)) : Prop :=
  live.Pairwise fun p q => compare p.1 q.1 = .lt

variable {values w : List String} {handle h : Nat} {live : List (List String × Nat)}

theorem ne_of_lt {v w : List String} (hlt : compare v w = .lt) : v ≠ w := by
  rintro rfl
  simp at hlt

theorem lookup_cons (v : List String) (h : Nat) (rest : List (List String × Nat)) (w : List String) :
    ((v, h) :: rest).lookup w = if w = v then some h else rest.lookup w := by
  by_cases hw : w = v
  · simp [hw]
  · simp [List.lookup_cons, hw, beq_eq_false_iff_ne.mpr hw]

theorem lookup_link (values : List String) (handle : Nat) (live : List (List String × Nat)) (w : List String) :
    (link values handle live).lookup w = if w = values then some handle else live.lookup w := by
  induction live with
  | nil => simp [link, lookup_cons]
  | cons p rest ih =>
    obtain ⟨v,h⟩ := p
    cases hc : compare values v with
    | gt =>
      have hne : v ≠ values := ne_of_lt (Std.OrientedCmp.gt_iff_lt.mp hc)
      by_cases hw : w = v
      · simp [link, hc, hw, hne]
      · simp [link, hc, lookup_cons, hw, ih]
    | lt => simp [link, hc, lookup_cons]
    | eq => simp [link, hc, lookup_cons]

theorem perm_link (values : List String) (handle : Nat) (live : List (List String × Nat)) :
    (link values handle live).Perm ((values, handle) :: live) := by
  induction live with
  | nil => exact .refl _
  | cons q rest ih =>
    obtain ⟨v,h⟩ := q
    cases hc : compare values v with
    | gt =>
      simp only [link, hc]
      exact (ih.cons (v, h)).trans (.swap (values, handle) (v, h) rest)
    | lt => simp [link, hc]
    | eq => simp [link, hc]

theorem mem_link {p : List String × Nat} : p ∈ link values handle live ↔ p = (values, handle) ∨ p ∈ live :=
  (perm_link values handle live).mem_iff.trans List.mem_cons

theorem ascending_link (ha : Ascending live) (hnew : live.lookup values = none) :
    Ascending (link values handle live) := by
  induction live with
  | nil => simp [Ascending, link]
  | cons p rest ih =>
    obtain ⟨v,h⟩ := p
    obtain ⟨hhead,htail⟩ := List.pairwise_cons.mp ha
    rw [lookup_cons] at hnew
    split at hnew
    next => cases hnew
    next hne =>
      cases hc : compare values v with
      | eq => exact absurd (Std.LawfulEqOrd.eq_of_compare hc) hne
      | lt =>
        simp only [link, hc]
        refine List.pairwise_cons.mpr ⟨?_, ha⟩
        intro q hq
        rcases List.mem_cons.mp hq with rfl | hq
        · exact hc
        · exact Std.TransCmp.lt_trans hc (hhead q hq)
      | gt =>
        simp only [link, hc]
        refine List.pairwise_cons.mpr ⟨?_, ih htail hnew⟩
        intro q hq
        rcases mem_link.mp hq with rfl | hq
        · exact Std.OrientedCmp.gt_iff_lt.mp hc
        · exact hhead q hq

theorem lookup_filter_ne (values : List String) (live : List (List String × Nat)) (w : List String) :
    (live.filter (·.1 != values)).lookup w = if w = values then none else live.lookup w := by
  induction live with
  | nil => simp
  | cons p rest ih =>
    obtain ⟨v,h⟩ := p
    by_cases hv : v = values
    · subst hv
      simp only [List.filter_cons, bne_self_eq_false, Bool.false_eq_true, if_false, ih, lookup_cons]
      split <;> rfl
    · by_cases hw : w = v <;> simp [hv, hw, lookup_cons, ih]

theorem lookup_eq_some_iff (ha : Ascending live) : live.lookup w = some h ↔ (w, h) ∈ live := by
  induction live with
  | nil => simp
  | cons p rest ih =>
    obtain ⟨v,k⟩ := p
    obtain ⟨hhead,htail⟩ := List.pairwise_cons.mp ha
    by_cases hw : w = v
    · have hout : (w, h) ∉ rest := fun hm => ne_of_lt (hhead _ hm) hw.symm
      simp [hw ▸ hout, hw, eq_comm]
    · simp [lookup_cons, hw, ih htail]

end Metering.Family
