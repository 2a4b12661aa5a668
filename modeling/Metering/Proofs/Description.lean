import Metering.Description
import Metering.Proofs.LabelSet

/-! # What a description promises

A description that is accepted has a valid name and, constant and variable ones together, label names
that are valid, distinct and not reserved. The constant labels are kept as they are given.
-/
namespace Metering

def ConstantLabels.Ascending (labels : ConstantLabels) : Prop :=
  labels.Pairwise fun p q => compare p.1 q.1 = .lt

theorem ConstantLabels.mem_insert {name value : String} {labels : ConstantLabels} {p : String × String}
    (hp : p ∈ labels.insert name value) : p = (name, value) ∨ p ∈ labels := by
  induction labels with
  | nil => simpa [ConstantLabels.insert] using hp
  | cons q rest ih =>
    obtain ⟨n,v⟩ := q
    cases hc : compare name n with
    | lt => simpa [ConstantLabels.insert, hc] using hp
    | eq =>
      simp only [ConstantLabels.insert, hc, List.mem_cons] at hp
      rcases hp with hp | hp
      · exact .inl hp
      · exact .inr (List.mem_cons_of_mem _ hp)
    | gt =>
      simp only [ConstantLabels.insert, hc, List.mem_cons] at hp
      rcases hp with hp | hp
      · exact .inr (by simp [hp])
      · exact (ih hp).imp_right (List.mem_cons_of_mem _)

theorem ConstantLabels.ascending_insert (name value : String) {labels : ConstantLabels} (ha : labels.Ascending) :
    (labels.insert name value).Ascending := by
  induction labels with
  | nil => simp [Ascending, ConstantLabels.insert]
  | cons q rest ih =>
    obtain ⟨n,v⟩ := q
    obtain ⟨hhead,htail⟩ := List.pairwise_cons.mp ha
    cases hc : compare name n with
    | lt =>
      simp only [ConstantLabels.insert, hc]
      refine List.pairwise_cons.mpr ⟨?_, ha⟩
      intro p hp
      rcases List.mem_cons.mp hp with rfl | hp
      · exact hc
      · exact Std.TransCmp.lt_trans hc (hhead p hp)
    | eq =>
      obtain rfl := Std.LawfulEqOrd.eq_of_compare hc
      simp only [ConstantLabels.insert, hc]
      exact List.pairwise_cons.mpr ⟨hhead, htail⟩
    | gt =>
      simp only [ConstantLabels.insert, hc]
      refine List.pairwise_cons.mpr ⟨?_, ih htail⟩
      intro p hp
      rcases mem_insert hp with rfl | hp
      · exact Std.OrientedCmp.gt_iff_lt.mp hc
      · exact hhead p hp

/-- Constant labels stand in name order, however they were given. -/
theorem ConstantLabels.ascending_ofList (pairs : List (String × String)) : (ofList pairs).Ascending := by
  suffices hgen : ∀ labels : ConstantLabels, labels.Ascending →
      Ascending (pairs.foldl (fun labels p => ConstantLabels.insert p.1 p.2 labels) labels) from
    hgen [] .nil
  induction pairs with
  | nil => exact fun labels ha => ha
  | cons p rest ih => exact fun labels ha => ih _ (ascending_insert p.1 p.2 ha)

namespace Description

theorem checkNames_eq_ok_iff {reserved names : List String} {kind : String} {seen : List String} :
    checkNames reserved kind seen names = .ok () ↔
      (∀ n ∈ names, Label.isName n = true ∧ n ∉ reserved ∧ n ∉ seen) ∧ names.Nodup := by
  induction names generalizing seen with
  | nil => simp [checkNames]
  | cons n rest ih =>
    simp only [checkNames, List.forall_mem_cons, List.nodup_cons]
    split
    next hvalid => simp_all
    next hvalid =>
      split
      next hres => simp_all
      next hres =>
        split
        next hseen => simp_all
        next hseen =>
          rw [ih]
          constructor
          · rintro ⟨hall,hd⟩
            refine ⟨⟨⟨by simpa using hvalid, by simpa using hres, by simpa using hseen⟩, ?_⟩, ?_, hd⟩
            · intro m hm
              obtain ⟨hm1,hm2,hm3⟩ := hall m hm
              exact ⟨hm1, hm2, fun hs => hm3 (List.mem_cons_of_mem _ hs)⟩
            · exact fun hm => (hall n hm).2.2 List.mem_cons_self
          · rintro ⟨⟨-,hall⟩,hn,hd⟩
            refine ⟨?_, hd⟩
            intro m hm
            obtain ⟨hm1,hm2,hm3⟩ := hall m hm
            refine ⟨hm1, hm2, ?_⟩
            intro hs
            rcases List.mem_cons.mp hs with rfl | hs
            · exact hn hm
            · exact hm3 hs

/-- What is promised of an accepted description. -/
structure Accepted (o : Options) (labels reserved : List String) (d : Description) : Prop where
  fullName : d.fullName = o.fullName
  name_valid : Metric.isName d.fullName = true
  help : d.help = o.help
  constLabels : d.constLabels = ⟨o.constLabels⟩
  variableLabels : d.variableLabels = labels
  valid : ∀ n ∈ o.constLabels.map Prod.fst ++ labels, Label.isName n = true ∧ n ∉ reserved
  distinct : (o.constLabels.map Prod.fst ++ labels).Nodup

/-- The label set of a series has every constant and every variable label once, each with its own value. -/
theorem Accepted.merged {o : Options} {labels reserved v : List String} {d : Description}
    (h : Accepted o labels reserved d) (hlen : v.length = labels.length) :
    let s := d.constLabels.merge d.variableLabels v
    s.size = o.constLabels.length + labels.length ∧ s.names = o.constLabels.map Prod.fst ++ labels ∧ s.names.Nodup ∧
      (∀ n ∈ s.names, Label.isName n = true ∧ n ∉ reserved) ∧
      ∀ name value, (name, value) ∈ s.pairs → s.get? name = some value := by
  intro s
  have hlen : v.length = d.variableLabels.length := by rw [hlen, h.variableLabels]
  have hsize : s.size = o.constLabels.length + labels.length := by
    rw [LabelSet.size_merge hlen, h.constLabels, h.variableLabels]
    rfl
  have hnames : s.names = o.constLabels.map Prod.fst ++ labels := by
    rw [LabelSet.names_merge hlen, h.constLabels, h.variableLabels]
    rfl
  have hdistinct : s.names.Nodup := hnames ▸ h.distinct
  exact ⟨hsize, hnames, hdistinct, hnames ▸ h.valid, fun _ _ => LabelSet.get?_of_mem hdistinct⟩

theorem ofOptions_of_name {o : Options} (hname : Metric.isName o.fullName = true) (labels reserved : List String)
    (kind : String) :
    ofOptions o labels reserved kind = (checkNames reserved kind [] (o.constLabels.map Prod.fst ++ labels)).bind fun _ =>
      (LabelSet.ofPairs o.constLabels).bind fun constLabels =>
        .ok { fullName := o.fullName, help := o.help, constLabels, variableLabels := labels } := by
  simp only [ofOptions, hname]
  rfl

theorem ofOptions_of_bad_name {o : Options} (hname : Metric.isName o.fullName = false) (labels reserved : List String)
    (kind : String) : ofOptions o labels reserved kind = .error (.invalidMetricName o.fullName) := by
  simp only [ofOptions, hname]
  rfl

theorem accepted {o : Options} {labels reserved : List String} {kind : String} {d : Description}
    (ho : ofOptions o labels reserved kind = .ok d) : Accepted o labels reserved d := by
  cases hname : Metric.isName o.fullName with
  | false =>
    rw [ofOptions_of_bad_name hname] at ho
    cases ho
  | true =>
    rw [ofOptions_of_name hname] at ho
    cases hnames : checkNames reserved kind [] (o.constLabels.map Prod.fst ++ labels) with
    | error e =>
      rw [hnames] at ho
      cases ho
    | ok u =>
      obtain ⟨hvalid,hd⟩ := checkNames_eq_ok_iff.mp hnames
      have hconst : ∀ p ∈ o.constLabels, Label.isName p.1 = true := fun p hp =>
        (hvalid p.1 (List.mem_append_left _ (List.mem_map_of_mem hp))).1
      rw [hnames, LabelSet.ofPairs_ok hconst hd.of_append_left] at ho
      cases ho
      exact {
        fullName := rfl
        name_valid := hname
        help := rfl
        constLabels := rfl
        variableLabels := rfl
        valid := fun n hn => ⟨(hvalid n hn).1, (hvalid n hn).2.1⟩
        distinct := hd }

end Description
end Metering
