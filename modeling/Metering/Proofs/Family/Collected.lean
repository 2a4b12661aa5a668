import Metering.Proofs.Description
import Metering.Proofs.Family.Directory

/-! # Collected points

A collection reports one point for each live series, by ascending tuples. Under a description that was
accepted the label sets of the points have valid and distinct names and follow the order of the tuples,
so that no two points carry the same one.
-/
namespace Metering.Family
variable {α ω β : Type} {f : Family α} {take : α → α × β} {fresh : α}

theorem Sound.tuples_prepare (hs : Sound f) (hlabels : f.description.variableLabels = []) (fresh : α) :
    (f.prepare fresh).1.tuples = [[]] := by
  by_cases hlive : f.live = []
  · rw [prepare_new hlabels hlive]
    simp [tuples, Family.start, hlive, link]
  · rw [prepare_known (.inr hlive)]
    have hnil (v : List String) (hv : v ∈ f.tuples) : v = [] :=
      List.length_eq_zero_iff.mp ((hs.length_of_mem hv).trans (by simp [hlabels]))
    have hasc := hs.ascending_tuples
    cases ht : f.tuples with
    | nil => exact absurd (List.map_eq_nil_iff.mp ht) hlive
    | cons v rest =>
      rw [ht] at hnil hasc
      cases rest with
      | nil => rw [hnil v List.mem_cons_self]
      | cons w rest =>
        have hlt := (List.pairwise_cons.mp hasc).1 w List.mem_cons_self
        rw [hnil v List.mem_cons_self, hnil w (List.mem_cons_of_mem v List.mem_cons_self)] at hlt
        cases hlt

theorem Sound.map_labels_points (hs : Sound f) (take : α → α × β) :
    (f.points.filterMap (pointAt take f.made)).map Point.labels =
      f.tuples.map (f.description.constLabels.merge f.description.variableLabels) := by
  have hlabels : ∀ p ∈ f.points, (pointAt take f.made p).map Point.labels = some p.1 := by
    intro p hp
    obtain ⟨q,hq,rfl⟩ := List.mem_map.mp hp
    simp [pointAt, hs.made q hq]
  rw [List.map_filterMap, List.filterMap_eq_map_iff_forall_eq_some.mpr hlabels]
  simp [points, tuples]

theorem Sound.call_collect (hs : Sound f) (take : α → α × β) (fresh : α) :
    (f.call take (.collect fresh : Act α ω)).2.answer =
      .collected ((f.prepare fresh).1.points.filterMap (pointAt take (f.prepare fresh).1.made)) := by
  simp only [Family.call, collect_eq, (hs.prepare fresh).1.snapshots]

/-- What a collection reports after any run of a family with an accepted description. -/
theorem collected_labels (take : α → α × β) (o : Options) (given : List (String × String))
    {labels reserved : List String} {kind : String} {d : Description}
    (hd : Description.ofOptions { o with constLabels := .ofList given } labels reserved kind = .ok d)
    (calls : List (Act α ω)) (fresh : α) :
    let f := reached (call take) calls { description := d }
    let constant := ConstantLabels.ofList given
    ∃ tuples points, (f.call take (.collect fresh : Act α ω)).2.answer = .collected points ∧
      (labels ≠ [] → (∀ v, v ∈ tuples ↔ ∃ h, f.handle? v = some h) ∧
        points.map some = tuples.map (f.directory.point? d take)) ∧
      (labels = [] → tuples = [[]]) ∧
      tuples.Pairwise (fun v w => compare v w = .lt) ∧ (∀ v ∈ tuples, v.length = labels.length) ∧
      constant.Ascending ∧
      points.map Point.labels = tuples.map (fun v => ⟨constant ++ labels.zip v⟩) ∧
      (points.map Point.labels).Pairwise (fun s t => compare s t = .lt) ∧ (points.map Point.labels).Nodup ∧
      ∀ p ∈ points, p.labels.size = constant.length + labels.length ∧
        p.labels.names = constant.map Prod.fst ++ labels ∧ p.labels.names.Nodup ∧
        (∀ name ∈ p.labels.names, Label.isName name = true ∧ name ∉ reserved) ∧
        ∀ name value, (name, value) ∈ p.labels.pairs → p.labels.get? name = some value := by
  intro f constant
  have hacc := Description.accepted hd
  obtain ⟨hs,hdesc⟩ := sound_run take d calls
  obtain ⟨hp,hdesc'⟩ := hs.prepare fresh
  have hpoints := hp.map_labels_points take
  rw [hdesc'.trans hdesc] at hpoints
  have harity (v : List String) (hv : v ∈ (f.prepare fresh).1.tuples) : v.length = d.variableLabels.length := by
    rw [hp.length_of_mem hv, hdesc'.trans hdesc]
  have hlength (v : List String) (hv : v ∈ (f.prepare fresh).1.tuples) : v.length = labels.length := by
    rw [harity v hv, hacc.variableLabels]
  have hascending := LabelSet.ascending_merge (s := d.constLabels) harity hp.ascending_tuples
  rw [← hpoints] at hascending
  refine ⟨(f.prepare fresh).1.tuples, _, hs.call_collect take fresh, ?_, ?_, hp.ascending_tuples, hlength,
    ConstantLabels.ascending_ofList given, ?_, hascending, LabelSet.nodup_of_ascending hascending, ?_⟩
  · intro hlabels
    have hopen : f.description.variableLabels ≠ [] := by rwa [hdesc, hacc.variableLabels]
    have hpoint := hs.map_some_points take
    rw [hdesc] at hpoint
    rw [prepare_known (.inl hopen)]
    exact ⟨fun v => hs.mem_tuples, hpoint⟩
  · intro hlabels
    refine hs.tuples_prepare ?_ fresh
    rw [hdesc, hacc.variableLabels, hlabels]
  · rw [hpoints, hacc.constLabels, hacc.variableLabels]
    rfl
  · intro p hm
    have hp := List.mem_map_of_mem (f := Point.labels) hm
    rw [hpoints] at hp
    obtain ⟨v,hv,heq⟩ := List.mem_map.mp hp
    rw [← heq]
    exact hacc.merged (hlength v hv)

def tallyOptions : Options :=
  { name := "tally", constLabels := .ofList [("zone", "b"), ("env", "prod"), ("zone", "a")] }

def tallyDescription : Description :=
  { fullName := "tally", help := "", constLabels := ⟨[("env", "prod"), ("zone", "a")]⟩, variableLabels := ["method"] }

theorem ofOptions_tally : Description.ofOptions tallyOptions ["method"] ["le"] "histogram" = .ok tallyDescription := rfl

def tallyFamily : Family Nat :=
  reached (call fun n => (n, n)) [(.lookup 7 ["PUT"] false : Act Nat Unit), .lookup 8 ["GET"] false]
    { description := tallyDescription }

def tallyPoints : List (Point Nat) :=
  [⟨⟨[("env", "prod"), ("zone", "a"), ("method", "GET")]⟩, 8⟩,
    ⟨⟨[("env", "prod"), ("zone", "a"), ("method", "PUT")]⟩, 7⟩]

theorem collected_labels_tally :
    (tallyFamily.call (fun n => (n, n)) (.collect 0 : Act Nat Unit)).2.answer = .collected tallyPoints ∧
      (tallyPoints.map Point.labels).Pairwise (fun s t => compare s t = .lt) ∧
      (tallyPoints.map Point.labels).Nodup ∧
      ∀ p ∈ tallyPoints, p.labels.size = 3 ∧
        ∀ name value, (name, value) ∈ p.labels.pairs → p.labels.get? name = some value := by
  obtain ⟨tuples,points,hanswer,-,-,-,-,-,-,hascending,hdistinct,hpoints⟩ :=
    collected_labels (fun n : Nat => (n, n)) tallyOptions [("zone", "b"), ("env", "prod"), ("zone", "a")]
      ofOptions_tally [(.lookup 7 ["PUT"] false : Act Nat Unit), .lookup 8 ["GET"] false] 0
  have htally : (tallyFamily.call (fun n => (n, n)) (.collect 0 : Act Nat Unit)).2.answer = .collected tallyPoints := rfl
  obtain rfl : tallyPoints = points := Answer.collected.inj (htally.symm.trans hanswer)
  refine ⟨htally, hascending, hdistinct, ?_⟩
  intro p hp
  obtain ⟨hsize,-,-,-,hget⟩ := hpoints p hp
  exact ⟨hsize, hget⟩

end Metering.Family
