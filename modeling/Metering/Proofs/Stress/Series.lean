import Metering.Proofs.Family.Collected
import Mathlib

/-! # Series by number

A family with one label that has a series for each of some numbers and no other series, and whose
accumulators are as they should be for their numbers. Opening, changing and collecting series keep it so.
-/
namespace Metering.Family
variable {α β : Type}

/-- The series under the texts of numbers. -/
structure Stocked (d : Description) (opened : Nat → Prop) (holds : Nat → α → Prop) (f : Family α) : Prop where
  sound : Sound f
  described : f.description = d
  tuples : ∀ v, v ∈ f.tuples ↔ ∃ w, opened w ∧ v = [toString w]
  holds : ∀ w h a, f.handle? [toString w] = some h → f.made[h]? = some a → holds w a

variable {d : Description} {opened : Nat → Prop} {holds holds' : Nat → α → Prop} {f : Family α} {fresh : α} {w : Nat}

theorem toString_inj {u w : Nat} (h : [toString u] = [toString w]) : u = w :=
  Nat.repr_inj.mp (List.cons.inj h).1

theorem stocked_new (d : Description) (holds : Nat → α → Prop) :
    Stocked d (fun _ => False) holds ({ description := d } : Family α) :=
  ⟨sound_new d, rfl, by simp [Family.tuples], by simp [handle?]⟩

namespace Stocked

theorem congr {opened' : Nat → Prop} (hs : Stocked d opened holds f) (ho : ∀ u, opened u ↔ opened' u)
    (hh : ∀ u a, holds u a → holds' u a) : Stocked d opened' holds' f :=
  ⟨hs.sound, hs.described, fun v => by simp only [hs.tuples, ho], fun u h a hu ha => hh u a (hs.holds u h a hu ha)⟩

theorem handle?_of_opened (hs : Stocked d opened holds f) (hw : opened w) :
    ∃ h, f.handle? [toString w] = some h ∧ h < f.made.size := by
  obtain ⟨h,hh⟩ := hs.sound.mem_tuples.mp ((hs.tuples _).mpr ⟨w, hw, rfl⟩)
  exact ⟨h, hh, hs.sound.made _ (hs.sound.handle?_eq_some.mp hh)⟩

theorem exists_opened {v : List String} : (∃ u, (opened u ∨ u = w) ∧ v = [toString u]) ↔
    (∃ u, opened u ∧ v = [toString u]) ∨ v = [toString w] := by
  simp [or_and_right, exists_or]

theorem opened_of_handle? (hs : Stocked d opened holds f) {h : Nat} (hh : f.handle? [toString w] = some h) : opened w := by
  obtain ⟨u,hu,heq⟩ := (hs.tuples _).mp (hs.sound.mem_tuples.mpr ⟨h, hh⟩)
  exact toString_inj heq ▸ hu

theorem start (hs : Stocked d opened holds f) (hlen : [toString w].length = f.description.variableLabels.length)
    (hv : f.handle? [toString w] = none) (hfresh : holds w fresh) :
    Stocked d (fun u => opened u ∨ u = w) holds (f.start fresh [toString w]) := by
  have hsound := hs.sound.start hlen hv fresh
  refine ⟨hsound, hs.described, fun v => ?_, ?_⟩
  · rw [exists_opened, ← hs.tuples, hsound.mem_tuples, hs.sound.mem_tuples]
    by_cases hvw : v = [toString w] <;> simp only [handle?_start, hvw, ↓reduceIte, or_false, or_true, Option.some.injEq, exists_eq']
  · intro u h a hh ha
    rw [handle?_start] at hh
    change (f.made.push fresh)[h]? = some a at ha
    split at hh
    · next heq =>
      obtain rfl := toString_inj heq
      cases hh
      rw [Array.getElem?_push_size] at ha
      cases ha
      exact hfresh
    · have hlt := hs.sound.made _ (hs.sound.handle?_eq_some.mp hh)
      rw [Array.getElem?_push, if_neg (Nat.ne_of_lt hlt)] at ha
      exact hs.holds u h a hh ha

/-- Opening a series starts it from `fresh` unless it is there. -/
theorem obtain (hs : Stocked d opened holds f) (hd : d.variableLabels.length = 1) (hnew : ¬ opened w → holds w fresh) :
    ∃ g h events, f.obtain fresh [toString w] = .ok (g, h, events) ∧
      Stocked d (fun u => opened u ∨ u = w) holds g := by
  have hlen : [toString w].length = f.description.variableLabels.length := by rw [hs.described, hd]; rfl
  cases hv : f.handle? [toString w] with
  | some h =>
    have hw := hs.opened_of_handle? hv
    refine ⟨f, h, [], obtain_known hlen hv fresh, hs.congr (fun u => ⟨.inl, ?_⟩) fun _ _ ha => ha⟩
    rintro (hu | rfl)
    · exact hu
    · exact hw
  | none =>
    have hclosed : ¬ opened w := by
      intro hw
      obtain ⟨h,hh,_⟩ := hs.handle?_of_opened hw
      rw [hv] at hh
      cases hh
    exact ⟨_, _, _, obtain_new hlen hv fresh, hs.start hlen hv (hnew hclosed)⟩

theorem handle_inj (hs : Stocked d opened holds f) {u h : Nat} (hu : f.handle? [toString u] = some h)
    (hw : f.handle? [toString w] = some h) : u = w := by
  have hinj := List.inj_on_of_nodup_map hs.sound.apart (hs.sound.handle?_eq_some.mp hu) (hs.sound.handle?_eq_some.mp hw) rfl
  exact toString_inj (Prod.mk.inj hinj).1

theorem update (hs : Stocked d opened holds f) (hw : opened w) (change : α → α × β)
    (hchange : ∀ a, holds w a → holds' w (change a).1) (hkeep : ∀ u a, u ≠ w → holds u a → holds' u a) :
    ∃ h, f.handle? [toString w] = some h ∧ Stocked d opened holds' (f.update h change).1 := by
  obtain ⟨h,hh,hlt⟩ := hs.handle?_of_opened hw
  refine ⟨h, hh, ?_⟩
  rw [update_of_lt hlt]
  refine ⟨hs.sound.withMade (by simp), hs.described, hs.tuples, ?_⟩
  intro u k a hk ha
  change f.handle? [toString u] = some k at hk
  change (f.made.set h (change f.made[h]).1)[k]? = some a at ha
  by_cases huw : u = w
  · subst huw
    rw [hh] at hk
    cases hk
    rw [Array.getElem?_set_self] at ha
    cases ha
    exact hchange _ (hs.holds u h _ hh (Array.getElem?_eq_getElem hlt))
  · have hne : h ≠ k := by
      rintro rfl
      exact huw (hs.handle_inj hk hh)
    rw [Array.getElem?_set_ne hlt hne] at ha
    exact hkeep u a huw (hs.holds u k a hk ha)

/-- Collecting leaves the series, and reports one point for each of them. -/
theorem collect (hs : Stocked d opened holds f) (hd : d.variableLabels.length = 1) (fresh : α) (take : α → α × β)
    (hkeep : ∀ u a, holds u a → holds u (take a).1) :
    Stocked d opened holds (f.collect fresh take).1 ∧
      (f.collect fresh take).2.1.map Point.labels = f.tuples.map (d.constLabels.merge d.variableLabels) ∧
      ∀ p ∈ (f.collect fresh take).2.1, ∃ u a, opened u ∧ holds u a ∧ p.snapshot = (take a).2 := by
  have hopen : f.description.variableLabels ≠ [] := by
    intro hnil
    rw [hs.described] at hnil
    rw [hnil] at hd
    cases hd
  rw [collect_eq, prepare_known (.inl hopen), hs.sound.snapshots take]
  refine ⟨⟨hs.sound.withMade (by simp [taken]), hs.described, hs.tuples, ?_⟩, ?_, ?_⟩
  · intro u h a hh ha
    change f.handle? [toString u] = some h at hh
    change (taken take (f.live.map Prod.snd) f.made)[h]? = some a at ha
    have hmem : h ∈ f.live.map Prod.snd := List.mem_map_of_mem (hs.sound.handle?_eq_some.mp hh)
    have hlt := hs.sound.made _ (hs.sound.handle?_eq_some.mp hh)
    simp only [taken, Array.getElem?_mapIdx, Array.getElem?_eq_getElem hlt, Option.map_some, hmem, ↓reduceIte,
      Option.some.injEq] at ha
    rw [← ha]
    exact hkeep u _ (hs.holds u h _ hh (Array.getElem?_eq_getElem hlt))
  · have hlabels := hs.sound.map_labels_points take
    rwa [hs.described] at hlabels
  · intro p hp
    obtain ⟨⟨labels,h⟩,hm,hpoint⟩ := List.mem_filterMap.mp hp
    obtain ⟨⟨v,k⟩,hlive,heq⟩ := List.mem_map.mp hm
    cases heq
    obtain ⟨u,hu,hv⟩ := (hs.tuples v).mp (List.mem_map_of_mem (f := Prod.fst) hlive)
    rw [pointAt, Array.getElem?_eq_getElem (hs.sound.made _ hlive)] at hpoint
    cases hpoint
    have hh : f.handle? [toString u] = some h := hs.sound.handle?_eq_some.mpr (hv ▸ hlive)
    exact ⟨u, _, hu, hs.holds u h _ hh (Array.getElem?_eq_getElem (hs.sound.made _ hlive)), rfl⟩

theorem perm_tuples {n : Nat} (hs : Stocked d (· < n) holds f) :
    f.tuples.Perm ((List.range n).map fun u => [toString u]) := by
  have hnodup : f.tuples.Nodup := hs.sound.ascending_tuples.imp fun hlt => ne_of_lt hlt
  have hrange : ((List.range n).map fun u => [toString u]).Nodup :=
    List.nodup_range.map fun _ _ h => toString_inj h
  refine (List.perm_ext_iff_of_nodup hnodup hrange).mpr fun v => ?_
  rw [hs.tuples, List.mem_map]
  constructor
  · rintro ⟨u,hu,rfl⟩
    exact ⟨u, List.mem_range.mpr hu, rfl⟩
  · rintro ⟨u,hu,rfl⟩
    exact ⟨u, List.mem_range.mp hu, rfl⟩

end Stocked
end Metering.Family
