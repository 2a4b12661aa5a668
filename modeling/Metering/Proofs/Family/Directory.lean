import Metering.Proofs.Family.Calls

/-! # A family as a finite map

A directory says which accumulator each tuple of label values reaches, tuples being compared value
by value. What each call does to the directory of a family is a step of a finite map from tuples to
accumulators. An accumulator that no tuple reaches any more is never reached again.
-/
namespace Metering.Family
open Scenario (Refusal)
variable {α ω β : Type}

structure Directory (α : Type) where
  reach : List String → Option Nat
  made : Array α

def directory (f : Family α) : Directory α where
  reach v := f.handle? v
  made := f.made

namespace Directory

def start (fresh : α) (v : List String) (m : Directory α) : Directory α where
  reach w := if w = v then some m.made.size else m.reach w
  made := m.made.push fresh

def drop (v : List String) (m : Directory α) : Directory α :=
  { m with reach := fun w => if w = v then none else m.reach w }

def point? (d : Description) (take : α → α × β) (m : Directory α) (v : List String) : Option (Point β) :=
  (m.reach v).bind fun h => m.made[h]?.map fun a => ⟨d.constLabels.merge d.variableLabels v, (take a).2⟩

/-- A collection: one point for each live tuple, by ascending tuples, and no accumulator changed but
the live ones, each by taking its snapshot. -/
structure Collected (d : Description) (take : α → α × β) (m n : Directory α) (points : List (Point β)) : Prop where
  reach : n.reach = m.reach
  size : n.made.size = m.made.size
  live : ∀ v h a, m.reach v = some h → m.made[h]? = some a → n.made[h]? = some (take a).1
  rest : ∀ h, (∀ v, m.reach v ≠ some h) → n.made[h]? = m.made[h]?
  listed : ∃ tuples : List (List String), tuples.Pairwise (fun v w => compare v w = .lt) ∧
    (∀ v, v ∈ tuples ↔ ∃ h, m.reach v = some h) ∧ points.map some = tuples.map (m.point? d take)

/-- What a finite map from tuples to accumulators does on each call. -/
inductive Step (d : Description) (take : α → α × β) (m : Directory α) :
    Act α ω → Directory α → Outcome ω β → Prop
  | known {fresh : α} {v : List String} {strict : Bool} {h : Nat} (hlen : v.length = d.variableLabels.length)
      (hv : m.reach v = some h) : Step d take m (.lookup fresh v strict) m ⟨.found h, []⟩
  | started {fresh : α} {v : List String} {strict : Bool} (hlen : v.length = d.variableLabels.length)
      (hv : m.reach v = none) :
      Step d take m (.lookup fresh v strict) (m.start fresh v) ⟨.found m.made.size, [.creating v]⟩
  | refused {fresh : α} {v : List String} {strict : Bool} (hlen : v.length ≠ d.variableLabels.length) :
      Step d take m (.lookup fresh v strict) m
        ⟨.refused (.ofError strict (.cardinality d.variableLabels.length v.length)), []⟩
  | removed {v : List String} {h : Nat} (hv : m.reach v = some h) :
      Step d take m (.remove v) (m.drop v) ⟨.removed true, [.removed v]⟩
  | absent {v : List String} (hv : m.reach v = none) : Step d take m (.remove v) m ⟨.removed false, []⟩
  | cleared : Step d take m .clear { m with reach := fun _ => none } ⟨.cleared, [.cleared]⟩
  | collected {fresh : α} {n : Directory α} {points : List (Point β)}
      (hopen : d.variableLabels ≠ [] ∨ ∃ v h, m.reach v = some h) (hc : Collected d take m n points) :
      Step d take m (.collect fresh) n ⟨.collected points, []⟩
  | begun {fresh : α} {n : Directory α} {points : List (Point β)} (hlabels : d.variableLabels = [])
      (hnone : ∀ v, m.reach v = none) (hc : Collected d take (m.start fresh []) n points) :
      Step d take m (.collect fresh) n ⟨.collected points, [.creating []]⟩
  | used {h : Nat} {change : α → α × ω} (hh : h < m.made.size) :
      Step d take m (.use h change) { m with made := m.made.set h (change m.made[h]).1 }
        ⟨.used (some (change m.made[h]).2), []⟩
  | unused {h : Nat} {change : α → α × ω} (hh : m.made.size ≤ h) : Step d take m (.use h change) m ⟨.used none, []⟩

end Directory

variable {f : Family α} {take : α → α × β} {fresh : α} {v w : List String} {h : Nat}

theorem directory_start (fresh : α) (v : List String) (f : Family α) :
    (f.start fresh v).directory = f.directory.start fresh v := by
  simp only [directory, Directory.start, Directory.mk.injEq]
  exact ⟨funext fun w => handle?_start fresh v f w, rfl⟩

theorem directory_drop (v : List String) (f : Family α) : (f.drop v).directory = f.directory.drop v := by
  simp only [directory, drop, Directory.drop, Directory.mk.injEq, and_true]
  exact funext fun w => lookup_filter_ne v f.live w

theorem map_some_filterMap {γ δ : Type} {g : γ → Option δ} {l : List γ} (hg : ∀ x ∈ l, (g x).isSome) :
    (l.filterMap g).map some = l.map g := by
  induction l with
  | nil => rfl
  | cons x rest ih =>
    obtain ⟨hx,hrest⟩ := List.forall_mem_cons.mp hg
    obtain ⟨y,hy⟩ := Option.isSome_iff_exists.mp hx
    simp [hy, ih hrest]

theorem Sound.map_some_points (hs : Sound f) (take : α → α × β) :
    (f.points.filterMap (pointAt take f.made)).map some =
      f.tuples.map (f.directory.point? f.description take) := by
  have hsome : ∀ p ∈ f.points, (pointAt take f.made p).isSome := by
    intro p hp
    obtain ⟨q,hq,rfl⟩ := List.mem_map.mp hp
    simpa [pointAt] using hs.made q hq
  rw [map_some_filterMap hsome, points, tuples, List.map_map, List.map_map]
  refine List.map_congr_left ?_
  intro p hp
  have hv : f.handle? p.1 = some p.2 := hs.handle?_eq_some.mpr hp
  simp [Directory.point?, hv, pointAt, directory]

theorem Sound.collected (hs : Sound f) (take : α → α × β) :
    Directory.Collected f.description take f.directory
      (f.points.foldl (takeOne take) (f, [])).1.directory (f.points.foldl (takeOne take) (f, [])).2 := by
  rw [hs.snapshots]
  exact {
    reach := rfl
    size := by simp [directory, taken]
    live := by
      intro v h a hv ha
      have hm : h ∈ f.live.map Prod.snd := List.mem_map_of_mem (hs.handle?_eq_some.mp hv)
      change f.made[h]? = some a at ha
      simp [directory, taken, ha, hm]
    rest := by
      intro h hout
      have hm : h ∉ f.live.map Prod.snd := by
        intro hm
        obtain ⟨p,hp,rfl⟩ := List.mem_map.mp hm
        exact hout p.1 (hs.handle?_eq_some.mpr hp)
      simp [directory, taken, hm]
    listed := ⟨f.tuples, hs.ascending_tuples, fun v => hs.mem_tuples, hs.map_some_points take⟩ }

theorem Sound.step (hs : Sound f) (take : α → α × β) (a : Act α ω) :
    Directory.Step f.description take f.directory a (f.call take a).1.directory (f.call take a).2 := by
  cases a with
  | lookup fresh v strict =>
    by_cases hlen : v.length = f.description.variableLabels.length
    · cases hv : f.handle? v with
      | none =>
        simp only [Family.call, obtain_new hlen hv, directory_start]
        exact .started hlen hv
      | some h =>
        simp only [Family.call, obtain_known hlen hv]
        exact .known hlen hv
    · simp only [Family.call, obtain_refused hlen]
      exact .refused hlen
  | remove v =>
    cases hv : f.handle? v with
    | none =>
      simp only [Family.call, remove_absent hv]
      exact .absent hv
    | some h =>
      simp only [Family.call, remove_known (hs.length_of_handle? hv) hv, directory_drop]
      exact .removed hv
  | clear => exact .cleared
  | collect fresh =>
    by_cases hnone : f.description.variableLabels = [] ∧ f.live = []
    · obtain ⟨hlabels,hlive⟩ := hnone
      have hv : f.handle? [] = none := by simp [handle?, hlive]
      have hc := (hs.start (by simp [hlabels]) hv fresh).collected take
      rw [directory_start] at hc
      simp only [Family.call, collect_eq, prepare_new hlabels hlive]
      refine .begun hlabels ?_ hc
      intro v
      simp [directory, handle?, hlive]
    · simp only [Family.call, collect_eq, prepare_known (not_and_or.mp hnone)]
      refine .collected ?_ (hs.collected take)
      rcases not_and_or.mp hnone with hlabels | hlive
      · exact .inl hlabels
      · obtain ⟨p,hp⟩ := List.exists_mem_of_ne_nil _ hlive
        exact .inr ⟨p.1, p.2, hs.handle?_eq_some.mpr hp⟩
  | use h change =>
    by_cases hh : h < f.made.size
    · simp only [Family.call, update_of_lt hh]
      exact .used hh
    · simp only [Family.call, update_of_le (Nat.not_lt.mp hh)]
      exact .unused (Nat.not_lt.mp hh)

def Act.ends (v : List String) : Act α ω → Bool
  | .remove w => w = v
  | .clear => true
  | _ => false

def Act.opens (v : List String) : Act α ω → Bool
  | .lookup _ w _ => w = v
  | .collect _ => v = []
  | _ => false

namespace Directory
variable {d : Description} {m n : Directory α} {a : Act α ω} {o : Outcome ω β}

theorem Step.size_le (hstep : Step d take m a n o) : m.made.size ≤ n.made.size := by
  cases hstep with
  | started => simp [start]
  | collected _ hc => exact Nat.le_of_eq hc.size.symm
  | begun _ _ hc => simp [hc.size, start]
  | used => simp
  | _ => exact Nat.le_refl _

/-- An accumulator is reached by a tuple only from the call on that made it. -/
theorem Step.reach_old (hstep : Step d take m a n o) (hh : h < m.made.size) (hv : n.reach v = some h) :
    m.reach v = some h := by
  have hstart (fresh : α) (w : List String) (hv : (m.start fresh w).reach v = some h) : m.reach v = some h := by
    simp only [start] at hv
    split at hv
    · cases hv
      exact absurd hh (Nat.lt_irrefl _)
    · exact hv
  cases hstep with
  | started => exact hstart _ _ hv
  | removed =>
    simp only [drop] at hv
    split at hv
    · cases hv
    · exact hv
  | cleared => cases hv
  | collected _ hc => exact hc.reach ▸ hv
  | begun _ _ hc => exact hstart _ _ (hc.reach ▸ hv)
  | _ => exact hv

theorem Step.reach_keep (hstep : Step d take m a n o) (hends : a.ends v = false) (hv : m.reach v = some h) :
    n.reach v = some h := by
  cases hstep with
  | @started _ w _ _ hw =>
    have hne : v ≠ w := by
      rintro rfl
      simp [hw] at hv
    simp [start, hne, hv]
  | @removed w _ _ =>
    have hne : v ≠ w := by
      rintro rfl
      simp [Act.ends] at hends
    simp [drop, hne, hv]
  | cleared => simp [Act.ends] at hends
  | collected _ hc => exact hc.reach ▸ hv
  | begun _ hnone _ => simp [hnone] at hv
  | _ => exact hv

theorem Step.reach_ended (hstep : Step d take m a n o) (hends : a.ends v = true) : n.reach v = none := by
  cases hstep with
  | @removed w _ _ =>
    simp [Act.ends] at hends
    simp [drop, hends]
  | @absent w hw =>
    simp [Act.ends] at hends
    rw [← hends, hw]
  | cleared => rfl
  | _ => simp [Act.ends] at hends

/-- A series that is not live is started by a look-up, or by a collection where there are no labels. -/
theorem Step.reach_none (hstep : Step d take m a n o) (hopens : a.opens v = false) (hv : m.reach v = none) :
    n.reach v = none := by
  cases hstep with
  | @started _ w _ _ _ =>
    have hne : v ≠ w := by
      rintro rfl
      simp [Act.opens] at hopens
    simp [start, hne, hv]
  | removed => simp [drop, hv]
  | cleared => rfl
  | collected _ hc => exact hc.reach ▸ hv
  | begun _ _ hc =>
    have hne : v ≠ [] := by simpa [Act.opens] using hopens
    simp [hc.reach, start, hne, hv]
  | _ => exact hv

end Directory
end Metering.Family
