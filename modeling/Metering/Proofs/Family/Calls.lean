import Metering.Proofs.Answers
import Metering.Proofs.Family.Live
import Metering.Scenario.Step
import Mathlib.Data.List.Basic

/-! # Calls on a family

A family is used by looking series up, by removing them, by collecting and by working on accumulators
through handles. What a call does to the live series and to the accumulators is said once for each.
-/
namespace Metering.Family
open Scenario (Refusal)

/-- A call; `fresh` is what a new series starts from. A strict look-up aborts where another one is
refused. Handles may be used long after their series has ended. -/
inductive Act (α ω : Type)
  | lookup (fresh : α) (values : List String) (strict : Bool)
  | remove (values : List String)
  | clear
  | collect (fresh : α)
  | use (handle : Nat) (change : α → α × ω)

inductive Answer (ω β : Type)
  | found (handle : Nat)
  | refused (r : Refusal)
  | removed (present : Bool)
  | cleared
  | collected (points : List (Point β))
  | used (answer : Option ω)

structure Outcome (ω β : Type) where
  answer : Answer ω β
  events : List Event := []

variable {α ω β : Type}

def call (take : α → α × β) (a : Act α ω) (f : Family α) : Family α × Outcome ω β :=
  match a with
  | .lookup fresh values strict =>
    match f.obtain fresh values with
    | .ok (g, handle, events) => (g, ⟨.found handle, events⟩)
    | .error e => (f, ⟨.refused (.ofError strict e), []⟩)
  | .remove values => ((f.remove values).1, ⟨.removed (f.remove values).2.1, (f.remove values).2.2⟩)
  | .clear => (f.clear.1, ⟨.cleared, f.clear.2⟩)
  | .collect fresh => ((f.collect fresh take).1, ⟨.collected (f.collect fresh take).2.1, (f.collect fresh take).2.2⟩)
  | .use handle change => ((f.update handle change).1, ⟨.used (f.update handle change).2, []⟩)

def start (fresh : α) (values : List String) (f : Family α) : Family α :=
  { f with made := f.made.push fresh, live := link values f.made.size f.live }

def drop (values : List String) (f : Family α) : Family α :=
  { f with live := f.live.filter (·.1 != values) }

def takeOne (take : α → α × β) (taken : Family α × List (Point β)) (p : LabelSet × Nat) :
    Family α × List (Point β) :=
  ((taken.1.update p.2 take).1, taken.2 ++ ((taken.1.update p.2 take).2.map fun s => ⟨p.1, s⟩).toList)

variable {f : Family α} {take : α → α × β} {fresh : α} {values v w : List String} {h : Nat}

theorem checkCardinality_ok (hlen : values.length = f.description.variableLabels.length) :
    f.checkCardinality values = .ok () := by
  simp [checkCardinality, hlen]

theorem checkCardinality_error (hlen : values.length ≠ f.description.variableLabels.length) :
    f.checkCardinality values = .error (.cardinality f.description.variableLabels.length values.length) := by
  simp [checkCardinality, hlen]

theorem obtain_refused (hlen : values.length ≠ f.description.variableLabels.length) (fresh : α) :
    f.obtain fresh values = .error (.cardinality f.description.variableLabels.length values.length) := by
  simp [obtain, checkCardinality_error hlen, Bind.bind, Except.bind]

theorem obtain_known (hlen : values.length = f.description.variableLabels.length)
    (hv : f.handle? values = some h) (fresh : α) : f.obtain fresh values = .ok (f, h, []) := by
  simp [obtain, checkCardinality_ok hlen, hv, Bind.bind, Except.bind, Pure.pure, Except.pure]

theorem obtain_new (hlen : values.length = f.description.variableLabels.length)
    (hv : f.handle? values = none) (fresh : α) :
    f.obtain fresh values = .ok (f.start fresh values, f.made.size, [.creating values]) := by
  simp [obtain, checkCardinality_ok hlen, hv, Bind.bind, Except.bind, Pure.pure, Except.pure, start]

theorem collect_eq (fresh : α) (take : α → α × β) (f : Family α) :
    f.collect fresh take =
      (((f.prepare fresh).1.points.foldl (takeOne take) ((f.prepare fresh).1, [])).1,
        ((f.prepare fresh).1.points.foldl (takeOne take) ((f.prepare fresh).1, [])).2, (f.prepare fresh).2) := by
  let pair (r : Family α × List (Point β)) := (r.1, r.2, (f.prepare fresh).2)
  change pair _ = pair _
  refine congrArg pair (List.foldl_ext _ _ _ ?_)
  rintro ⟨g,points⟩ ⟨labels,handle⟩ -
  simp only [takeOne]
  obtain ⟨g',_ | s⟩ := g.update handle take <;> simp

theorem prepare_new (hlabels : f.description.variableLabels = []) (hlive : f.live = []) (fresh : α) :
    f.prepare fresh = (f.start fresh [], [.creating []]) := by
  have hnew : f.handle? [] = none := by simp [handle?, hlive]
  simp [prepare, hlabels, hlive, obtain_new (by simp [hlabels]) hnew]

theorem prepare_known (h : f.description.variableLabels ≠ [] ∨ f.live ≠ []) (fresh : α) :
    f.prepare fresh = (f, []) := by
  rcases h with h | h <;> simp [prepare, h]

theorem remove_refused (hlen : values.length ≠ f.description.variableLabels.length) :
    f.remove values = (f, false, []) := by
  simp [remove, checkCardinality_error hlen]

theorem remove_known (hlen : values.length = f.description.variableLabels.length)
    (hv : f.handle? values = some h) : f.remove values = (f.drop values, true, [.removed values]) := by
  simp [remove, checkCardinality_ok hlen, isLive, hv, drop]

theorem remove_absent (hv : f.handle? values = none) : f.remove values = (f, false, []) := by
  by_cases hlen : values.length = f.description.variableLabels.length
  · simp [remove, checkCardinality_ok hlen, isLive, hv]
  · exact remove_refused hlen

/-- What every call keeps: live tuples ascend and have the right number of values, and each has an
accumulator of its own. -/
structure Sound (f : Family α) : Prop where
  ascending : Ascending f.live
  arity : ∀ p ∈ f.live, p.1.length = f.description.variableLabels.length
  made : ∀ p ∈ f.live, p.2 < f.made.size
  apart : (f.live.map Prod.snd).Nodup

theorem sound_new (d : Description) : Sound ({ description := d } : Family α) :=
  ⟨.nil, by simp, by simp, .nil⟩

theorem Sound.handle?_eq_some (hs : Sound f) : f.handle? v = some h ↔ (v, h) ∈ f.live :=
  lookup_eq_some_iff hs.ascending

theorem Sound.length_of_handle? (hs : Sound f) (hv : f.handle? v = some h) :
    v.length = f.description.variableLabels.length :=
  hs.arity (v, h) (hs.handle?_eq_some.mp hv)

/-- The tuples of the live series in order. -/
def tuples (f : Family α) : List (List String) :=
  f.live.map Prod.fst

theorem Sound.ascending_tuples (hs : Sound f) : f.tuples.Pairwise fun v w => compare v w = .lt :=
  List.pairwise_map.mpr hs.ascending

theorem Sound.mem_tuples (hs : Sound f) {v : List String} : v ∈ f.tuples ↔ ∃ h, f.handle? v = some h := by
  constructor
  · intro hm
    obtain ⟨p,hp,rfl⟩ := List.mem_map.mp hm
    exact ⟨p.2, hs.handle?_eq_some.mpr hp⟩
  · rintro ⟨h,hv⟩
    exact List.mem_map_of_mem (hs.handle?_eq_some.mp hv)

theorem Sound.length_of_mem (hs : Sound f) {v : List String} (hv : v ∈ f.tuples) :
    v.length = f.description.variableLabels.length := by
  obtain ⟨p,hp,rfl⟩ := List.mem_map.mp hv
  exact hs.arity p hp

theorem handle?_start (fresh : α) (values : List String) (f : Family α) (w : List String) :
    (f.start fresh values).handle? w = if w = values then some f.made.size else f.handle? w :=
  lookup_link values f.made.size f.live w

theorem Sound.start (hs : Sound f) (hlen : values.length = f.description.variableLabels.length)
    (hv : f.handle? values = none) (fresh : α) : Sound (f.start fresh values) where
  ascending := ascending_link hs.ascending hv
  arity := by
    intro p hp
    rcases mem_link.mp hp with rfl | hp
    · exact hlen
    · exact hs.arity p hp
  made := by
    intro p hp
    have hsize : (f.start fresh values).made.size = f.made.size + 1 := Array.size_push fresh
    rw [hsize]
    rcases mem_link.mp hp with rfl | hp
    · exact Nat.lt_succ_self _
    · exact Nat.lt_succ_of_lt (hs.made p hp)
  apart := by
    have hnew : f.made.size ∉ f.live.map Prod.snd := by
      intro hm
      obtain ⟨p,hp,heq⟩ := List.mem_map.mp hm
      exact absurd (hs.made p hp) (by omega)
    refine ((perm_link values f.made.size f.live).map Prod.snd).nodup_iff.mpr ?_
    exact List.nodup_cons.mpr ⟨hnew, hs.apart⟩

theorem update_of_lt (hh : h < f.made.size) (change : α → α × ω) :
    f.update h change = ({ f with made := f.made.set h (change f.made[h]).1 }, some (change f.made[h]).2) := by
  simp [update, hh]

theorem update_of_le (hh : f.made.size ≤ h) (change : α → α × ω) : f.update h change = (f, none) := by
  simp [update, Nat.not_lt.mpr hh]

def taken (take : α → α × β) (handles : List Nat) (made : Array α) : Array α :=
  made.mapIdx fun i a => if i ∈ handles then (take a).1 else a

/-- The point of a label set, where its handle leads anywhere. -/
def pointAt (take : α → α × β) (made : Array α) (p : LabelSet × Nat) : Option (Point β) :=
  made[p.2]?.map fun a => ⟨p.1, (take a).2⟩

theorem taken_set {made : Array α} {handles : List Nat} (hh : h < made.size) (hout : h ∉ handles) :
    taken take handles (made.set h (take made[h]).1) = taken take (h :: handles) made := by
  apply Array.ext
  · simp [taken]
  · intro i hi hi'
    by_cases hih : h = i
    · subst hih
      simp [taken, hout]
    · simp [taken, Array.getElem_set, hih, Ne.symm hih]

theorem taken_nil (take : α → α × β) (made : Array α) : taken take [] made = made := by
  apply Array.ext
  · simp [taken]
  · intro i hi hi'
    simp [taken]

/-- Snapshots through different handles do not get into each other's way. -/
theorem foldl_takeOne (take : α → α × β) {ps : List (LabelSet × Nat)} (hd : (ps.map Prod.snd).Nodup)
    (f : Family α) (hm : ∀ p ∈ ps, p.2 < f.made.size) (points : List (Point β)) :
    ps.foldl (takeOne take) (f, points) =
      ({ f with made := taken take (ps.map Prod.snd) f.made }, points ++ ps.filterMap (pointAt take f.made)) := by
  induction ps generalizing f points with
  | nil => simp [taken_nil]
  | cons p rest ih =>
    obtain ⟨hout,hrest⟩ := List.nodup_cons.mp hd
    obtain ⟨hp,hm⟩ := List.forall_mem_cons.mp hm
    have hone : takeOne take (f, points) p = ({ f with made := f.made.set p.2 (take f.made[p.2]).1 },
        points ++ [⟨p.1, (take f.made[p.2]).2⟩]) := by
      simp [takeOne, update_of_lt hp]
    have hpoints : rest.filterMap (pointAt take (f.made.set p.2 (take f.made[p.2]).1)) =
        rest.filterMap (pointAt take f.made) := by
      refine List.filterMap_congr ?_
      intro q hq
      have hne : p.2 ≠ q.2 := fun heq => hout (heq ▸ List.mem_map_of_mem hq)
      simp [pointAt, hne]
    rw [List.foldl_cons, hone, ih hrest _ (by simpa using hm)]
    simp [taken_set hp hout, hpoints, pointAt, hp]

theorem map_snd_points (f : Family α) : f.points.map Prod.snd = f.live.map Prod.snd := by
  simp [points]

theorem Sound.snapshots (hs : Sound f) (take : α → α × β) :
    f.points.foldl (takeOne take) (f, []) =
      ({ f with made := taken take (f.live.map Prod.snd) f.made }, f.points.filterMap (pointAt take f.made)) := by
  have hm : ∀ p ∈ f.points, p.2 < f.made.size := by
    intro p hp
    obtain ⟨q,hq,rfl⟩ := List.mem_map.mp hp
    exact hs.made q hq
  have hd : (f.points.map Prod.snd).Nodup := by
    rw [map_snd_points]
    exact hs.apart
  simpa [map_snd_points] using foldl_takeOne take hd f hm []

theorem Sound.withMade (hs : Sound f) {made : Array α} (hsize : made.size = f.made.size) :
    Sound { f with made } :=
  ⟨hs.ascending, hs.arity, fun p hp => hsize ▸ hs.made p hp, hs.apart⟩

theorem Sound.obtain (hs : Sound f) {g : Family α} {events : List Event}
    (hok : f.obtain fresh values = .ok (g, h, events)) : Sound g ∧ g.description = f.description := by
  by_cases hlen : values.length = f.description.variableLabels.length
  · cases hv : f.handle? values with
    | none =>
      rw [obtain_new hlen hv] at hok
      cases hok
      exact ⟨hs.start hlen hv fresh, rfl⟩
    | some k =>
      rw [obtain_known hlen hv] at hok
      cases hok
      exact ⟨hs, rfl⟩
  · rw [obtain_refused hlen] at hok
    cases hok

theorem Sound.prepare (hs : Sound f) (fresh : α) :
    Sound (f.prepare fresh).1 ∧ (f.prepare fresh).1.description = f.description := by
  by_cases hnone : f.description.variableLabels = [] ∧ f.live = []
  · obtain ⟨hlabels,hlive⟩ := hnone
    have hv : f.handle? [] = none := by simp [handle?, hlive]
    rw [prepare_new hlabels hlive]
    exact ⟨hs.start (by simp [hlabels]) hv fresh, rfl⟩
  · rw [prepare_known (not_and_or.mp hnone)]
    exact ⟨hs, rfl⟩

theorem Sound.call (hs : Sound f) (take : α → α × β) (a : Act α ω) :
    Sound (f.call take a).1 ∧ (f.call take a).1.description = f.description := by
  cases a with
  | lookup fresh values strict =>
    simp only [Family.call]
    cases ho : f.obtain fresh values with
    | error e => exact ⟨hs, rfl⟩
    | ok r => exact hs.obtain ho
  | remove values =>
    cases hv : f.handle? values with
    | some h =>
      simp only [Family.call, remove_known (hs.length_of_handle? hv) hv]
      refine ⟨⟨hs.ascending.filter _, ?_, ?_, ?_⟩, rfl⟩
      · exact fun p hp => hs.arity p (List.mem_of_mem_filter hp)
      · exact fun p hp => hs.made p (List.mem_of_mem_filter hp)
      · exact hs.apart.sublist (List.filter_sublist.map _)
    | none =>
      simp only [Family.call, remove_absent hv, and_true]
      exact hs
  | clear => exact ⟨⟨.nil, by simp [Family.call, clear], by simp [Family.call, clear], .nil⟩, rfl⟩
  | collect fresh =>
    obtain ⟨hp,hd⟩ := hs.prepare fresh
    simp only [Family.call, collect_eq, hp.snapshots]
    exact ⟨hp.withMade (by simp [taken]), hd⟩
  | use handle change =>
    simp only [Family.call]
    by_cases hh : handle < f.made.size
    · rw [update_of_lt hh]
      exact ⟨hs.withMade (by simp), rfl⟩
    · rw [update_of_le (Nat.not_lt.mp hh)]
      exact ⟨hs, rfl⟩

theorem Sound.after_run (hs : Sound f) (take : α → α × β) (acts : List (Act α ω)) :
    Sound (reached (Family.call take) acts f) ∧
      (reached (Family.call take) acts f).description = f.description := by
  induction acts generalizing f with
  | nil => exact ⟨hs, rfl⟩
  | cons a rest ih =>
    obtain ⟨hs',hd⟩ := hs.call take a
    obtain ⟨hrun,hd'⟩ := ih hs'
    exact ⟨hrun, hd'.trans hd⟩

theorem sound_run (take : α → α × β) (d : Description) (acts : List (Act α ω)) :
    Sound (reached (call take) acts { description := d }) ∧
      (reached (call take) acts ({ description := d } : Family α)).description = d :=
  (sound_new d).after_run take acts

end Metering.Family
