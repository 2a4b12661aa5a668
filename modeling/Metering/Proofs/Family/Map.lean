import Metering.Proofs.Family.Handles
import Mathlib.Data.List.Nodup

/-! # What a family promises its callers

Over every run of calls a family is a finite map from tuples to accumulators. A tuple keeps its
accumulator while its series lives, accumulators do not get into each other's way, a series that has
ended never comes back, and a call with the wrong number of values changes nothing.
-/
namespace Metering.Family
open Scenario (Refusal)
variable {α ω β : Type} {f g : Family α} {take : α → α × β} {fresh : α} {v w : List String} {strict : Bool}
  {h : Nat} {a : Act α ω}

/-- What a collection reports of a tuple. -/
def snapshot? (take : α → α × β) (v : List String) (f : Family α) : Option β :=
  (f.handle? v).bind fun h => f.made[h]?.map fun a => (take a).2

theorem Sound.lt_size (hs : Sound f) (hv : f.handle? v = some h) : h < f.made.size :=
  hs.made _ (hs.handle?_eq_some.mp hv)

theorem Sound.handle_inj (hs : Sound f) (hv : f.handle? v = some h) (hw : f.handle? w = some h) : w = v :=
  congrArg Prod.fst (List.inj_on_of_nodup_map hs.apart (hs.handle?_eq_some.mp hw) (hs.handle?_eq_some.mp hv) rfl)

theorem call_lookup_of_known (hlen : v.length = f.description.variableLabels.length) (hv : f.handle? v = some h) :
    f.call take (.lookup fresh v strict : Act α ω) = (f, ⟨.found h, []⟩) := by
  simp [Family.call, obtain_known hlen hv]

theorem call_lookup_of_new (hlen : v.length = f.description.variableLabels.length) (hv : f.handle? v = none) :
    f.call take (.lookup fresh v strict : Act α ω) = (f.start fresh v, ⟨.found f.made.size, [.creating v]⟩) := by
  simp [Family.call, obtain_new hlen hv]

theorem call_lookup_of_length (hlen : v.length ≠ f.description.variableLabels.length) :
    f.call take (.lookup fresh v strict : Act α ω) =
      (f, ⟨.refused (.ofError strict (.cardinality f.description.variableLabels.length v.length)), []⟩) := by
  simp [Family.call, obtain_refused hlen]

theorem handle?_of_found (hfound : (f.call take (.lookup fresh v strict : Act α ω)).2.answer = .found h) :
    v.length = f.description.variableLabels.length ∧
      (f.call take (.lookup fresh v strict : Act α ω)).1.handle? v = some h := by
  by_cases hlen : v.length = f.description.variableLabels.length
  · cases hv : f.handle? v with
    | none =>
      rw [call_lookup_of_new hlen hv] at hfound ⊢
      cases hfound
      exact ⟨hlen, by simp [handle?_start]⟩
    | some k =>
      rw [call_lookup_of_known hlen hv] at hfound ⊢
      cases hfound
      exact ⟨hlen, hv⟩
  · rw [call_lookup_of_length hlen] at hfound
    cases hfound

/-- Work on one accumulator leaves alone what is reported of tuples that do not reach it. -/
theorem snapshot?_use (change : α → α × ω) (hw : f.handle? w ≠ some h) :
    (f.call take (.use h change)).1.snapshot? take w = f.snapshot? take w := by
  by_cases hh : h < f.made.size
  · simp only [Family.call, update_of_lt hh, snapshot?]
    change (f.handle? w).bind _ = _
    cases hk : f.handle? w with
    | none => rfl
    | some k =>
      have hne : h ≠ k := by
        rintro rfl
        exact hw hk
      simp [hne]
  · simp only [Family.call, update_of_le (Nat.not_lt.mp hh)]

/-- Once a call has ended its series, an accumulator can be reached no more. -/
theorem Sound.dead_of_ends (hs : Sound f) (hv : f.handle? v = some h) (hends : a.ends v = true) :
    SameBut h (f.call take a).1 (f.call take a).1 := by
  have hstep := hs.step take a
  have hsound := (hs.call take a).1
  refine .refl ?_ (Nat.lt_of_lt_of_le (hs.lt_size hv) hstep.size_le)
  rintro p hp rfl
  have hp := hsound.handle?_eq_some.mpr hp
  have hpv := hs.handle_inj hv (hstep.reach_old (hs.lt_size hv) hp)
  have hnone := hstep.reach_ended hends
  change (f.call take a).1.handle? v = none at hnone
  rw [hpv, hnone] at hp
  cases hp

theorem Sound.found_again (hs : Sound f) (hlen : v.length = f.description.variableLabels.length)
    (hv : f.handle? v = some h) {rest : List (Act α ω)} (hrest : ∀ a ∈ rest, a.ends v = false) :
    ((reached (Family.call take) rest f).call take (.lookup fresh v strict : Act α ω)).2.answer = .found h := by
  have hd := (hs.after_run take rest).2
  rw [call_lookup_of_known (hd.symm ▸ hlen) (hs.reach_keep hv hrest)]

/-- Through a handle that was found for one tuple no other tuple's series can be changed, not even
when the handle is old. -/
theorem Sound.snapshot?_other (hs : Sound f) (hv : f.handle? v = some h) (rest : List (Act α ω))
    (change : α → α × ω) (hw : w ≠ v) :
    ((reached (Family.call take) rest f).call take (.use h change)).1.snapshot? take w =
      (reached (Family.call take) rest f).snapshot? take w :=
  snapshot?_use change fun hwh => hw (hs.handle_inj hv (hs.reach_old (hs.lt_size hv) hwh))

/-- Calls through the handle of a series that has ended do not show in any other answer. -/
theorem Sound.unseen_of_ends (hs : Sound f) (hv : f.handle? v = some h) (hends : a.ends v = true)
    (rest : List (Act α ω)) {b : Act α ω} (hb : b.through h = false) :
    ((reached (Family.call take) rest (f.call take a).1).call take b).2 =
      ((reached (Family.call take) (rest.filter fun b => !b.through h) (f.call take a).1).call take b).2 :=
  (((hs.dead_of_ends hv hends).after_run take rest).call take hb).2

theorem Sound.new_of_ends (hs : Sound f) (hends : a.ends v = true) (rest : List (Act α ω))
    (hfound : ((reached (Family.call take) rest (f.call take a).1).call take
      (.lookup fresh v strict : Act α ω)).2.answer = .found h) :
    f.made.size ≤ h ∧ ((∀ b ∈ rest, b.opens v = false) →
      ((reached (Family.call take) rest (f.call take a).1).call take
        (.lookup fresh v strict : Act α ω)).1.made[h]? = some fresh) := by
  have hstep := hs.step take a
  have hended := hstep.reach_ended hends
  have hs' := (hs.call take a).1
  have hg := (hs'.after_run take rest).1
  obtain ⟨hlen,hv⟩ := handle?_of_found hfound
  constructor
  · by_contra hlt
    have hh : h < (f.call take a).1.made.size := Nat.lt_of_lt_of_le (Nat.not_le.mp hlt) hstep.size_le
    have hh' := Nat.lt_of_lt_of_le hh (hs'.size_le_reached take rest)
    have hold := hs'.reach_old hh ((hg.step take (.lookup fresh v strict : Act α ω)).reach_old hh' hv)
    change (f.call take a).1.handle? v = none at hended
    rw [hold] at hended
    cases hended
  · intro hrest
    rw [call_lookup_of_new hlen (hs'.reach_none hended hrest)] at hfound ⊢
    cases hfound
    simp [Family.start]

/-- A family as its callers know it. -/
theorem behaves_as_map (take : α → α × β) (d : Description) (calls : List (Act α ω)) :
    let f := reached (call take) calls { description := d }
    (∀ a : Act α ω, Directory.Step d take f.directory a (f.call take a).1.directory (f.call take a).2) ∧
    (∀ fresh v strict h, (f.call take (.lookup fresh v strict : Act α ω)).2.answer = .found h →
      ∀ rest : List (Act α ω), let g := reached (call take) rest (f.call take (.lookup fresh v strict : Act α ω)).1
        ((∀ a ∈ rest, a.ends v = false) →
          ∀ fresh' strict', (g.call take (.lookup fresh' v strict' : Act α ω)).2.answer = .found h) ∧
        ∀ (change : α → α × ω) (w : List String), w ≠ v →
          (g.call take (.use h change)).1.snapshot? take w = g.snapshot? take w) ∧
    (∀ v (a : Act α ω), a.ends v = true → ∀ rest : List (Act α ω),
      let g := reached (call take) rest (f.call take a).1
      (∀ h, f.handle? v = some h → ∀ b : Act α ω, b.through h = false →
        let g' := reached (call take) (rest.filter fun b => !b.through h) (f.call take a).1
        (g.call take b).2 = (g'.call take b).2) ∧
      ∀ fresh strict h, (g.call take (.lookup fresh v strict : Act α ω)).2.answer = .found h → f.made.size ≤ h ∧
        ((∀ b ∈ rest, b.opens v = false) →
          (g.call take (.lookup fresh v strict : Act α ω)).1.made[h]? = some fresh)) ∧
    ∀ v, v.length ≠ d.variableLabels.length →
      (∀ fresh strict, f.call take (.lookup fresh v strict : Act α ω) =
        (f, ⟨.refused (.ofError strict (.cardinality d.variableLabels.length v.length)), []⟩)) ∧
      f.call take (.remove v : Act α ω) = (f, ⟨.removed false, []⟩) := by
  intro f
  obtain ⟨hs,hd⟩ := sound_run take d calls
  refine ⟨?_, ?_, ?_, ?_⟩
  · intro a
    exact hd ▸ hs.step take a
  · intro fresh v strict h hfound rest
    obtain ⟨hlen,hv⟩ := handle?_of_found hfound
    obtain ⟨hs',hd'⟩ := hs.call take (.lookup fresh v strict : Act α ω)
    exact ⟨fun hrest fresh' strict' => hs'.found_again (hd'.symm ▸ hlen) hv hrest,
      fun change w hw => hs'.snapshot?_other hv rest change hw⟩
  · intro v a hends rest
    exact ⟨fun h hv b hb => hs.unseen_of_ends hv hends rest hb,
      fun fresh strict h hfound => hs.new_of_ends hends rest hfound⟩
  · intro v hlen
    rw [← hd] at hlen ⊢
    refine ⟨fun fresh strict => call_lookup_of_length hlen, ?_⟩
    simp [f, Family.call, remove_refused hlen]

/-- Two labels, so that it matters where a comma stands. -/
def pairLabels : Description :=
  { fullName := "requests", help := "", constLabels := {}, variableLabels := ["method", "code"] }

def counting (n : Nat) : Nat × Nat := (n, n)

/-- Handle 0 for the first tuple, handle 1 for the second, and five counted through handle 0. -/
def commaCalls : List (Act Nat Unit) :=
  [.lookup 0 ["a,b", "c"] false, .lookup 0 ["a", "b,c"] true, .use 0 fun n => (n + 5, ())]

def commaFamily : Family Nat :=
  reached (call counting) commaCalls { description := pairLabels }

def countOne (handle : Nat) : Act Nat Unit :=
  .use handle fun n => (n + 1, ())

theorem behaves_as_map_commas :
    (commaFamily.call counting (.lookup 9 ["a,b", "c"] true : Act Nat Unit)).2.answer = .found 0 ∧
    (commaFamily.call counting (countOne 0)).1.snapshot? counting ["a", "b,c"] =
      commaFamily.snapshot? counting ["a", "b,c"] ∧
    ((reached (call counting) [countOne 0] (commaFamily.call counting (.remove ["a,b", "c"] : Act Nat Unit)).1).call
        counting (.collect 0 : Act Nat Unit)).2 =
      ((commaFamily.call counting (.remove ["a,b", "c"] : Act Nat Unit)).1.call counting (.collect 0 : Act Nat Unit)).2 ∧
    ((reached (call counting) [countOne 0] (commaFamily.call counting (.remove ["a,b", "c"] : Act Nat Unit)).1).call
      counting (.lookup 0 ["a,b", "c"] false : Act Nat Unit)).1.made[2]? = some 0 ∧
    commaFamily.call counting (.lookup 0 ["a,b,c"] true : Act Nat Unit) =
      (commaFamily, ⟨.refused (.abort "expected 2 label values, but got 1"), []⟩) := by
  obtain ⟨-,hfound,hended,hlength⟩ := behaves_as_map counting pairLabels commaCalls
  obtain ⟨hagain,hother⟩ := hfound 0 ["a,b", "c"] false 0 rfl []
  obtain ⟨hunseen,hnew⟩ := hended ["a,b", "c"] (.remove ["a,b", "c"]) rfl [countOne 0]
  refine ⟨?_, ?_, ?_, ?_, ?_⟩
  · exact hagain (by simp) 9 true
  · exact hother (fun n => (n + 1, ())) ["a", "b,c"] (by decide)
  · exact hunseen 0 rfl (.collect 0) rfl
  · exact (hnew 0 false 2 rfl).2 (by simp [Act.opens, countOne])
  · exact (hlength ["a,b,c"] (by decide)).1 0 true

end Metering.Family
