import Metering.Proofs.Family.Directory

/-! # Handles that outlive their series

A handle leads to the same accumulator for good. Once its series has ended it shows in no later
answer, apart from those to the calls that are made through it, and the next series of the tuple
starts from an accumulator of its own.
-/
namespace Metering.Family
variable {α ω β : Type} {f g : Family α} {take : α → α × β} {v w : List String} {h i : Nat}
  {rest : List (Act α ω)}

/-- What every call preserves holds after every run. -/
theorem Sound.reached_preserves {P : Family α → Prop} (hs : Sound f) (hp : P f)
    (hstep : ∀ ⦃g a⦄, a ∈ rest → Sound g → P g → P (g.call take a).1) :
    P (reached (Family.call take) rest f) := by
  induction rest generalizing f with
  | nil => exact hp
  | cons a rest ih =>
    have hhead := hstep List.mem_cons_self hs hp
    exact ih (hs.call take a).1 hhead fun g b hb => hstep (List.mem_cons_of_mem a hb)

theorem Sound.size_le_reached (hs : Sound f) (take : α → α × β) (rest : List (Act α ω)) :
    f.made.size ≤ (reached (Family.call take) rest f).made.size := by
  refine hs.reached_preserves (P := fun g => f.made.size ≤ g.made.size) (Nat.le_refl _) ?_
  intro g a _ hg hle
  exact Nat.le_trans hle (hg.step take a).size_le

theorem Sound.reach_old (hs : Sound f) (hh : h < f.made.size)
    (hv : (reached (Family.call take) rest f).handle? v = some h) : f.handle? v = some h := by
  refine (hs.reached_preserves (P := fun g => f.made.size ≤ g.made.size ∧
    (g.handle? v = some h → f.handle? v = some h)) ⟨Nat.le_refl _, id⟩ ?_).2 hv
  rintro g a - hg ⟨hle,hold⟩
  exact ⟨Nat.le_trans hle (hg.step take a).size_le,
    fun hv => hold ((hg.step take a).reach_old (Nat.lt_of_lt_of_le hh hle) hv)⟩

theorem Sound.reach_keep (hs : Sound f) (hv : f.handle? v = some h) (hends : ∀ a ∈ rest, a.ends v = false) :
    (reached (Family.call take) rest f).handle? v = some h := by
  refine hs.reached_preserves (P := fun g => g.handle? v = some h) hv ?_
  intro g a ha hg hv
  exact (hg.step take a).reach_keep (hends a ha) hv

theorem Sound.reach_none (hs : Sound f) (hv : f.handle? v = none) (hopens : ∀ a ∈ rest, a.opens v = false) :
    (reached (Family.call take) rest f).handle? v = none := by
  refine hs.reached_preserves (P := fun g => g.handle? v = none) hv ?_
  intro g a ha hg hv
  exact (hg.step take a).reach_none (hopens a ha) hv

def Act.through (h : Nat) : Act α ω → Bool
  | .use i _ => i = h
  | _ => false

/-- Equal but for one accumulator that no tuple reaches. -/
structure SameBut (h : Nat) (f g : Family α) : Prop where
  description : f.description = g.description
  live : f.live = g.live
  size : f.made.size = g.made.size
  made : ∀ i, i ≠ h → f.made[i]? = g.made[i]?
  dead : ∀ p ∈ f.live, p.2 ≠ h
  old : h < f.made.size

theorem SameBut.refl (hdead : ∀ p ∈ f.live, p.2 ≠ h) (hold : h < f.made.size) : SameBut h f f :=
  ⟨rfl, rfl, rfl, fun _ _ => rfl, hdead, hold⟩

theorem SameBut.used (hs : SameBut h f g) (change : α → α × ω) : SameBut h (f.update h change).1 g := by
  rw [update_of_lt hs.old]
  refine ⟨hs.description, hs.live, ?_, ?_, hs.dead, ?_⟩
  · simpa using hs.size
  · intro i hi
    simpa [Array.getElem?_set, hi.symm] using hs.made i hi
  · simpa using hs.old

theorem SameBut.update (hs : SameBut h f g) (hi : i ≠ h) (change : α → α × ω) :
    SameBut h (f.update i change).1 (g.update i change).1 ∧ (f.update i change).2 = (g.update i change).2 := by
  by_cases hf : i < f.made.size
  · have hg : i < g.made.size := hs.size ▸ hf
    have heq : f.made[i] = g.made[i] := by
      have := hs.made i hi
      simpa [hf, hg] using this
    rw [update_of_lt hf, update_of_lt hg, heq]
    refine ⟨⟨hs.description, hs.live, by simpa using hs.size, ?_, hs.dead, by simpa using hs.old⟩, rfl⟩
    intro j hj
    by_cases hij : i = j
    · simp [hij]
    · simp [hij, hs.made j hj]
  · have hg : ¬ i < g.made.size := hs.size ▸ hf
    rw [update_of_le (Nat.not_lt.mp hf), update_of_le (Nat.not_lt.mp hg)]
    exact ⟨hs, rfl⟩

theorem SameBut.start (hs : SameBut h f g) (fresh : α) (v : List String) :
    SameBut h (f.start fresh v) (g.start fresh v) where
  description := hs.description
  live := by simp [Family.start, hs.live, hs.size]
  size := by simp [Family.start, hs.size]
  made := by
    intro i hi
    simp [Family.start, Array.getElem?_push, hs.size, hs.made i hi]
  dead := by
    intro p hp
    rcases mem_link.mp hp with rfl | hp
    · exact (Nat.ne_of_lt hs.old).symm
    · exact hs.dead p hp
  old := by
    have := hs.old
    simp [Family.start]
    omega

theorem SameBut.foldl (hs : SameBut h f g) (take : α → α × β) {ps : List (LabelSet × Nat)}
    (hps : ∀ p ∈ ps, p.2 ≠ h) (points : List (Point β)) :
    SameBut h (ps.foldl (takeOne take) (f, points)).1 (ps.foldl (takeOne take) (g, points)).1 ∧
      (ps.foldl (takeOne take) (f, points)).2 = (ps.foldl (takeOne take) (g, points)).2 := by
  induction ps generalizing f g points with
  | nil => exact ⟨hs, rfl⟩
  | cons p rest ih =>
    obtain ⟨hp,hrest⟩ := List.forall_mem_cons.mp hps
    obtain ⟨hnext,heq⟩ := hs.update hp take
    simp only [List.foldl_cons, takeOne, heq]
    exact ih hnext hrest _

theorem SameBut.points (hs : SameBut h f g) : f.points = g.points := by
  rw [Family.points, Family.points, hs.description, hs.live]

theorem SameBut.prepare (hs : SameBut h f g) (fresh : α) :
    SameBut h (f.prepare fresh).1 (g.prepare fresh).1 ∧ (f.prepare fresh).2 = (g.prepare fresh).2 := by
  by_cases hnone : f.description.variableLabels = [] ∧ f.live = []
  · obtain ⟨hlabels,hlive⟩ := hnone
    rw [prepare_new hlabels hlive, prepare_new (hs.description ▸ hlabels) (hs.live ▸ hlive)]
    exact ⟨hs.start fresh [], rfl⟩
  · have hopen := not_and_or.mp hnone
    rw [prepare_known hopen, prepare_known (hs.description ▸ hs.live ▸ hopen)]
    exact ⟨hs, rfl⟩

theorem SameBut.call (hs : SameBut h f g) (take : α → α × β) {a : Act α ω} (ha : a.through h = false) :
    SameBut h (f.call take a).1 (g.call take a).1 ∧ (f.call take a).2 = (g.call take a).2 := by
  have hhandle (v : List String) : f.handle? v = g.handle? v := congrArg (List.lookup v) hs.live
  cases a with
  | lookup fresh v strict =>
    by_cases hlen : v.length = f.description.variableLabels.length
    · have hlen' := hs.description ▸ hlen
      cases hv : f.handle? v with
      | none =>
        simp only [Family.call, obtain_new hlen hv, obtain_new hlen' (hhandle v ▸ hv), hs.size, and_true]
        exact hs.start fresh v
      | some k =>
        simp only [Family.call, obtain_known hlen hv, obtain_known hlen' (hhandle v ▸ hv), and_true]
        exact hs
    · simp only [Family.call, obtain_refused hlen, obtain_refused (hs.description ▸ hlen), hs.description, and_true]
      exact hs
  | remove v =>
    by_cases hlen : v.length = f.description.variableLabels.length
    · have hlen' := hs.description ▸ hlen
      cases hv : f.handle? v with
      | some k =>
        simp only [Family.call, remove_known hlen hv, remove_known hlen' (hhandle v ▸ hv), and_true]
        refine ⟨hs.description, ?_, hs.size, hs.made, ?_, hs.old⟩
        · exact congrArg (List.filter _) hs.live
        · exact fun p hp => hs.dead p (List.mem_of_mem_filter hp)
      | none =>
        simp only [Family.call, remove_absent hv, remove_absent (hhandle v ▸ hv), and_true]
        exact hs
    · simp only [Family.call, remove_refused hlen, remove_refused (hs.description ▸ hlen), and_true]
      exact hs
  | clear => exact ⟨⟨hs.description, rfl, hs.size, hs.made, by simp [Family.call, clear], hs.old⟩, rfl⟩
  | collect fresh =>
    obtain ⟨hp,hevents⟩ := hs.prepare fresh
    have hdead : ∀ p ∈ (f.prepare fresh).1.points, p.2 ≠ h := by
      intro p hm
      obtain ⟨q,hq,rfl⟩ := List.mem_map.mp hm
      exact hp.dead q hq
    obtain ⟨hf,hpoints⟩ := hp.foldl take hdead []
    simp only [Family.call, collect_eq, ← hp.points, hevents, hpoints, and_true]
    exact hf
  | use i change =>
    have hi : i ≠ h := by simpa [Act.through] using ha
    obtain ⟨hu,heq⟩ := hs.update hi change
    simp only [Family.call, heq, and_true]
    exact hu

/-- Calls through the handle can be left out of a run. -/
theorem SameBut.after_run (hs : SameBut h f g) (take : α → α × β) (rest : List (Act α ω)) :
    SameBut h (reached (Family.call take) rest f)
      (reached (Family.call take) (rest.filter fun a => !a.through h) g) := by
  induction rest generalizing f g with
  | nil => exact hs
  | cons a rest ih =>
    cases ha : a.through h with
    | false =>
      rw [List.filter_cons_of_pos (by simp [ha])]
      exact ih (hs.call take ha).1
    | true =>
      rw [List.filter_cons_of_neg (by simp [ha])]
      cases a with
      | use i change =>
        have hi : i = h := by simpa [Act.through] using ha
        subst hi
        exact ih (hs.used change)
      | _ => cases ha

end Metering.Family
