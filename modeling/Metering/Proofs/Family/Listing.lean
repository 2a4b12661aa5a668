import Metering.Proofs.Family.Directory
import Metering.Proofs.Records
import Metering.Proofs.Text.Quoted
import Mathlib.Data.Finset.Image

/-! # What a family reports of its series

A family reports the tuples whose series start and end. A reader who follows the records has the live
tuples, as they are written, listed at any time. No two tuples are written alike.
-/
namespace Metering.Family
variable {α ω β : Type} {d : Description} {take : α → α × β} {m n : Directory α} {f : Family α} {a : Act α ω}
  {o : Outcome ω β} {listed : Finset String}

/-- What a reader makes of a record. -/
def follow (listed : Finset String) (r : Record) : Finset String :=
  if r.message = "creating series" then (r.text? "labels").elim listed (insert · listed)
  else if r.message = "removed series" then (r.text? "labels").elim listed listed.erase
  else if r.message = "cleared all series" then ∅
  else listed

def followEvent (listed : Finset String) : Event → Finset String
  | .creating v => insert (Text.quoteList v) listed
  | .removed v => listed.erase (Text.quoteList v)
  | .cleared => ∅

theorem follow_record (listed : Finset String) (metric : String) (e : Event) :
    follow listed (e.record metric) = followEvent listed e := by
  cases e <;> rfl

/-- Just the live tuples are listed. -/
def Lists (m : Directory α) (listed : Finset String) : Prop :=
  ∀ t, t ∈ listed ↔ ∃ v, (∃ h, m.reach v = some h) ∧ Text.quoteList v = t

theorem lists_new (d : Description) : Lists ({ description := d } : Family α).directory ∅ := by
  intro t
  simp [directory, handle?]

theorem Lists.start (hl : Lists m listed) (fresh : α) (v : List String) :
    Lists (m.start fresh v) (insert (Text.quoteList v) listed) := by
  intro t
  rw [Finset.mem_insert, hl t]
  constructor
  · rintro (rfl | ⟨w,⟨h,hw⟩,rfl⟩)
    · exact ⟨v, ⟨m.made.size, by simp [Directory.start]⟩, rfl⟩
    · refine ⟨w, ?_, rfl⟩
      by_cases hwv : w = v
      · exact ⟨m.made.size, by simp [Directory.start, hwv]⟩
      · exact ⟨h, by simp [Directory.start, hwv, hw]⟩
  · rintro ⟨w,⟨h,hw⟩,rfl⟩
    by_cases hwv : w = v
    · exact .inl (congrArg Text.quoteList hwv)
    · simp only [Directory.start, hwv, if_false] at hw
      exact .inr ⟨w, ⟨h, hw⟩, rfl⟩

theorem Lists.drop (hl : Lists m listed) (v : List String) :
    Lists (m.drop v) (listed.erase (Text.quoteList v)) := by
  intro t
  rw [Finset.mem_erase, hl t]
  constructor
  · rintro ⟨hne,w,⟨h,hw⟩,rfl⟩
    have hwv : w ≠ v := fun heq => hne (congrArg Text.quoteList heq)
    exact ⟨w, ⟨h, by simp [Directory.drop, hwv, hw]⟩, rfl⟩
  · rintro ⟨w,⟨h,hw⟩,rfl⟩
    by_cases hwv : w = v
    · simp [Directory.drop, hwv] at hw
    · simp only [Directory.drop, hwv, if_false] at hw
      exact ⟨fun heq => hwv (Text.quoteList_injective heq), w, ⟨h, hw⟩, rfl⟩

theorem Lists.collected {points : List (Point β)} (hl : Lists m listed) (hc : Directory.Collected d take m n points) :
    Lists n listed := by
  intro t
  rw [hc.reach]
  exact hl t

theorem Lists.step (hl : Lists m listed) (hstep : Directory.Step d take m a n o) :
    Lists n (o.events.foldl followEvent listed) := by
  cases hstep with
  | started => exact hl.start _ _
  | @removed v _ _ => exact hl.drop v
  | cleared => intro t; simp [followEvent]
  | collected _ hc => exact hl.collected hc
  | begun _ _ hc => exact (hl.start _ []).collected hc
  | _ => exact hl

theorem Sound.eq_image (hs : Sound f) (hl : Lists f.directory listed) :
    listed = f.tuples.toFinset.image Text.quoteList := by
  ext t
  rw [hl t]
  simp only [Finset.mem_image, List.mem_toFinset, hs.mem_tuples]
  rfl

/-- What a call reports, set against what becomes of the live tuples. -/
structure Explained (f g : Family α) (events : List Event) : Prop where
  /-- A new set of live tuples is reported once, and no call reports more than that. -/
  changed : f.tuples.toFinset ≠ g.tuples.toFinset → events.length = 1
  few : events.length ≤ 1
  creating : ∀ v, .creating v ∈ events → v ∉ f.tuples ∧ v ∈ g.tuples
  removed : ∀ v, .removed v ∈ events → v ∈ f.tuples ∧ v ∉ g.tuples

/-- A call reports what it does to the live tuples, and reports nothing where it leaves them alone. -/
theorem Directory.Step.reported (hstep : Directory.Step d take m a n o) :
    (o.events = [] ∧ n.reach = m.reach) ∨
    (∃ v, o.events = [.creating v] ∧ m.reach v = none ∧ ∃ h, n.reach v = some h) ∨
    (∃ v, o.events = [.removed v] ∧ (∃ h, m.reach v = some h) ∧ n.reach v = none) ∨
    o.events = [.cleared] := by
  cases hstep with
  | @started _ v _ _ hv => exact .inr (.inl ⟨v, rfl, hv, m.made.size, by simp [Directory.start]⟩)
  | @removed v h hv => exact .inr (.inr (.inl ⟨v, rfl, ⟨h, hv⟩, by simp [Directory.drop]⟩))
  | cleared => exact .inr (.inr (.inr rfl))
  | collected _ hc => exact .inl ⟨rfl, hc.reach⟩
  | begun _ hnone hc => exact .inr (.inl ⟨[], rfl, hnone [], m.made.size, by simp [hc.reach, Directory.start]⟩)
  | _ => exact .inl ⟨rfl, rfl⟩

theorem Sound.explained (hs : Sound f) (take : α → α × β) (a : Act α ω) :
    Explained f (f.call take a).1 (f.call take a).2.events := by
  have hstep := (hs.step take a).reported
  have hs' := (hs.call take a).1
  generalize (f.call take a).1 = g at hstep hs'
  generalize (f.call take a).2 = o at hstep
  have hf (v : List String) : v ∈ f.tuples ↔ ∃ h, f.directory.reach v = some h := hs.mem_tuples
  have hg (v : List String) : v ∈ g.tuples ↔ ∃ h, g.directory.reach v = some h := hs'.mem_tuples
  rcases hstep with ⟨he,hsame⟩ | ⟨v,he,hbefore,hafter⟩ | ⟨v,he,hbefore,hafter⟩ | he
  · rw [he]
    refine ⟨fun hne => absurd ?_ hne, Nat.zero_le _, by simp, by simp⟩
    ext v
    rw [List.mem_toFinset, List.mem_toFinset, hf, hg, hsame]
  · rw [he]
    refine ⟨fun _ => rfl, Nat.le_refl _, ?_, by simp⟩
    intro w hw
    cases List.mem_singleton.mp hw
    rw [hf, hg, hbefore]
    exact ⟨by simp, hafter⟩
  · rw [he]
    refine ⟨fun _ => rfl, Nat.le_refl _, by simp, ?_⟩
    intro w hw
    cases List.mem_singleton.mp hw
    rw [hf, hg, hafter]
    exact ⟨hbefore, by simp⟩
  · rw [he]
    exact ⟨fun _ => rfl, Nat.le_refl _, by simp, by simp⟩

end Metering.Family
