import Metering.Proofs.Answers
import Metering.Recorder

/-! # Samplers that no call tells apart

Nothing is known of the inside of a sampler. Two of its states are alike when all calls that may follow
get the same answers, and any call keeps them so.
-/
namespace Metering
namespace Sampler

inductive Call
  | offer (v : Float) (range : Option BucketRange) (tag : Option Tag)
  | collect
  | reset

variable {σ : Type} [Sampler σ] {s t : σ} {p q : Option σ}

def call (a : Call) (s : σ) : σ × List Exemplar :=
  match a with
  | .offer v range tag => (offer v range tag s, [])
  | .collect => ((collect s).2, (collect s).1)
  | .reset => (reset s, [])

def Alike (s t : σ) : Prop :=
  ∀ calls, answers call calls s = answers call calls t

theorem Alike.refl (s : σ) : Alike s s :=
  fun _ => rfl

theorem Alike.trans {u : σ} (hs : Alike s t) (ht : Alike t u) : Alike s u :=
  fun calls => (hs calls).trans (ht calls)

theorem Alike.after_call (ha : Alike s t) (a : Call) :
    (call a s).2 = (call a t).2 ∧ Alike (call a s).1 (call a t).1 :=
  ⟨(List.cons.inj (ha [a])).1, fun calls => (List.cons.inj (ha (a :: calls))).2⟩

/-- What calls keep, and what is answered alike where it holds, shows that states are alike. -/
theorem alike_of_related {R : σ → σ → Prop}
    (hR : ∀ ⦃s t⦄ a, R s t → (call a s).2 = (call a t).2 ∧ R (call a s).1 (call a t).1) (h : R s t) :
    Alike s t := by
  intro calls
  induction calls generalizing s t with
  | nil => rfl
  | cons a rest ih =>
    obtain ⟨hanswer,hnext⟩ := hR a h
    rw [answers, answers, hanswer, ih hnext]

/-- Whatever it was told, a reset makes a sampler as good as it is now. -/
def Renewable (s : σ) : Prop :=
  ∀ calls, Alike (reset (reached call calls s)) s

/-- Whatever it was told, handing over its exemplars does not show in a sampler. -/
def Steady (s : σ) : Prop :=
  ∀ calls, Alike (collect (reached call calls s)).2 (reached call calls s)

/-- Alike where there is a sampler at all. -/
abbrev Matched (p q : Option σ) : Prop :=
  Option.Rel Alike p q

theorem Matched.refl (p : Option σ) : Matched p p := by
  cases p with
  | none => exact .none
  | some s => exact .some (.refl s)

theorem Matched.offer (h : Matched p q) (v : Float) (range : Option BucketRange) (tag : Option Tag) :
    Matched (p.map (Sampler.offer v range tag)) (q.map (Sampler.offer v range tag)) := by
  cases h with
  | none => exact .none
  | some ha => exact .some (ha.after_call (.offer v range tag)).2

theorem Matched.reset (h : Matched p q) : Matched (p.map Sampler.reset) (q.map Sampler.reset) := by
  cases h with
  | none => exact .none
  | some ha => exact .some (ha.after_call .reset).2

theorem Matched.handOver (h : Matched p q) :
    (Sampler.handOver p).1 = (Sampler.handOver q).1 ∧ Matched (Sampler.handOver p).2 (Sampler.handOver q).2 := by
  cases h with
  | none => exact ⟨rfl, .none⟩
  | some ha => exact ⟨(ha.after_call .collect).1, .some (ha.after_call .collect).2⟩

theorem Matched.handOver_left (h : Matched p q) (hsteady : ∀ s ∈ p, Steady s) : Matched (Sampler.handOver p).2 q := by
  cases h with
  | none => exact .none
  | @some s t ha => exact .some ((hsteady s rfl []).trans ha)

/-- What calls make of a sampler where there is one. -/
def Became (p q : Option σ) : Prop :=
  ∃ calls, q = p.map (reached call calls)

theorem Became.refl (p : Option σ) : Became p p :=
  ⟨[], Option.map_id'.symm⟩

theorem Became.after_call (h : Became p q) (a : Call) : Became p (q.map fun s => (call a s).1) := by
  obtain ⟨calls,rfl⟩ := h
  refine ⟨calls ++ [a], ?_⟩
  rw [Option.map_map]
  congr 1
  funext s
  rw [reached_append]
  rfl

theorem Became.handOver (h : Became p q) : Became p (Sampler.handOver q).2 := by
  have hcollected : (Sampler.handOver q).2 = q.map fun s => (call .collect s).1 := by
    cases q <;> rfl
  rw [hcollected]
  exact h.after_call .collect

theorem Became.steady (h : Became p q) (hsteady : ∀ s ∈ p, Steady s) : ∀ s ∈ q, Steady s := by
  obtain ⟨calls,rfl⟩ := h
  intro s hs more
  obtain ⟨r,hr,rfl⟩ := Option.map_eq_some_iff.mp hs
  rw [← reached_append]
  exact hsteady r hr (calls ++ more)

theorem Became.matched_reset (h : Became p q) (hrenew : ∀ s ∈ p, Renewable s) : Matched (q.map Sampler.reset) p := by
  obtain ⟨calls,rfl⟩ := h
  cases p with
  | none => exact .none
  | some s => exact .some (hrenew s rfl calls)

end Sampler

namespace Recorder

theorem alike_of_kept {r r' : Recorder} (h : r.kept = r'.kept) : Sampler.Alike r r' := by
  refine Sampler.alike_of_related (R := fun r r' => r.kept = r'.kept) (fun r r' a h => ?_) h
  cases a with
  | offer v range tag =>
    refine ⟨rfl, ?_⟩
    cases tag with
    | none => exact h
    | some t => exact congrArg (·.push ⟨v, t.labels, t.timestamp⟩) h
  | collect => exact ⟨congrArg Array.toList h, h⟩
  | reset => exact ⟨rfl, rfl⟩

theorem renewable_new : Sampler.Renewable ({} : Recorder) :=
  fun _ => alike_of_kept rfl

theorem steady (r : Recorder) : Sampler.Steady r :=
  fun _ => .refl _

end Recorder
end Metering
