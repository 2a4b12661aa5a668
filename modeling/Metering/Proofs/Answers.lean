/-! # Answers of a run

Calls are made one after another on a state and each is answered. Looks that are inserted into a run
change no answer to its own calls where a look leaves the state as good as it was.
-/
namespace Metering
variable {σ ι ο : Type}

def reached (call : ι → σ → σ × ο) (acts : List ι) (s : σ) : σ :=
  acts.foldl (fun s a => (call a s).1) s

theorem reached_append (call : ι → σ → σ × ο) (acts rest : List ι) (s : σ) :
    reached call (acts ++ rest) s = reached call rest (reached call acts s) :=
  List.foldl_append

def answers (call : ι → σ → σ × ο) : List ι → σ → List ο
  | [], _ => []
  | a :: rest, s => (call a s).2 :: answers call rest (call a s).1

/-- A run with insertions, which are marked by `none`, and its own calls. -/
abbrev Marked (ι : Type) := List (Option ι)

def Marked.full (look : ι) (marked : Marked ι) : List ι :=
  marked.map (·.getD look)

def Marked.own (marked : Marked ι) : List ι :=
  marked.filterMap id

def Marked.ownAnswers (marked : Marked ι) (all : List ο) : List ο :=
  (marked.zip all).filterMap fun (m, answer) => m.map fun _ => answer

/-- Two states that calls do not tell apart by what `view` shows of an answer, as long as no more than `rest`
is called, give the same answers in this view with and without insertions. -/
theorem map_ownAnswers_full {ο' : Type} (view : ο → ο') {call : ι → σ → σ × ο} {look : ι}
    {Same : List ι → σ → σ → Prop}
    (hcall : ∀ ⦃a rest s t⦄, Same (a :: rest) s t →
      view (call a s).2 = view (call a t).2 ∧ Same rest (call a s).1 (call a t).1)
    (hlook : ∀ ⦃rest s t⦄, Same rest s t → Same rest (call look s).1 t)
    (marked : Marked ι) {s t : σ} (h : Same marked.own s t) :
    (marked.ownAnswers (answers call (marked.full look) s)).map view = (answers call marked.own t).map view := by
  induction marked generalizing s t with
  | nil => rfl
  | cons m rest ih =>
    cases m with
    | none => exact ih (hlook h)
    | some a =>
      obtain ⟨heq,hnext⟩ := hcall h
      change view (call a s).2 :: (Marked.ownAnswers rest _).map view = view (call a t).2 :: _
      rw [heq]
      exact congrArg (List.cons _) (ih hnext)

theorem ownAnswers_full {call : ι → σ → σ × ο} {look : ι} {Same : List ι → σ → σ → Prop}
    (hcall : ∀ ⦃a rest s t⦄, Same (a :: rest) s t →
      (call a s).2 = (call a t).2 ∧ Same rest (call a s).1 (call a t).1)
    (hlook : ∀ ⦃rest s t⦄, Same rest s t → Same rest (call look s).1 t)
    (marked : Marked ι) {s t : σ} (h : Same marked.own s t) :
    marked.ownAnswers (answers call (marked.full look) s) = answers call marked.own t := by
  simpa using map_ownAnswers_full id hcall hlook marked h

end Metering
