import Metering.Proofs.Buffer.Actions
import Mathlib.Data.List.Induction

/-! # Pauses whose closures use the buffer

The wait, the work and the replays of a pause may themselves announce values and ask for a restart,
and wait and work may fail. What arrives under the pause is kept and replayed once, in order, and the
buffer is left running and empty however the pause ends.
-/
namespace Metering.Buffer
namespace Script
variable {α : Type}

def Routine.inner (r : Routine α) : List Action :=
  r.refused.flatten ++ r.waiting ++ if r.waitFails then [] else r.snapshot

def Routine.diverted (r : Routine α) : List Float :=
  values r.inner

def Routine.replays (r : Routine α) : List Action :=
  (List.range' 0 r.diverted.length).flatMap r.replay

def Routine.outcome (r : Routine α) : Except Failure α :=
  if r.waitFails then .error .wait
  else if r.snapshotFails then .error .snapshot
  else .ok r.value

/-- The buffer right after the pause is lifted, before anything is replayed. -/
def Routine.resumed (r : Routine α) (b : Buffer) : Buffer :=
  ((inside r b.appended { buffer := b.pause }).1.buffer.resume b.appended).1

/-- What the replays of values see, from the count `n` and the replay `i` on. -/
def replaysFrom (actions : Nat → List Action) (n i : Nat) : List Float → List Replayed
  | [] => []
  | v :: vs =>
    ⟨v, ⟨seenFrom false n (actions i), UInt64.ofNat (n + (values (actions i)).length), false⟩⟩ ::
      replaysFrom actions (n + (values (actions i)).length) (i + 1) vs

theorem map_value_replaysFrom (actions : Nat → List Action) (n i : Nat) (vs : List Float) :
    (replaysFrom actions n i vs).map Replayed.value = vs := by
  induction vs generalizing n i with
  | nil => rfl
  | cons v vs ih => simp [replaysFrom, ih]

end Script

open Script

variable {α : Type} {b : Buffer} {n : Nat} {asked : Bool} {start : UInt64}

theorem Stands.inside (h : Stands b start.toNat true [] asked) (r : Routine α)
    (hroom : start.toNat + r.diverted.length < 2 ^ 63) :
    ∃ b' waiting snapshot,
      Script.inside r start { buffer := b } =
          ({ buffer := b', waiting, snapshot, expected := List.replicate (r.refused.length + 1) start },
            r.outcome) ∧
        waiting ++ snapshot = seenFrom true start.toNat r.inner ∧
        Stands b' (start.toNat + r.diverted.length) true r.diverted (asked || r.inner.any Action.asks) := by
  rw [Routine.diverted, Routine.inner] at hroom ⊢
  rw [Script.inside, Routine.outcome]
  cases hf : r.waitFails with
  | true =>
    simp only [hf, if_true, List.append_nil] at hroom ⊢
    obtain ⟨hs,h1⟩ := h.actAll _ hroom
    exact ⟨_, _, [], rfl, by simpa using hs, by simpa using h1⟩
  | false =>
    simp only [hf, Bool.false_eq_true, if_false, values_append, List.length_append] at hroom ⊢
    obtain ⟨hs,h1⟩ := h.actAll (r.refused.flatten ++ r.waiting) (by simp; omega)
    obtain ⟨hs',h2⟩ := h1.actAll r.snapshot (by simp; omega)
    refine ⟨_, _, _, rfl, ?_, by simpa [Nat.add_assoc, Bool.or_assoc] using h2⟩
    rw [hs, hs', ← seenFrom_append]

theorem Stands.replays (r : Routine α) (vs : List Float) (t : Tape) (h : Stands t.buffer n false [] asked)
    (hroom : n + (values ((List.range' t.replayed.size vs.length).flatMap r.replay)).length < 2 ^ 63) :
    ∃ b', vs.foldl (fun t v => Script.replay r v t) t =
        { t with
          buffer := b'
          replayed := t.replayed ++ (replaysFrom r.replay n t.replayed.size vs).toArray } ∧
      Stands b' (n + (values ((List.range' t.replayed.size vs.length).flatMap r.replay)).length) false []
        (asked || ((List.range' t.replayed.size vs.length).flatMap r.replay).any Action.asks) := by
  induction vs generalizing t n asked with
  | nil => exact ⟨t.buffer, by simp [replaysFrom], by simpa using h⟩
  | cons v vs ih =>
    rw [List.length_cons, List.range'_succ, List.flatMap_cons, values_append, List.length_append] at hroom ⊢
    obtain ⟨hs,h1⟩ := h.actAll (r.replay t.replayed.size) (by omega)
    have hreplay : Script.replay r v t =
        { t with
          buffer := (Script.actAll (r.replay t.replayed.size) t.buffer).1
          replayed := t.replayed.push ⟨v, ⟨seenFrom false n (r.replay t.replayed.size),
            UInt64.ofNat (n + (values (r.replay t.replayed.size)).length), false⟩⟩ } := by
      rw [← hs, ← h1.look]
      rfl
    obtain ⟨b',he,h2⟩ := ih (Script.replay r v t) (by rw [hreplay]; exact h1)
      (by rw [hreplay]; simpa [Nat.add_assoc] using hroom)
    refine ⟨b', ?_, ?_⟩
    · rw [List.foldl_cons, he, hreplay]
      simp [replaysFrom]
    · rw [hreplay] at h2
      simpa [Nat.add_assoc, Bool.or_assoc] using h2

theorem perform_eq (r : Routine α) (b : Buffer) {t : Tape} {a : Except Failure α}
    (hin : Script.inside r b.appended { buffer := b.pause } = (t, a)) :
    r.perform b =
      (t.buffer.overflow.toList.foldl (fun t v => Script.replay r v t)
        { t with buffer := Buffer.lift b.appended t.buffer }, a) :=
  exclusively_eq ({ buffer := b } : Tape) t hin

theorem Stands.perform (h : Stands b n false [] asked) (r : Routine α)
    (hroom : n + r.diverted.length + (values r.replays).length < 2 ^ 63) :
    let base := (if asked || r.inner.any Action.asks then 0 else n) + r.diverted.length
    ∃ b' waiting snapshot,
      r.perform b =
          ({ buffer := b', waiting, snapshot
             expected := List.replicate (r.refused.length + 1) b.appended
             replayed := (replaysFrom r.replay base 0 r.diverted).toArray }, r.outcome) ∧
        waiting ++ snapshot = seenFrom true n r.inner ∧
        Stands (r.resumed b) base false r.diverted false ∧
        Stands b' (base + (values r.replays).length) false [] (r.replays.any Action.asks) := by
  intro base
  have hn : b.appended.toNat = n := h.count
  have hpause : Stands b.pause b.appended.toNat true [] asked := by rw [hn]; exact h.pause
  obtain ⟨p,waiting,snapshot,hin,hseen,hp⟩ := hpause.inside r (by omega)
  have hresume := hp.resume.1
  have hlift := hp.lift
  rw [hn] at hseen hresume hlift
  have hbase : base ≤ n + r.diverted.length := by dsimp only [base]; split <;> omega
  obtain ⟨b',hfold,hb'⟩ := Stands.replays r r.diverted { buffer := Buffer.lift b.appended p, waiting, snapshot, expected := _ }
    hlift (by change base + (values r.replays).length < _; omega)
  refine ⟨b', waiting, snapshot, ?_, hseen, ?_, ?_⟩
  · rw [perform_eq r b hin]
    dsimp only
    rw [hp.contents, hfold]
    simp [base]
  · rwa [Routine.resumed, hin]
  · rw [Bool.false_or] at hb'
    exact hb'

namespace Script

/-- What is done to a buffer from outside: an action, or a pause. -/
inductive Deed (α : Type)
  | act (a : Action)
  | run (r : Routine α)

def Deed.apply (d : Deed α) (b : Buffer) : Buffer :=
  match d with
  | .act a => (Script.act a b).1
  | .run r => (r.perform b).1.buffer

def Deed.values : Deed α → List Float
  | .act a => a.values
  | .run r => r.diverted ++ Script.values r.replays

def after (b : Buffer) (history : List (Deed α)) : Buffer :=
  history.foldl (fun b d => d.apply b) b

/-- What was done since the last pause was lifted, the replays of that pause included. -/
def sinceResume (history : List (Deed α)) : List Action :=
  history.foldl (fun as d => match d with | .act a => as ++ [a] | .run r => r.replays) []

def Roomy (b : Buffer) : List (Deed α) → Prop
  | [] => True
  | d :: rest => b.sequence + d.values.length < 2 ^ 63 ∧ Roomy (d.apply b) rest

theorem roomy_snoc (b : Buffer) (history : List (Deed α)) (d : Deed α) :
    Roomy b (history ++ [d]) ↔ Roomy b history ∧ (after b history).sequence + d.values.length < 2 ^ 63 := by
  induction history generalizing b with
  | nil => simp [Roomy, after]
  | cons e rest ih => simp [Roomy, ih, after, and_assoc]

theorem after_snoc (b : Buffer) (history : List (Deed α)) (d : Deed α) :
    after b (history ++ [d]) = d.apply (after b history) :=
  List.foldl_append

theorem sinceResume_act (history : List (Deed α)) (a : Action) :
    sinceResume (history ++ [.act a]) = sinceResume history ++ [a] :=
  List.foldl_append

theorem sinceResume_run (history : List (Deed α)) (r : Routine α) :
    sinceResume (history ++ [.run r]) = r.replays :=
  List.foldl_append

end Script

/-- Between deeds the buffer is running and empty. -/
theorem stands_after {history : List (Deed α)} (hroom : Roomy {} history) :
    Stands (after {} history) (after {} history).sequence false [] ((sinceResume history).any Action.asks) := by
  induction history using List.reverseRecOn with
  | nil =>
    have hzero : (after {} ([] : List (Deed α))).sequence = 0 := stands_new.count
    rw [hzero]
    exact stands_new
  | append_singleton history d ih =>
    obtain ⟨hbefore,hd⟩ := (roomy_snoc {} history d).mp hroom
    have h := ih hbefore
    rw [after_snoc]
    cases d with
    | act a =>
      obtain ⟨_,h1⟩ := h.act a hd
      rw [sinceResume_act, Deed.apply, h1.count, List.any_append]
      simpa using h1
    | run r =>
      rw [Deed.values, List.length_append, ← Nat.add_assoc] at hd
      obtain ⟨b',_,_,hperform,_,_,h1⟩ := h.perform r hd
      rw [sinceResume_run, Deed.apply, hperform, h1.count]
      exact h1

/-- At every buffer that actions and earlier pauses lead to, a pause answers every value announced by
its wait or its work with the promise to keep it, and replays these values, once and in this order,
with the flag already clear, so that values announced by the replays are not kept. Right after the
pause is lifted the count is the one at which the pause began plus the kept values, or these alone if
a restart was asked for since the last pause was lifted; each value announced by a replay raises it by
one. However wait and work end, no wait for kept values stalls, the buffer is left running and empty,
and the answer is the value of the work or the failure. -/
theorem perform_reentrant (history : List (Deed α)) (r : Routine α) (hroom : Roomy {} (history ++ [.run r])) :
    let b := after {} history
    let t := (r.perform b).1
    let base := (if (sinceResume history ++ r.inner).any Action.asks then 0 else b.sequence) + r.diverted.length
    t.waiting ++ t.snapshot = seenFrom true b.sequence r.inner ∧
      t.expected = List.replicate (r.refused.length + 1) b.appended ∧
      t.replayed.toList = replaysFrom r.replay base 0 r.diverted ∧
      t.replayed.toList.map Replayed.value = r.diverted ∧
      ((r.resumed b).sequence = base ∧ (r.resumed b).isPaused = false) ∧
      t.buffer.sequence = base + (values r.replays).length ∧
      (t.buffer.isPaused = false ∧ t.buffer.overflow = #[] ∧ t.buffer.cursor = 0 ∧ t.buffer.stalled = false) ∧
      (r.perform b).2 = r.outcome := by
  intro b t base
  obtain ⟨hbefore,hr⟩ := (roomy_snoc {} history (.run r)).mp hroom
  rw [Deed.values, List.length_append, ← Nat.add_assoc] at hr
  obtain ⟨b',waiting,snapshot,hperform,hseen,hresumed,h1⟩ := (stands_after hbefore).perform r hr
  have hbase : base = (if (sinceResume history).any Action.asks || r.inner.any Action.asks then 0 else b.sequence) +
      r.diverted.length := by dsimp only [base]; rw [List.any_append]
  rw [← hbase] at hperform hresumed h1
  have ht : t = { buffer := b', waiting, snapshot
                  expected := List.replicate (r.refused.length + 1) b.appended
                  replayed := (replaysFrom r.replay base 0 r.diverted).toArray } := congrArg Prod.fst hperform
  rw [ht]
  exact ⟨hseen, rfl, rfl, map_value_replaysFrom _ _ _ _, ⟨hresumed.count, hresumed.flag⟩, h1.count,
    ⟨h1.flag, h1.contents, h1.published, h1.moving⟩, congrArg Prod.snd hperform⟩

/-- The replay of an earlier pause asks for a restart. -/
def restartingHistory : List (Deed Nat) :=
  [.act (.append 1 5), .run { snapshot := [.append 6 1], value := 0, replay := fun _ => [.restart] }]

/-- The wait announces values at two polls and then fails, and the first replay announces one. -/
def failingRoutine : Routine Nat where
  refused := [[.append 7 1, .look]]
  waiting := [.append 8 1]
  waitFails := true
  value := 0
  replay i := if i = 0 then [.look, .append 9 1] else []

theorem perform_reentrant_failing :
    let b := after {} restartingHistory
    let t := (failingRoutine.perform b).1
    b.sequence = 6 ∧ t.replayed.toList.map Replayed.value = [7, 8] ∧ (failingRoutine.resumed b).sequence = 2 ∧
      t.buffer.sequence = 3 ∧ (failingRoutine.perform b).2 = .error .wait := by
  have hroom : Roomy {} (restartingHistory ++ [.run failingRoutine]) := by
    refine ⟨?_, ?_, ?_, trivial⟩ <;> decide +kernel
  obtain ⟨_,_,_,hvalues,⟨hresumed,_⟩,hcount,_,houtcome⟩ :=
    perform_reentrant restartingHistory failingRoutine hroom
  exact ⟨by decide +kernel, hvalues, hresumed, hcount, houtcome⟩

-- Without room the flag is overrun: nothing is kept under a pause that begins at the last count.
example : (({ progress := 0x7fffffffffffffff } : Buffer).pause.append 1).2 = false := by
  decide

end Metering.Buffer
