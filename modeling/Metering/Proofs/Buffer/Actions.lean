import Metering.Buffer.Script
import Metering.Proofs.Buffer.Quiet

/-! # Actions on a buffer

What a script's actions do to the count, the flag and the kept values of a buffer, and what they see.
While the count has room an action is answered by the flag.
-/
namespace Metering.Buffer

/-- A buffer by its count, its flag, the values it keeps and whether a restart is asked for; no wait
has been refused. -/
structure Stands (b : Buffer) (n : Nat) (paused : Bool) (kept : List Float) (asked : Bool) : Prop where
  count : b.sequence = n
  flag : b.isPaused = paused
  contents : b.overflow = kept.toArray
  published : b.cursor = kept.length
  restart : b.restart = asked
  moving : b.stalled = false

variable {b : Buffer} {n : Nat} {paused asked : Bool} {kept : List Float}

theorem stands_new : Stands {} 0 false [] false :=
  ⟨by decide, by decide, rfl, rfl, rfl, rfl⟩

def keptOf (paused : Bool) (vs : List Float) : List Float :=
  if paused then vs else []

@[simp] theorem keptOf_nil (paused : Bool) : keptOf paused [] = [] := by
  simp [keptOf]

@[simp] theorem keptOf_true (vs : List Float) : keptOf true vs = vs := rfl

@[simp] theorem keptOf_false (vs : List Float) : keptOf false vs = [] := rfl

theorem keptOf_append (paused : Bool) (vs ws : List Float) :
    keptOf paused (vs ++ ws) = keptOf paused vs ++ keptOf paused ws := by
  cases paused <;> simp

theorem Stands.append (h : Stands b n paused kept asked) (v : Float) (hroom : n + 1 < 2 ^ 63) :
    (b.append v).2 = paused ∧ Stands (b.append v).1 (n + 1) paused (kept ++ keptOf paused [v]) asked := by
  have hs : b.sequence + 1 < 2 ^ 63 := by rw [h.count]; exact hroom
  have hk : b.announce.2 = paused := (announce_snd hs).trans h.flag
  have hcount : b.announce.1.sequence = n + 1 := by rw [sequence_announce hs, h.count]
  have hflag : b.announce.1.isPaused = paused := (isPaused_announce hs).trans h.flag
  have hmoving : b.announce.1.stalled = false := (stalled_announce b).trans h.moving
  cases paused with
  | false =>
    rw [append_of_not_paused v b hk]
    exact ⟨rfl, hcount, hflag, by simp [h.contents], by simp [h.published], by simp [h.restart], hmoving⟩
  | true =>
    rw [append_of_paused v b hk]
    exact ⟨rfl, hcount, hflag, by simp [h.contents], by simp [h.contents], by simp [h.restart], hmoving⟩

theorem Stands.requestRestart (h : Stands b n paused kept asked) :
    Stands b.requestRestart n paused kept true :=
  ⟨h.count, h.flag, h.contents, h.published, rfl, h.moving⟩

theorem Stands.pause (h : Stands b n false kept asked) : Stands b.pause n true kept asked where
  count := (sequence_pause h.flag).trans h.count
  flag := isPaused_pause h.flag
  contents := (overflow_pause b).trans h.contents
  published := (cursor_pause b).trans h.published
  restart := (restart_pause b).trans h.restart
  moving := (stalled_pause b).trans h.moving

variable {start : UInt64}

theorem Stands.resume (h : Stands b (start.toNat + kept.length) true kept asked) :
    Stands (b.resume start).1 ((if asked then 0 else start.toNat) + kept.length) false kept false ∧
      (b.resume start).2.toNat = kept.length := by
  have hs : start.toNat ≤ b.sequence := by rw [h.count]; omega
  refine ⟨⟨?_, isPaused_resume h.flag hs, (overflow_resume b start).trans h.contents,
    (cursor_resume b start).trans h.published, restart_resume b start, (stalled_resume b start).trans h.moving⟩, ?_⟩
  · rw [sequence_resume h.flag hs, h.restart, h.count]
    cases asked <;> simp
  · rw [toNat_resume_snd h.flag hs, h.count]
    omega

theorem Stands.drain {pending : UInt64} (h : Stands b n paused kept asked) (hp : pending.toNat = kept.length) :
    Stands (b.drain pending).1 n paused [] asked where
  count := (sequence_drain pending b).trans h.count
  flag := (isPaused_drain pending b).trans h.flag
  contents := rfl
  published := rfl
  restart := (restart_drain pending b).trans h.restart
  moving := (stalled_drain_of_le (Nat.le_of_eq (hp.trans h.published.symm))).trans h.moving

theorem Stands.lift (h : Stands b (start.toNat + kept.length) true kept asked) :
    Stands (lift start b) ((if asked then 0 else start.toNat) + kept.length) false [] false :=
  h.resume.1.drain h.resume.2

namespace Script

def Action.values : Action → List Float
  | .append v times => List.replicate times v
  | .restart => []
  | .look => []

def Action.asks : Action → Bool
  | .restart => true
  | _ => false

def Action.answer (kept : Bool) : Action → Kept
  | .append _ 0 => some false
  | .append _ (_ + 1) => some kept
  | .restart => none
  | .look => none

def values (actions : List Action) : List Float :=
  actions.flatMap Action.values

@[simp] theorem values_nil : values [] = [] := rfl

@[simp] theorem values_cons (a : Action) (as : List Action) : values (a :: as) = a.values ++ values as := rfl

@[simp] theorem values_append (as as' : List Action) : values (as ++ as') = values as ++ values as' := by
  simp [values]

/-- What actions see in turn, from the count `n` on. -/
def seenFrom (paused : Bool) (n : Nat) : List Action → List (Seen Kept)
  | [] => []
  | a :: as =>
    ⟨a.answer paused, UInt64.ofNat (n + a.values.length), paused⟩ ::
      seenFrom paused (n + a.values.length) as

theorem seenFrom_append (paused : Bool) (n : Nat) (as as' : List Action) :
    seenFrom paused n (as ++ as') = seenFrom paused n as ++ seenFrom paused (n + (values as).length) as' := by
  induction as generalizing n with
  | nil => rfl
  | cons a as ih => simp [seenFrom, ih, Nat.add_assoc]

theorem actAll_cons (a : Action) (as : List Action) (b : Buffer) :
    actAll (a :: as) b =
      ((actAll as (act a b).1).1, look (act a b).1 (act a b).2 :: (actAll as (act a b).1).2) := by
  let next (p : Buffer × List (Seen Kept)) (a : Action) : Buffer × List (Seen Kept) :=
    ((act a p.1).1, p.2 ++ [look (act a p.1).1 (act a p.1).2])
  have hacc (as : List Action) (b : Buffer) (seen : List (Seen Kept)) :
      as.foldl next (b, seen) = ((as.foldl next (b, [])).1, seen ++ (as.foldl next (b, [])).2) := by
    induction as generalizing b seen with
    | nil => simp
    | cons a as ih =>
      rw [List.foldl_cons, List.foldl_cons, ih, ih _ (([] : List (Seen Kept)) ++ _)]
      simp
  exact hacc as (act a b).1 [look (act a b).1 (act a b).2]

end Script

open Script

theorem Stands.look {β : Type} (h : Stands b n paused kept asked) (result : β) :
    Script.look b result = ⟨result, UInt64.ofNat n, paused⟩ := by
  rw [Script.look, h.flag, ← h.count, sequence, UInt64.ofNat_toNat]

theorem Stands.appendTimes (h : Stands b n paused kept asked) (v : Float) (times : Nat) (answer : Bool)
    (hroom : n + times < 2 ^ 63) :
    (Script.appendTimes v times b answer).2 = (if times = 0 then answer else paused) ∧
      Stands (Script.appendTimes v times b answer).1 (n + times) paused
        (kept ++ keptOf paused (List.replicate times v)) asked := by
  induction times generalizing b n kept answer with
  | zero => exact ⟨rfl, by simpa [Script.appendTimes] using h⟩
  | succ times ih =>
    obtain ⟨ha,h1⟩ := h.append v (by omega)
    obtain ⟨hb,h2⟩ := ih h1 (b.append v).2 (by omega)
    rw [List.append_assoc, ← keptOf_append, List.singleton_append, ← List.replicate_succ] at h2
    refine ⟨?_, by rwa [Nat.add_right_comm, Nat.add_assoc n] at h2⟩
    rw [Script.appendTimes, hb, ha, ite_self, if_neg (Nat.succ_ne_zero times)]

theorem Stands.act (h : Stands b n paused kept asked) (a : Action) (hroom : n + a.values.length < 2 ^ 63) :
    (Script.act a b).2 = a.answer paused ∧
      Stands (Script.act a b).1 (n + a.values.length) paused (kept ++ keptOf paused a.values) (asked || a.asks) := by
  cases a with
  | append v times =>
    rw [Action.values, List.length_replicate] at hroom ⊢
    obtain ⟨ha,h1⟩ := h.appendTimes v times false hroom
    refine ⟨?_, by simpa [Script.act, Action.asks] using h1⟩
    change some (Script.appendTimes v times b false).2 = _
    rw [ha]
    cases times <;> rfl
  | restart => exact ⟨rfl, by simpa [Script.act, Action.values, Action.asks] using h.requestRestart⟩
  | look => exact ⟨rfl, by simpa [Script.act, Action.values, Action.asks] using h⟩

theorem Stands.actAll (h : Stands b n paused kept asked) (as : List Action)
    (hroom : n + (values as).length < 2 ^ 63) :
    (Script.actAll as b).2 = seenFrom paused n as ∧
      Stands (Script.actAll as b).1 (n + (values as).length) paused (kept ++ keptOf paused (values as))
        (asked || as.any Action.asks) := by
  induction as generalizing b n kept asked with
  | nil => exact ⟨rfl, by simpa [Script.actAll] using h⟩
  | cons a as ih =>
    rw [values_cons, List.length_append] at hroom
    obtain ⟨ha,h1⟩ := h.act a (by omega)
    obtain ⟨hs,h2⟩ := ih h1 (by omega)
    rw [actAll_cons, hs, ha, h1.look, seenFrom]
    exact ⟨rfl, by simpa [keptOf_append, Nat.add_assoc, Bool.or_assoc] using h2⟩

end Metering.Buffer
