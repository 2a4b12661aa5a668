import Metering.Proofs.Binary64.Quotient
import Metering.Stress.Run

/-! # Orders of a stress run

Writers and scrapes are executed one call after another in any order that keeps the calls of each writer in
theirs, and the clock moves as it likes. At every place of such an order a writer has opened its series, and
what it observes is a number.
-/
namespace Metering.Stress
open Binary64

def Call.worker? : Call → Option Nat
  | .openLatency worker | .openJobs worker | .observe worker _ | .increment worker => some worker
  | .scrape | .advance _ => none

def callsOf (worker : Nat) (calls : List Call) : List Call :=
  calls.filter fun c => c.worker? == some worker

/-- Each writer makes its calls in their order, and there is nothing else but scrapes and time that passes. -/
structure Interleaved (exp2 : Float → Float) (a : Arguments) (calls : List Call) : Prop where
  writers : ∀ worker < a.threads, callsOf worker calls = writer exp2 worker a.observations
  others : ∀ worker, a.threads ≤ worker → callsOf worker calls = []

def Call.observes (worker : Nat) : Call → Bool
  | .observe w _ => w == worker
  | _ => false

def Call.increments (worker : Nat) : Call → Bool
  | .increment w => w == worker
  | _ => false

/-- What a call needs of those before it. -/
inductive Ready (done : List Call) : Call → Prop
  | openLatency (worker : Nat) : Ready done (.openLatency worker)
  | openJobs (worker : Nat) : Ready done (.openJobs worker)
  | observe {worker : Nat} {v : Float} (ho : .openLatency worker ∈ done) (hv : v.isNaN = false)
      (hroom : done.countP (Call.observes worker) < 2 ^ 53) : Ready done (.observe worker v)
  | increment {worker : Nat} (ho : .openJobs worker ∈ done)
      (hroom : done.countP (Call.increments worker) < 2 ^ 53) : Ready done (.increment worker)
  | scrape : Ready done .scrape
  | advance (ns : Int) : Ready done (.advance ns)

variable {exp2 : Float → Float} {a : Arguments} {calls done rest : List Call} {c : Call} {worker : Nat}

theorem Ready.openLatency_mem (hr : Ready done c) (hc : c.observes worker = true) : .openLatency worker ∈ done := by
  cases hr with
  | observe ho => exact beq_iff_eq.mp hc ▸ ho
  | _ => exact absurd hc Bool.false_ne_true

theorem Ready.openJobs_mem (hr : Ready done c) (hc : c.increments worker = true) : .openJobs worker ∈ done := by
  cases hr with
  | increment ho => exact beq_iff_eq.mp hc ▸ ho
  | _ => exact absurd hc Bool.false_ne_true

/-- Samples are numbers as soon as the powers of two from 0 up to 100 are. -/
theorem isNaN_sampleBy (hexp : ∀ x : Float, 0 ≤ x → x < 100 → (exp2 x).isNaN = false) (worker : Nat) (i : UInt64) :
    (sampleBy exp2 worker i).isNaN = false := by
  have hbound : (((i * 2654435761) ^^^ worker.toUInt64) % 100000).toNat < 100000 := by
    rw [UInt64.toNat_mod]
    exact Nat.mod_lt _ (by decide)
  obtain ⟨hlow,hhigh⟩ := thousandth hbound
  have hpower := hexp _ hlow hhigh
  have hquotient := isNaN_div (y := 1000000000000) hpower (by decide) (by decide)
  simp only [sampleBy]
  split
  · exact isNaN_neg hquotient
  · exact hquotient

theorem countP_callsOf {p : Call → Bool} (hp : ∀ c, p c = true → c.worker? = some worker) (calls : List Call) :
    (callsOf worker calls).countP p = calls.countP p := by
  rw [callsOf, List.countP_filter]
  refine List.countP_congr fun c _ => ?_
  constructor
  · intro h
    exact (Bool.and_eq_true _ _ ▸ h).1
  · intro h
    simp [h, hp c h]

theorem worker?_of_observes (h : c.observes worker = true) : c.worker? = some worker := by
  cases c <;> simp_all [Call.observes, Call.worker?]

theorem worker?_of_increments (h : c.increments worker = true) : c.worker? = some worker := by
  cases c <;> simp_all [Call.increments, Call.worker?]

theorem countP_observes_callsOf (worker : Nat) (calls : List Call) :
    (callsOf worker calls).countP (Call.observes worker) = calls.countP (Call.observes worker) :=
  countP_callsOf (fun _ => worker?_of_observes) calls

theorem countP_increments_callsOf (worker : Nat) (calls : List Call) :
    (callsOf worker calls).countP (Call.increments worker) = calls.countP (Call.increments worker) :=
  countP_callsOf (fun _ => worker?_of_increments) calls

theorem countP_observes_writer (exp2 : Float → Float) (worker count : Nat) :
    (writer exp2 worker count).countP (Call.observes worker) = count := by
  simp [writer, List.countP_flatMap, Function.comp_def, Call.observes]

theorem countP_increments_writer (exp2 : Float → Float) (worker count : Nat) :
    (writer exp2 worker count).countP (Call.increments worker) = count := by
  simp [writer, List.countP_flatMap, Function.comp_def, Call.increments]

theorem mem_callsOf {w : Nat} : c ∈ callsOf w calls ↔ c ∈ calls ∧ c.worker? = some w := by
  simp [callsOf]

theorem worker?_of_mem_writer {count : Nat} (hc : c ∈ writer exp2 worker count) : c.worker? = some worker := by
  simp only [writer, List.mem_cons, List.mem_flatMap, List.not_mem_nil, or_false] at hc
  rcases hc with rfl | rfl | ⟨i,_,rfl | rfl⟩ <;> rfl

theorem callsOf_writer (exp2 : Float → Float) (w worker count : Nat) :
    callsOf w (writer exp2 worker count) = if worker = w then writer exp2 worker count else [] := by
  split
  · next heq =>
    refine List.filter_eq_self.mpr fun c hc => ?_
    simp [worker?_of_mem_writer hc, heq]
  · next hne =>
    refine List.filter_eq_nil_iff.mpr fun c hc => ?_
    simp [worker?_of_mem_writer hc, hne]

/-- One writer after another is one of the orders. -/
theorem interleaved_inTurn (exp2 : Float → Float) (a : Arguments) : Interleaved exp2 a (inTurn exp2 a) := by
  have hcalls (w n : Nat) : callsOf w ((List.range n).flatMap fun worker => writer exp2 worker a.observations) =
      if w < n then writer exp2 w a.observations else [] := by
    induction n with
    | zero => rfl
    | succ n ih =>
      rw [List.range_succ, List.flatMap_append, List.flatMap_singleton, callsOf, List.filter_append]
      refine (congrArg₂ (· ++ ·) ih (callsOf_writer exp2 w n a.observations)).trans ?_
      rcases Nat.lt_trichotomy w n with hlt | rfl | hgt
      · simp [hlt, Nat.lt_succ_of_lt hlt, Nat.ne_of_gt hlt]
      · simp
      · simp [Nat.not_lt.mpr hgt.le, Nat.not_lt.mpr (Nat.succ_le_of_lt hgt), Nat.ne_of_lt hgt]
  constructor
  · intro worker hw
    exact (hcalls worker a.threads).trans (if_pos hw)
  · intro worker hw
    exact (hcalls worker a.threads).trans (if_neg (Nat.not_lt.mpr hw))

namespace Interleaved

theorem worker_lt (h : Interleaved exp2 a calls) (hc : c ∈ calls) (hw : c.worker? = some worker) : worker < a.threads := by
  by_contra hge
  have hmem := mem_callsOf.mpr ⟨hc, hw⟩
  rw [h.others worker (Nat.not_lt.mp hge)] at hmem
  exact absurd hmem List.not_mem_nil

theorem split (h : Interleaved exp2 a (done ++ c :: rest)) (hw : c.worker? = some worker) :
    callsOf worker done ++ c :: callsOf worker rest = writer exp2 worker a.observations := by
  rw [← h.writers worker (h.worker_lt (by simp) hw)]
  simp [callsOf, hw]

theorem observations_lt (h : Interleaved exp2 a calls) (hsize : a.threads * a.observations < 2 ^ 53) (hc : c ∈ calls)
    (hw : c.worker? = some worker) : a.observations < 2 ^ 53 :=
  (Nat.le_mul_of_pos_left _ (Nat.zero_lt_of_lt (h.worker_lt hc hw))).trans_lt hsize

theorem openLatency_mem (h : Interleaved exp2 a (done ++ c :: rest)) (hw : c.worker? = some worker)
    (hc : c ≠ .openLatency worker) : .openLatency worker ∈ done := by
  have hsplit := h.split hw
  cases hd : callsOf worker done with
  | nil =>
    rw [hd] at hsplit
    exact absurd (List.cons.inj hsplit).1 hc
  | cons x xs =>
    rw [hd] at hsplit
    obtain ⟨rfl,_⟩ := List.cons.inj hsplit
    exact (mem_callsOf.mp (hd ▸ List.mem_cons_self)).1

theorem openJobs_mem (h : Interleaved exp2 a (done ++ c :: rest)) (hw : c.worker? = some worker)
    (hc : c ≠ .openLatency worker) (hc' : c ≠ .openJobs worker) : .openJobs worker ∈ done := by
  have hsplit := h.split hw
  match hd : callsOf worker done with
  | [] =>
    rw [hd] at hsplit
    exact absurd (List.cons.inj hsplit).1 hc
  | [x] =>
    rw [hd] at hsplit
    exact absurd (List.cons.inj (List.cons.inj hsplit).2).1 hc'
  | x :: y :: xs =>
    rw [hd] at hsplit
    obtain ⟨rfl,_⟩ := List.cons.inj (List.cons.inj hsplit).2
    exact (mem_callsOf.mp (hd ▸ List.mem_cons_of_mem x List.mem_cons_self)).1

/-- Of one kind of calls a writer has made fewer than it makes in all. -/
theorem countP_lt (h : Interleaved exp2 a (done ++ c :: rest)) {p : Call → Bool}
    (hp : ∀ c, p c = true → c.worker? = some worker) (hc : p c = true) :
    done.countP p < (writer exp2 worker a.observations).countP p := by
  rw [← h.split (hp c hc), List.countP_append, List.countP_cons_of_pos hc, countP_callsOf hp]
  omega

theorem isNaN_of_observe (h : Interleaved exp2 a calls) (hexp : ∀ x : Float, 0 ≤ x → x < 100 → (exp2 x).isNaN = false)
    {v : Float} (hc : .observe worker v ∈ calls) : v.isNaN = false := by
  have hmem : Call.observe worker v ∈ callsOf worker calls := mem_callsOf.mpr ⟨hc, rfl⟩
  rw [h.writers worker (h.worker_lt hc rfl)] at hmem
  simp only [writer, List.mem_cons, List.mem_flatMap, reduceCtorEq, List.not_mem_nil, or_false, false_or,
    Call.observe.injEq, true_and] at hmem
  obtain ⟨i,_,rfl⟩ := hmem
  exact isNaN_sampleBy hexp worker i.toUInt64

/-- Every call of the order finds what it needs. -/
theorem ready (h : Interleaved exp2 a (done ++ c :: rest)) (hsize : a.threads * a.observations < 2 ^ 53)
    (hexp : ∀ x : Float, 0 ≤ x → x < 100 → (exp2 x).isNaN = false) : Ready done c := by
  have hmem : c ∈ done ++ c :: rest := List.mem_append_right done List.mem_cons_self
  cases c with
  | openLatency worker => exact .openLatency worker
  | openJobs worker => exact .openJobs worker
  | scrape => exact .scrape
  | advance ns => exact .advance ns
  | observe worker v =>
    have hcount : done.countP (Call.observes worker) < a.observations := by
      have hlt := h.countP_lt (fun _ => worker?_of_observes) (beq_self_eq_true worker)
      rwa [countP_observes_writer] at hlt
    exact .observe (h.openLatency_mem rfl Call.noConfusion) (h.isNaN_of_observe hexp hmem)
      (hcount.trans (h.observations_lt hsize hmem rfl))
  | increment worker =>
    have hcount : done.countP (Call.increments worker) < a.observations := by
      have hlt := h.countP_lt (fun _ => worker?_of_increments) (beq_self_eq_true worker)
      rwa [countP_increments_writer] at hlt
    exact .increment (h.openJobs_mem rfl Call.noConfusion Call.noConfusion) (hcount.trans (h.observations_lt hsize hmem rfl))

/-- In the end each writer has opened its series and made all its observations. -/
theorem finished (h : Interleaved exp2 a calls) (hw : worker < a.threads) :
    .openLatency worker ∈ calls ∧ .openJobs worker ∈ calls ∧
      calls.countP (Call.observes worker) = a.observations ∧ calls.countP (Call.increments worker) = a.observations := by
  have hcalls := h.writers worker hw
  have hlatency : .openLatency worker ∈ callsOf worker calls := by simp [hcalls, writer]
  have hjobs : .openJobs worker ∈ callsOf worker calls := by simp [hcalls, writer]
  refine ⟨(mem_callsOf.mp hlatency).1, (mem_callsOf.mp hjobs).1, ?_, ?_⟩
  · rw [← countP_observes_callsOf, hcalls, countP_observes_writer]
  · rw [← countP_increments_callsOf, hcalls, countP_increments_writer]

end Interleaved
end Metering.Stress
