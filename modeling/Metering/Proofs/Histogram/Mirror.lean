import Metering.Proofs.Buffer.Mirror
import Metering.Proofs.Histogram.OneWay
import Metering.Proofs.Native.Mirror

/-! # Mirrored runs

A run in which every value is negated has the native buckets of its two sides exchanged. What upkeep
looks at is the same on both sides, so that both runs shrink and start over at the same actions. Nothing
is asked of the count of the buffer: where it runs full, it does so in both.
-/
namespace Metering.Histogram
open Native
open HistogramOptions (restlessConfig config_restless)

variable {σ : Type} {config : HistogramConfig} {c : NativeConfig} {h g : Histogram σ} {n : State} {v : Float} {now : Time}
  {p q : Histogram σ × List Event}

/-- The same time, native state up to exchanged sides, count and, but for the signs, buffer. -/
structure Mirrored (c : NativeConfig) (h g : Histogram σ) : Prop where
  limits : h.config.native = some c
  configured : g.config = h.config
  fresh : c.fresh.Bounded c.minZeroThreshold c.maxZeroThreshold
  sides : ∃ n, h.native = some n ∧ g.native = some n.mirror ∧ n.Bounded c.minZeroThreshold c.maxZeroThreshold
  count : g.count = h.count
  created : g.created = h.created
  buffer : g.buffer = h.buffer.mirror
  numbers : h.buffer.Numbers

structure Paired (c : NativeConfig) (p q : Histogram σ × List Event) : Prop where
  mirrored : Mirrored c p.1 q.1
  events : q.2 = p.2

@[simp] theorem overBudget_mirror (c : NativeConfig) (n : State) : overBudget c n.mirror = overBudget c n := rfl

namespace Mirrored

theorem withNative (hm : Mirrored c h g) (hb : n.Bounded c.minZeroThreshold c.maxZeroThreshold) :
    Mirrored c { h with native := some n } { g with native := some n.mirror } :=
  { hm with sides := ⟨n, rfl, rfl, hb⟩ }

theorem withBuffer {b : Buffer} (hm : Mirrored c h g) (hb : b.Numbers) :
    Mirrored c { h with buffer := b } { g with buffer := b.mirror } :=
  { hm with buffer := rfl, numbers := hb }

theorem nativePart (hm : Mirrored c h g) : ∃ n, h.nativePart? = some (n, c) ∧ g.nativePart? = some (n.mirror, c) ∧
    n.Bounded c.minZeroThreshold c.maxZeroThreshold := by
  obtain ⟨n,hn,hn',hb⟩ := hm.sides
  exact ⟨n, nativePart?_eq_some.mpr ⟨hn, hm.limits⟩, nativePart?_eq_some.mpr ⟨hn', hm.configured ▸ hm.limits⟩, hb⟩

theorem upkeep?_eq (hm : Mirrored c h g) (now : Time) (created : Bool) : g.upkeep? now created = h.upkeep? now created := by
  obtain ⟨n,hn,hn',_⟩ := hm.nativePart
  simp only [upkeep?, hn, hn', resetDue, hm.created, State.schema_mirror, overBudget_mirror]
  rfl

theorem apply (hm : Mirrored c h g) (hv : v.isNaN = false) :
    Mirrored c (h.apply v).1 (g.apply (-v)).1 ∧ (g.apply (-v)).2 = (h.apply v).2 := by
  obtain ⟨n,hn,hn',hb⟩ := hm.sides
  have hobserve := hb.toSound.observe_mirror hb.threshold_number hv
  obtain ⟨hs,hcreated⟩ := native_apply (v := v) hn
  obtain ⟨hs',hcreated'⟩ := native_apply (v := -v) hn'
  rw [hobserve] at hs' hcreated'
  exact ⟨{ hm with sides := ⟨_, hs, hs', hb.observe v⟩, count := congrArg (· + 1) hm.count }, hcreated'.trans hcreated.symm⟩

theorem reset [Sampler σ] (hm : Mirrored c h g) (now : Time) : Mirrored c (h.reset now) (g.reset now) where
  limits := hm.limits
  configured := hm.configured
  fresh := hm.fresh
  sides := ⟨c.fresh, native_reset hm.limits now, native_reset (hm.configured ▸ hm.limits) now, hm.fresh⟩
  count := rfl
  created := rfl
  buffer := congrArg Buffer.requestRestart hm.buffer
  numbers := hm.numbers

theorem await (hm : Mirrored c h g) (start : UInt64) : Mirrored c (h.await start) (g.await start) := by
  by_cases hs : h.count = start.toNat
  · rwa [Histogram.await, Histogram.await, if_pos hs, if_pos (hm.count.trans hs)]
  · rw [Histogram.await, Histogram.await, if_neg hs, if_neg (hm.count ▸ hs)]
    exact { hm with buffer := congrArg Buffer.stall hm.buffer, numbers := hm.numbers }

theorem offer [Sampler σ] (hm : Mirrored c h g) (v : Float) (tag : Option Tag) : Mirrored c (h.offer v tag) (g.offer (-v) tag) :=
  { hm with }

/-- After a reset the value is announced once more, and counted unless it is kept. -/
theorem countAgain (hm : Mirrored c h g) (hv : v.isNaN = false) :
    Mirrored c (if (h.buffer.append v).2 then { h with buffer := (h.buffer.append v).1 }
        else replay v { h with buffer := (h.buffer.append v).1 })
      (if (g.buffer.append (-v)).2 then { g with buffer := (g.buffer.append (-v)).1 }
        else replay (-v) { g with buffer := (g.buffer.append (-v)).1 }) := by
  have hannounced := hm.withBuffer (hm.numbers.append hv)
  rw [hm.buffer, Buffer.append_mirror]
  by_cases hk : (h.buffer.append v).2 = true
  · rwa [if_pos hk, if_pos hk]
  · rw [if_neg hk, if_neg hk]
    exact (hannounced.apply hv).1

end Mirrored

namespace Paired

theorem shrink (hp : Paired c p q) : Paired c (shrink note p) (shrink note q) := by
  obtain ⟨hm,hevents⟩ := hp
  obtain ⟨n,hn,hn',hb⟩ := hm.nativePart
  simp only [Histogram.shrink, hn, hn', State.widen?_mirror]
  cases hw : n.widen? c.maxZeroThreshold with
  | some m => exact ⟨hm.withNative (hb.widen hw), congrArg (· ++ _) hevents⟩
  | none =>
    simp only [Option.map_none, State.halve?_mirror]
    cases hh : n.halve? with
    | none => exact ⟨hm, hevents⟩
    | some m =>
      have hhalved := hm.withNative (hb.halve hh)
      simp only [Option.map_some, State.schema_mirror, State.bucketNumber_mirror, overBudget_mirror]
      by_cases hlimit : (m.schema == minSchema && overBudget c m) = true <;> simp only [hlimit, ↓reduceIte]
      · exact ⟨hhalved, congrArg (· ++ _ ++ _) hevents⟩
      · exact ⟨hhalved, congrArg (· ++ _) hevents⟩

variable [Sampler σ]

theorem perform (hp : Paired c p q) (now : Time) (u : Upkeep) : Paired c (perform note now p u) (perform note now q u) := by
  cases u with
  | reset => exact ⟨hp.mirrored.reset now, congrArg (· ++ _) hp.events⟩
  | shrink => exact hp.shrink

theorem maintain (hp : Paired c p q) (now : Time) (u : Upkeep) :
    Paired c (maintain note now u p) (maintain note now u q) := by
  refine (exclusively_mirror (Paired c) (fun _ _ => True) ?_ ?_ ?_ ?_ hp).1
  · exact fun s t h => ⟨h.mirrored.buffer, h.mirrored.numbers⟩
  · exact fun s t b h hb => ⟨h.mirrored.withBuffer hb, h.events⟩
  · intro start s t h
    have hawait : Paired c (s.1.await start, s.2) (t.1.await start, t.2) := ⟨h.mirrored.await start, h.events⟩
    exact ⟨hawait.perform now u, trivial⟩
  · exact fun v s t hv h => ⟨(h.mirrored.apply hv).1, h.events⟩

theorem applyAnnounced (hp : Paired c p q) (now : Time) (hv : v.isNaN = false) :
    Paired c (applyAnnounced note now v p) (applyAnnounced note now (-v) q) := by
  obtain ⟨hm,hevents⟩ := hp
  obtain ⟨happly,hcreated⟩ := hm.apply hv
  simp only [Histogram.applyAnnounced, hcreated, happly.upkeep?_eq]
  cases (p.1.apply v).1.upkeep? now (p.1.apply v).2 with
  | none => exact ⟨happly, hevents⟩
  | some u =>
    have hpaired : Paired c ((p.1.apply v).1, p.2) ((q.1.apply (-v)).1, q.2) := ⟨happly, hevents⟩
    have hmaintain := hpaired.maintain now u
    dsimp only
    generalize Histogram.maintain note now u ((p.1.apply v).1, p.2) = r at hmaintain ⊢
    generalize Histogram.maintain note now u ((q.1.apply (-v)).1, q.2) = r' at hmaintain ⊢
    cases u with
    | shrink => exact hmaintain
    | reset => exact ⟨hmaintain.mirrored.countAgain hv, hmaintain.events⟩

end Paired

variable [Sampler σ]

theorem Mirrored.observe (hm : Mirrored c h g) (now : Time) (v : Float) (tag : Option Tag) :
    Paired c (h.observe now v tag) (g.observe now (-v) tag) := by
  cases hv : v.isNaN with
  | true =>
    have hv' : (-v).isNaN = true := by
      rw [← Bool.not_eq_false]
      intro hn
      rw [Binary64.isNaN_of_neg hn] at hv
      cases hv
    rw [observe_nan hv, observe_nan hv']
    exact ⟨hm, rfl⟩
  | false =>
    have hannounced : Paired c ({ h with buffer := (h.buffer.append v).1 }, [])
        ({ g with buffer := (h.buffer.append v).1.mirror }, []) := ⟨hm.withBuffer (hm.numbers.append hv), rfl⟩
    simp only [Histogram.observe, observeAmid, hv, Binary64.isNaN_neg hv, hm.buffer, Buffer.append_mirror,
      Bool.false_eq_true, ↓reduceIte]
    by_cases hk : (h.buffer.append v).2 = true <;> simp only [hk, ↓reduceIte]
    · exact ⟨hannounced.mirrored.offer v tag, rfl⟩
    · have happlied := hannounced.applyAnnounced now hv
      exact ⟨happlied.mirrored.offer v tag, happlied.events⟩

/-- What a collection reports of mirrored histograms. -/
structure Exchanged (s s' : HistogramSnapshot) : Prop where
  count : s'.count = s.count
  created : s'.created = s.created
  native : ∃ n : State, s.native = some (nativeSnapshot n) ∧ s'.native = some (nativeSnapshot n.mirror)

theorem Mirrored.collect (hm : Mirrored c h g) :
    Mirrored c h.collect.1 g.collect.1 ∧ Exchanged h.collect.2 g.collect.2 := by
  have hemptied : Mirrored c h.emptied g.emptied := { hm with }
  rw [collect_eq, collect_eq]
  refine exclusively_mirror (Mirrored c) Exchanged ?_ ?_ ?_ ?_ hemptied
  · exact fun s t h => ⟨h.buffer, h.numbers⟩
  · exact fun s t b h hb => h.withBuffer hb
  · intro start s t h
    have hawait := h.await start
    obtain ⟨n,hn,hn',_⟩ := hawait.sides
    exact ⟨hawait, hawait.count, hawait.created, n, congrArg (Option.map nativeSnapshot) hn,
      congrArg (Option.map nativeSnapshot) hn'⟩
  · exact fun v s t hv h => (h.apply hv).1

def Act.mirror : Act → Act
  | .observe now v tag => .observe now (-v) tag
  | .collect => .collect

theorem Mirrored.step {r r' : Course σ} (hm : Mirrored c r.histogram r'.histogram) (a : Act) :
    Mirrored c (r.step a).histogram (r'.step a.mirror).histogram ∧ r'.events a.mirror = r.events a := by
  cases a with
  | observe now v tag =>
    have hp := hm.observe now v tag
    exact ⟨hp.mirrored, hp.events⟩
  | collect => exact ⟨hm.collect.1, rfl⟩

theorem mirrored_run (hacc : config.Accepted) (hc : config.native = some c) (created : Time) (sampler : Option σ)
    (acts : List Act) : Mirrored c (Course.run config created sampler acts).histogram
      (Course.run config created sampler (acts.map Act.mirror)).histogram := by
  induction acts using List.reverseRecOn with
  | nil =>
    exact {
      limits := hc
      configured := rfl
      fresh := (hacc.native c hc).bounded
      sides := ⟨c.fresh, native_new hc created sampler, native_new hc created sampler, (hacc.native c hc).bounded⟩
      count := rfl
      created := rfl
      buffer := Buffer.mirror_new.symm
      numbers := fun v hv => absurd hv List.not_mem_nil }
  | append_singleton acts a ih =>
    rw [List.map_append, List.map_singleton, Course.run_snoc, Course.run_snoc]
    exact (ih.step a).1

/-- Negating every observed value exchanges the native buckets of the two sides, and changes neither
the upkeep of any step nor anything else that is reported of the native part. -/
theorem mirror_symmetric {o : HistogramOptions} {c : NativeConfig} (ho : o.config = .ok config)
    (hc : config.native = some c) (created : Time) (sampler : Option σ) (acts : List Act) :
    let r := (Course.run config created sampler acts).report
    let r' := (Course.run config created sampler (acts.map Act.mirror)).report
    r'.count = r.count ∧ r'.created = r.created ∧
    (∃ n n', r.native = some n ∧ r'.native = some n' ∧ n'.schema = n.schema ∧ n'.zeroThreshold = n.zeroThreshold ∧
      n'.zeroCount = n.zeroCount ∧ n'.bucketNumber = n.bucketNumber ∧
      n'.positive = n.negative ∧ n'.negative = n.positive) ∧
    ∀ pre a rest, acts = pre ++ a :: rest →
      (Course.run config created sampler (pre.map Act.mirror)).events a.mirror =
        (Course.run config created sampler pre).events a := by
  intro r r'
  have hacc := HistogramOptions.config_accepted ho
  obtain ⟨hcount,hcreated,n,hn,hn'⟩ := (mirrored_run hacc hc created sampler acts).collect.2
  refine ⟨hcount, hcreated, ⟨_, _, hn, hn', rfl, rfl, rfl, Nat.add_comm _ _, rfl, rfl⟩, ?_⟩
  rintro pre a rest rfl
  exact ((mirrored_run hacc hc created sampler pre).step a).2

/-- The zero bucket is widened twice, and then the resolution is halved. -/
def turbulentRun : List Act :=
  wideningRun ++ [.observe 2 (-100) none, .observe 3 50 none, .collect]

theorem mirror_symmetric_turbulent :
    (∃ n' ∈ (Course.run restlessConfig 0 unsampled (turbulentRun.map Act.mirror)).report.native,
      n'.schema = -1 ∧ n'.zeroCount = 2 ∧ n'.positive = [(4, 1)] ∧ n'.negative = [(3, 1)]) ∧
    (Course.run restlessConfig 0 unsampled (turbulentRun.map Act.mirror)).events (.observe 20 (-6) none) = [.reset] := by
  have hnative : (Course.run restlessConfig 0 unsampled turbulentRun).report.native.map
      (fun n => (n.schema, n.zeroCount, n.positive, n.negative)) = some (-1, 2, [(3, 1)], [(4, 1)]) := by
    decide +kernel
  have hreset : (Course.run restlessConfig 0 unsampled turbulentRun).events (.observe 20 6 none) = [.reset] := by
    decide +kernel
  obtain ⟨_,_,⟨n,n',hn,hn',hschema,_,hzero,_,hpos,hneg⟩,_⟩ :=
    mirror_symmetric config_restless rfl 0 unsampled turbulentRun
  obtain ⟨_,_,_,hevents⟩ := mirror_symmetric config_restless rfl 0 unsampled (turbulentRun ++ [.observe 20 6 none])
  rw [hn, Option.map_some, Option.some.injEq] at hnative
  simp only [Prod.mk.injEq] at hnative
  obtain ⟨h1,h2,h3,h4⟩ := hnative
  refine ⟨⟨n', hn', hschema.trans h1, hzero.trans h2, hpos.trans h4, hneg.trans h3⟩, ?_⟩
  exact (hevents turbulentRun (.observe 20 6 none) [] rfl).trans hreset

end Metering.Histogram
