import Metering.Proofs.Histogram.Calls

/-! # What recording leaves alone

No call changes the configuration, the number of classic buckets or whether there are native ones, and what only an
offer changes of a sampler stays: upkeep goes past it, however often a value is applied.
-/
namespace Metering.Histogram

variable {σ : Type} [Sampler σ]

/-- A view of samplers that only offers change. -/
structure Tallying {β : Type} (view : σ → β) : Prop where
  reset : ∀ s, view (Sampler.reset s) = view s
  collect : ∀ s, view (Sampler.collect s).2 = view s

/-- All that recording leaves as it is. -/
structure Framed (h g : Histogram σ) : Prop where
  config : g.config = h.config
  classic : g.classic.size = h.classic.size
  native : h.native.isSome = h.config.native.isSome → g.native.isSome = g.config.native.isSome
  sampler : ∀ {β : Type} {view : σ → β}, Tallying view → g.sampler.map view = h.sampler.map view

variable {h g k : Histogram σ}

theorem Framed.refl (h : Histogram σ) : Framed h h :=
  ⟨rfl, rfl, id, fun _ => rfl⟩

theorem Framed.trans (hg : Framed h g) (hk : Framed g k) : Framed h k where
  config := hk.config.trans hg.config
  classic := hk.classic.trans hg.classic
  native := fun hn => hk.native (hg.native hn)
  sampler := fun hview => (hk.sampler hview).trans (hg.sampler hview)

theorem Framed.withBuffer (hg : Framed h g) (b : Buffer) : Framed h { g with buffer := b } :=
  ⟨hg.config, hg.classic, hg.native, hg.sampler⟩

theorem framed_apply (v : Float) (h : Histogram σ) : Framed h (h.apply v).1 where
  config := rfl
  classic := by
    unfold apply
    dsimp only
    split
    · exact Array.size_modify
    · rfl
  native := by
    unfold apply
    cases h.native <;> exact id
  sampler := fun _ => rfl

theorem framed_reset (now : Time) (h : Histogram σ) : Framed h (h.reset now) where
  config := rfl
  classic := Array.size_map
  native := fun _ => Option.isSome_map
  sampler := by
    intro β view hview
    rw [Histogram.reset, Option.map_map]
    exact congrArg (h.sampler.map ·) (funext hview.reset)

theorem framed_emptied (h : Histogram σ) : Framed h h.emptied where
  config := rfl
  classic := rfl
  native := id
  sampler := by
    intro β view hview
    rw [emptied]
    cases h.sampler with
    | none => rfl
    | some s => exact congrArg some (hview.collect s)

omit [Sampler σ] in
theorem isSome_native_shrink (h : Histogram σ) (w : List Event) :
    (shrink note (h, w)).1.native.isSome = h.native.isSome := by
  rw [shrink]
  dsimp only
  cases hpart : h.nativePart? with
  | none => rfl
  | some nc =>
    obtain ⟨n,c⟩ := nc
    obtain ⟨hn,_⟩ := nativePart?_eq_some.mp hpart
    rw [hn]
    dsimp only
    cases n.widen? c.maxZeroThreshold with
    | some n' => rfl
    | none =>
      dsimp only
      cases n.halve? with
      | none => exact congrArg Option.isSome hn
      | some n' =>
        dsimp only
        split <;> rfl

theorem framed_shrink (h : Histogram σ) (w : List Event) : Framed h (shrink note (h, w)).1 where
  config := by rw [shrink_fst]
  classic := by rw [shrink_fst]
  native := by
    intro hn
    have hconfig : (shrink note (h, w)).1.config = h.config := by rw [shrink_fst]
    rw [isSome_native_shrink, hconfig, hn]
  sampler := fun _ => by rw [shrink_fst]

theorem framed_await (start : UInt64) (h : Histogram σ) : Framed h (h.await start) := by
  rw [await]
  split
  · exact .refl h
  · exact (Framed.refl h).withBuffer _

theorem framed_perform (now : Time) (u : Upkeep) (h : Histogram σ) (w : List Event) :
    Framed h (perform note now (h, w) u).1 := by
  cases u with
  | reset => exact framed_reset now h
  | shrink => exact framed_shrink h w

theorem framed_maintain (now : Time) (u : Upkeep) (h : Histogram σ) (w : List Event) :
    Framed h (maintain note now u (h, w)).1 := by
  refine (exclusively_keeps (fun s : Histogram σ × List Event => Framed h s.1) (fun _ => True)
    (fun b _ hs => hs.withBuffer b) (fun start s hs => ⟨?_, trivial⟩) (fun v s hs => ?_) (Framed.refl h)).1
  · exact hs.trans ((framed_await start s.1).trans (framed_perform now u _ s.2))
  · exact hs.trans (framed_apply v s.1)

theorem framed_applyAnnounced (now : Time) (v : Float) (h : Histogram σ) (w : List Event) :
    Framed h (applyAnnounced note now v (h, w)).1 := by
  have happly := framed_apply v h
  unfold applyAnnounced
  dsimp only
  cases (h.apply v).1.upkeep? now (h.apply v).2 with
  | none => exact happly
  | some u =>
    have hmaintain := happly.trans (framed_maintain now u (h.apply v).1 w)
    dsimp only
    generalize maintain note now u ((h.apply v).1, w) = s at *
    split
    · dsimp only
      split
      · exact hmaintain.withBuffer _
      · exact (hmaintain.withBuffer _).trans (framed_apply v _)
    · exact hmaintain

/-- A value is offered once, after all that it calls for. -/
theorem observe_framed {v : Float} (hv : v.isNaN = false) (now : Time) (tag : Option Tag) (h : Histogram σ) :
    ∃ g, Framed h g ∧ (h.observe now v tag).1 = g.offer v tag := by
  unfold observe observeAmid
  rw [hv, if_neg Bool.false_ne_true]
  dsimp only
  cases (h.buffer.append v).2 with
  | true => exact ⟨_, (Framed.refl h).withBuffer _, rfl⟩
  | false => exact ⟨_, ((Framed.refl h).withBuffer _).trans (framed_applyAnnounced now v _ []), rfl⟩

theorem collect_framed (h : Histogram σ) :
    Framed h h.collect.1 ∧ ∃ g, Framed h g ∧ h.collect.2 = g.snapshot (Sampler.handOver h.sampler).1 := by
  rw [collect_eq]
  refine exclusively_keeps (Framed h)
    (fun s => ∃ g, Framed h g ∧ s = g.snapshot (Sampler.handOver h.sampler).1)
    (fun b _ hs => hs.withBuffer b) (fun start s hs => ?_) (fun v s hs => hs.trans (framed_apply v s)) (framed_emptied h)
  have hawait := hs.trans (framed_await start s)
  exact ⟨hawait, _, hawait, rfl⟩

structure Shaped (c : HistogramConfig) (h : Histogram σ) : Prop where
  config : h.config = c
  classic : h.classic.size = c.bounds.size
  native : h.native.isSome = c.native.isSome

variable {c : HistogramConfig}

theorem Shaped.framed (hs : Shaped c h) (hg : Framed h g) : Shaped c g where
  config := hg.config.trans hs.config
  classic := hg.classic.trans hs.classic
  native := by
    have hn := hg.native (by rw [hs.native, hs.config])
    rw [hn, hg.config, hs.config]

theorem Shaped.offer (hs : Shaped c h) (v : Float) (tag : Option Tag) : Shaped c (h.offer v tag) :=
  ⟨hs.config, hs.classic, hs.native⟩

theorem Shaped.after_call (hs : Shaped c h) (a : Act) : Shaped c (h.call a).1 := by
  cases a with
  | observe now v tag =>
    cases hv : v.isNaN with
    | true =>
      rw [call, observe_nan hv]
      exact hs
    | false =>
      obtain ⟨g,hg,heq⟩ := observe_framed hv now tag h
      rw [call, heq]
      exact (hs.framed hg).offer v tag
  | collect => exact hs.framed (collect_framed h).1

/-- A histogram keeps its shape in every run, however long. -/
theorem shaped_run (c : HistogramConfig) (created : Time) (sampler : Option σ) (acts : List Act) :
    Shaped c (Course.run c created sampler acts).histogram := by
  rw [histogram_run]
  exact List.foldlRecOn _ _ ⟨rfl, Array.size_map, Option.isSome_map⟩ fun h hs a _ => hs.after_call a

end Metering.Histogram
