import Metering.Proofs.Native.Sound

/-! # Halving against recording

Counting values and merging buckets may be done in any order. What recorded values and was then halved is
what recorded them one schema lower.
-/
namespace Metering.Native
open Binary64 Buckets

namespace Buckets

theorem add_add_comm (j k : Int) (m n : Nat) (b : Buckets) : (b.add j m).add k n = (b.add k n).add j m := by
  induction b with
  | nil => grind [add]
  | cons kc rest ih =>
    obtain ⟨i,c⟩ := kc
    grind [add]

theorem add_add_self (key : Int) (m n : Nat) (b : Buckets) : (b.add key m).add key n = b.add key (m + n) := by
  induction b with
  | nil => simp [add]
  | cons kc rest ih =>
    obtain ⟨i,c⟩ := kc
    grind [add]

theorem foldl_add_add (f : Int → Int) (key : Int) (n : Nat) (b merged : Buckets) :
    b.foldl (fun m kc => m.add (f kc.1) kc.2) (merged.add key n) =
      (b.foldl (fun m kc => m.add (f kc.1) kc.2) merged).add key n := by
  induction b generalizing merged with
  | nil => rfl
  | cons kc rest ih => rw [List.foldl_cons, List.foldl_cons, add_add_comm, ih]

/-- A count that is added before buckets are merged is added to the merged bucket. -/
theorem foldl_add (f : Int → Int) (key : Int) (n : Nat) (b merged : Buckets) :
    (b.add key n).foldl (fun m kc => m.add (f kc.1) kc.2) merged =
      (b.foldl (fun m kc => m.add (f kc.1) kc.2) merged).add (f key) n := by
  induction b generalizing merged with
  | nil => rfl
  | cons kc rest ih =>
    obtain ⟨k,c⟩ := kc
    rw [add]
    split
    · exact foldl_add_add f (f key) n ((k, c) :: rest) merged
    · split
      next hk =>
        rw [hk, List.foldl_cons, List.foldl_cons, ← add_add_self, foldl_add_add]
      next => exact ih _

theorem halve_add (key : Int) (n : Nat) (b : Buckets) : (b.add key n).halve = b.halve.add (halvedIndex key) n :=
  foldl_add halvedIndex key n b []

theorem contains_add (key : Int) (n : Nat) (other : Int) (b : Buckets) :
    (b.add key n).contains other = (b.contains other || key == other) := by
  induction b with
  | nil => simp [add, contains]
  | cons kc rest ih =>
    obtain ⟨k,c⟩ := kc
    grind [add, contains]

end Buckets

namespace State

variable {s s' : State} {v : Float}

theorem observe_observe (v w : Float) (s : State) :
    ((s.observe v).1.observe w).1 = ((s.observe w).1.observe v).1 := by
  simp only [observe]
  -- On one side the counts commute, and of two equal keys only the first creates a bucket.
  grind [add_add_comm, contains_add]

def record (vs : List Float) (s : State) : State :=
  vs.foldl (fun s v => (s.observe v).1) s

theorem record_perm {vs ws : List Float} (h : vs.Perm ws) (s : State) : record vs s = record ws s :=
  h.foldl_eq' (fun v _ w _ s => observe_observe v w s) s

theorem sound_fresh {schema : Int} {t : Float} (h4 : minSchema ≤ schema) (h8 : schema ≤ maxSchema) (ht : 0 ≤ t) :
    Sound { schema, zeroThreshold := t } where
  coarsest := h4
  finest := h8
  threshold := (le_iff_rank rfl (isNaN_of_le ht).2).mp ht
  positive := tidy_nil
  negative := tidy_nil
  number := rfl
  positive_keys := fun _ hm => nomatch hm
  negative_keys := fun _ hm => nomatch hm

/-- Sound states with the same buckets have the same number of them. -/
theorem Sound.eq_of_buckets (h : Sound s) (h' : Sound s') (hs : s.schema = s'.schema)
    (ht : s.zeroThreshold = s'.zeroThreshold) (hz : s.zeroCount = s'.zeroCount)
    (hp : s.positive = s'.positive) (hn : s.negative = s'.negative) : s = s' := by
  have hb : s.bucketNumber = s'.bucketNumber := by rw [h.number, h'.number, hp, hn]
  cases s
  cases s'
  simp_all only

theorem halve?_of_lt (h4 : minSchema < s.schema) : ∃ g, s.halve? = some g := by
  rw [halve?, if_neg (by omega)]
  exact ⟨_, rfl⟩

/-- The halved state counts a value in the bucket that its bucket is merged into. -/
theorem Sound.observe_halve (h : Sound s) {g g' : State} (hg : s.halve? = some g)
    (hg' : (s.observe v).1.halve? = some g') : g' = (g.observe v).1 := by
  -- Both are sound, so that only the buckets and what counts as zero are to be compared.
  apply ((h.observe v).halve hg').eq_of_buckets ((h.halve hg).observe v)
  all_goals
    obtain ⟨h4,rfl⟩ := halve?_eq_some hg
    obtain ⟨_,rfl⟩ := halve?_eq_some hg'
    by_cases ha : s.zeroThreshold < v
    · obtain ⟨hn,hp⟩ := pos_of_above h.threshold ha
      simp only [observe_above, ha, halve_add, halvedIndex_bucketIndex hn hp h4 h.finest]
    · by_cases hb : v < -s.zeroThreshold
      · obtain ⟨hn,hp⟩ := pos_of_below h.threshold hb
        simp only [observe_below, ha, hb, halve_add, halvedIndex_bucketIndex hn hp h4 h.finest, not_false_iff]
      · simp only [observe_within, ha, hb, not_false_iff]

/-- Whether a value is counted before the buckets are halved or after is all one. -/
theorem Sound.halve?_observe (h : Sound s) (v : Float) :
    (s.observe v).1.halve? = s.halve?.map fun s => (s.observe v).1 := by
  rcases Int.lt_or_le minSchema s.schema with h4 | h4
  · obtain ⟨g,hg⟩ := halve?_of_lt h4
    obtain ⟨g',hg'⟩ := halve?_of_lt (s := (s.observe v).1) (by rwa [schema_observe])
    rw [hg, hg', h.observe_halve hg hg']
    rfl
  · rw [halve?, halve?, schema_observe, if_pos h4, if_pos h4]
    rfl

theorem Sound.halve?_record (h : Sound s) (vs : List Float) :
    (record vs s).halve? = s.halve?.map (record vs) := by
  induction vs generalizing s with
  | nil => exact Option.map_id'.symm
  | cons v vs ih =>
    change (record vs (s.observe v).1).halve? = s.halve?.map fun s => record vs (s.observe v).1
    rw [ih (h.observe v), h.halve?_observe v, Option.map_map]
    rfl

end State

open State in
/-- Halving commutes with indexing, and so with recording: the state that recorded values in any order becomes
the one that recorded them one schema lower. -/
theorem halving_commutes {schema : Int} (h4 : minSchema < schema) (h8 : schema ≤ maxSchema) :
    (∀ v : Float, 0 < v → halvedIndex (bucketIndex v schema) = bucketIndex v (schema - 1)) ∧
      ∀ (t : Float) (vs ws : List Float), 0 ≤ t → vs.Perm ws →
        (record vs { schema, zeroThreshold := t }).halve? =
          some (record ws { schema := schema - 1, zeroThreshold := t }) := by
  constructor
  · intro v hv
    obtain ⟨hn,hp⟩ := pos_of_above (t := 0) (by decide +kernel) hv
    exact halvedIndex_bucketIndex hn hp h4 h8
  · intro t vs ws ht hw
    have hs := sound_fresh h4.le h8 ht
    rw [record_perm hw, hs.halve?_record, halve?, if_neg (by dsimp only; omega)]
    rfl

open State in
/-- Bounds between powers of two give way to the powers themselves. -/
theorem halving_commutes_at_one :
    (0 < infinity ∧ halvedIndex (bucketIndex infinity 1) = bucketIndex infinity (1 - 1)) ∧
      (record [3, -3, infinity, 1e-310, 0] { schema := 1, zeroThreshold := 0 }).halve? =
        some (record [0, 1e-310, infinity, -3, 3] { schema := 1 - 1, zeroThreshold := 0 }) := by
  have h := @halving_commutes 1 (by decide) (by decide)
  have h0 : (0 : Float) < infinity := by decide +kernel
  exact ⟨⟨h0, h.1 infinity h0⟩, h.2 0 [3, -3, infinity, 1e-310, 0] _ (by decide +kernel) (List.reverse_perm _).symm⟩

end Metering.Native
