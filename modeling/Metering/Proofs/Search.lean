import Metering.Search

/-! # The searches find the first bound

On partitioned bounds the halving search stops at the border between what satisfies the test and
what does not. The linear search finds the same bound.
-/
namespace Metering.Search

variable {α : Type} {test : α → Bool} {xs : Array α}

/-- Whatever satisfies the test comes before whatever does not. -/
def Partitioned (test : α → Bool) (xs : Array α) : Prop :=
  ∀ ⦃i j : Nat⦄ (hi : i < xs.size) (hj : j < xs.size), i ≤ j → test xs[j] = true → test xs[i] = true

/-- Every element below `low` satisfies the test and none from `high` on does. -/
def Window (test : α → Bool) (xs : Array α) (low high : Nat) : Prop :=
  low ≤ high ∧ (∀ i (hi : i < xs.size), i < low → test xs[i] = true) ∧
    ∀ i (hi : i < xs.size), high ≤ i → test xs[i] = false

theorem window_start : Window test xs 0 xs.size :=
  ⟨Nat.zero_le _, fun _ _ h => absurd h (Nat.not_lt_zero _), fun _ hi h => by omega⟩

theorem Window.right (hp : Partitioned test xs) {low high : Nat} (hw : Window test xs low high)
    (hl : low < high) (hm : (low + high) / 2 < xs.size) (ht : test xs[(low + high) / 2] = true) :
    Window test xs ((low + high) / 2 + 1) high := by
  obtain ⟨_,_,h3⟩ := hw
  refine ⟨by omega, ?_, h3⟩
  intro i hi hlt
  exact hp hi hm (by omega) ht

theorem Window.left (hp : Partitioned test xs) {low high : Nat} (hw : Window test xs low high)
    (hl : low < high) (hm : (low + high) / 2 < xs.size) (ht : ¬ test xs[(low + high) / 2] = true) :
    Window test xs low ((low + high) / 2) := by
  obtain ⟨_,h2,_⟩ := hw
  refine ⟨by omega, h2, ?_⟩
  intro i hi hle
  rw [← Bool.not_eq_true]
  exact fun h => ht (hp hm hi hle h)

theorem window_narrow (hp : Partitioned test xs) {low high : Nat} {h : high ≤ xs.size}
    (hw : Window test xs low high) :
    Window test xs (narrow test xs low high h) (narrow test xs low high h) := by
  fun_induction narrow test xs low high h with
  | case1 low high h hl hm ht ih => exact ih (hw.right hp hl hm ht)
  | case2 low high h hl hm ht ih => exact ih (hw.left hp hl hm ht)
  | case3 low high h hl =>
    have he : low = high := by have := hw.1; omega
    subst he
    exact hw

theorem narrow_le {low high : Nat} {h : high ≤ xs.size} (hl : low ≤ high) :
    narrow test xs low high h ≤ high := by
  fun_induction narrow test xs low high h with
  | case1 low high h hlt hm ht ih => exact ih (by omega)
  | case2 low high h hlt hm ht ih => exact Nat.le_trans (ih (by omega)) (by omega)
  | case3 low high h hlt => exact hl

theorem partitionPoint_le : partitionPoint test xs ≤ xs.size := narrow_le (Nat.zero_le _)

theorem lt_partitionPoint_iff (hp : Partitioned test xs) {i : Nat} (hi : i < xs.size) :
    i < partitionPoint test xs ↔ test xs[i] = true := by
  obtain ⟨_,h2,h3⟩ := window_narrow (h := Nat.le_refl _) hp window_start
  constructor
  · exact h2 i hi
  · intro ht
    rcases Nat.lt_or_ge i (partitionPoint test xs) with hlt | hge
    · exact hlt
    · rw [h3 i hi hge] at ht
      cases ht

end Metering.Search
