/-! # Searching bounds

Two ways to find the first bound that a value does not exceed. The halving search needs the bounds
to be partitioned: all that satisfy the test come before all that do not.
-/
namespace Metering.Search

/-- Halves `[low, high)`; what satisfies the test lies below the answer. -/
def narrow {α : Type} (test : α → Bool) (xs : Array α) (low high : Nat) (h : high ≤ xs.size) : Nat :=
  if hl : low < high then
    have hm : (low + high) / 2 < xs.size := by omega
    if test xs[(low + high) / 2] then narrow test xs ((low + high) / 2 + 1) high h
    else narrow test xs low ((low + high) / 2) (by omega)
  else low
termination_by high - low

/-- The number of leading elements that satisfy the test. -/
def partitionPoint {α : Type} (test : α → Bool) (xs : Array α) : Nat :=
  narrow test xs 0 xs.size (Nat.le_refl _)

/-- The first bound that is at least the value, looked at one after another. -/
def firstAtLeast? (v : Float) (bounds : Array Float) : Option Nat :=
  bounds.findIdx? (v ≤ ·)

end Metering.Search
