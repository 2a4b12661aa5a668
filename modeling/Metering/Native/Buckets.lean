import Metering.Native.Bucket

/-! # Sparse buckets

The populated buckets of one sign: key and count, by ascending key, each key once.
-/
namespace Metering.Native

abbrev Buckets := List (Int × Nat)

namespace Buckets

def contains (key : Int) (b : Buckets) : Bool :=
  b.any (·.1 == key)

def add (key : Int) (n : Nat) : Buckets → Buckets
  | [] => [(key, n)]
  | (k, c) :: rest =>
    if key < k then (key, n) :: (k, c) :: rest
    else if key = k then (k, c + n) :: rest
    else (k, c) :: add key n rest

def smallest? (b : Buckets) : Option Int :=
  b.head?.map Prod.fst

def count (key : Int) (b : Buckets) : Nat :=
  (b.lookup key).getD 0

def erase (key : Int) (b : Buckets) : Buckets :=
  b.filter (·.1 != key)

def total (b : Buckets) : Nat :=
  b.foldr (fun kc n => kc.2 + n) 0

def halve (b : Buckets) : Buckets :=
  b.foldl (fun merged kc => merged.add (halvedIndex kc.1) kc.2) []

@[simp] theorem total_nil : total [] = 0 := rfl

@[simp] theorem total_cons (kc : Int × Nat) (b : Buckets) :
    total (kc :: b) = kc.2 + total b := rfl

@[simp] theorem total_add (key : Int) (n : Nat) (b : Buckets) :
    total (add key n b) = total b + n := by
  induction b with
  | nil => simp [add]
  | cons kc rest ih =>
    obtain ⟨k, c⟩ := kc
    by_cases h : key < k
    · simp [add, h]
      omega
    · by_cases he : key = k
      · simp [add, he]
        omega
      · simp [add, h, he, ih]
        omega

theorem total_foldl_add (f : Int → Int) (b merged : Buckets) :
    total (b.foldl (fun m kc => add (f kc.1) kc.2 m) merged) = total merged + total b := by
  induction b generalizing merged with
  | nil => simp
  | cons kc rest ih =>
    rw [List.foldl_cons, ih, total_add, total_cons]
    omega

@[simp] theorem total_halve (b : Buckets) : total (halve b) = total b := by
  simpa [halve] using total_foldl_add halvedIndex b []

end Buckets
end Metering.Native
