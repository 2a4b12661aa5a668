import Metering.Proofs.Native.Bound

/-! # Indices as words of 32 bits

The index of a value step by step, each step an operation on signed words of 32 bits that has no
result where it overflows. For a positive value at a supported schema every step has one.
-/
namespace Metering.Native.Words
open Binary64

def word (n : Int) : Option Int :=
  if -0x80000000 ≤ n ∧ n < 0x80000000 then some n else none

def shiftLeft (n bits : Int) : Option Int :=
  if 0 ≤ bits ∧ bits < 32 then word (n * 2 ^ bits.toNat) else none

def shiftRight (n bits : Int) : Option Int :=
  if 0 ≤ bits ∧ bits < 32 then some (n / 2 ^ bits.toNat) else none

def splitNormal (x : Float) : Option (Float × Int) := do
  let biased ← word (field x)
  let e ← word (biased - 1022)
  return ((Binary64.splitNormal x).1, e)

def split (x : Float) : Option (Float × Int) :=
  if x == 0 || !isFinite x then some (x, 0)
  else if field x = 0 then do
    let (f, e) ← splitNormal (x * power 2 64)
    let e ← word (e - 64)
    return (f, e)
  else splitNormal x

/-- The position in a table, after the tables of all powers of two below. -/
def fine (position size : Nat) (e : Int) : Option Int := do
  let position ← word position
  let above ← word (e - 1)
  let size ← word size
  let offset ← word (above * size)
  word (position + offset)

def lowered (half : Bool) (e : Int) : Option Int :=
  if half then word (e - 1) else some e

/-- The exponent, shifted and rounded up. -/
def coarse (half : Bool) (e schema : Int) : Option Int := do
  let key ← lowered half e
  let bits ← word (-schema)
  let width ← shiftLeft 1 bits
  let mask ← word (width - 1)
  let raised ← word (key + mask)
  shiftRight raised bits

def finiteIndex (v : Float) (schema : Int) : Option Int := do
  let (f, e) ← split v
  if 1 ≤ schema then
    let t := table schema.toNat
    fine (Search.partitionPoint (· < f) t) t.size e
  else coarse (f == 0.5) e schema

def bucketIndex (v : Float) (schema : Int) : Option Int :=
  if v == infinity then do
    let top ← finiteIndex largest schema
    word (top + 1)
  else finiteIndex v schema

theorem word_eq {n : Int} (hlow : -0x80000000 ≤ n) (hhigh : n < 0x80000000) : word n = some n :=
  if_pos ⟨hlow, hhigh⟩

theorem splitNormal_eq (x : Float) : splitNormal x = some (Binary64.splitNormal x) := by
  have hlt := field_lt x
  simp [splitNormal, Binary64.splitNormal, word_eq (n := field x) (by omega) (by omega),
    word_eq (n := field x - 1022) (by omega) (by omega)]

theorem split_eq (x : Float) : split x = some (Binary64.split x) := by
  have hlt := field_lt (x * power 2 64)
  have he : (Binary64.splitNormal (x * power 2 64)).2 = field (x * power 2 64) - 1022 := rfl
  unfold split Binary64.split
  simp only [splitNormal_eq]
  split
  · rfl
  · split
    · simp [word_eq (n := (Binary64.splitNormal (x * power 2 64)).2 - 64) (by omega) (by omega)]
    · rfl

theorem fine_eq {position size : Nat} {e : Int} (hp : position ≤ size) (hs : size ≤ 2 ^ 8) (hlow : -1073 ≤ e)
    (hhigh : e ≤ 1024) : fine position size e = some (position + (e - 1) * size) := by
  have hbelow : -1074 * (size : Int) ≤ (e - 1) * size := Int.mul_le_mul_of_nonneg_right (by omega) (by omega)
  have habove : (e - 1) * size ≤ 1023 * (size : Int) := Int.mul_le_mul_of_nonneg_right (by omega) (by omega)
  have hposition : word position = some (position : Int) := word_eq (by omega) (by omega)
  have hsize : word size = some (size : Int) := word_eq (by omega) (by omega)
  have he : word (e - 1) = some (e - 1) := word_eq (by omega) (by omega)
  have hoffset : word ((e - 1) * size) = some ((e - 1) * size) := word_eq (by omega) (by omega)
  have hsum : word (position + (e - 1) * size) = some (position + (e - 1) * size) := word_eq (by omega) (by omega)
  simp [fine, hposition, hsize, he, hoffset, hsum]

theorem coarse_eq {half : Bool} {e : Int} {n : Nat} (h4 : n ≤ 4) (hlow : -1073 ≤ e) (hhigh : e ≤ 1024) :
    coarse half e (-n) = some (((if half then e - 1 else e) + (2 ^ n - 1)) / 2 ^ n) := by
  have hkey : lowered half e = some (if half then e - 1 else e) := by
    unfold lowered
    split
    · exact word_eq (by omega) (by omega)
    · rfl
  have hrange : -1074 ≤ (if half then e - 1 else e) ∧ (if half then e - 1 else e) ≤ 1024 := by
    split <;> omega
  have hwidth : (2 : Int) ^ n ≤ 2 ^ 4 := pow_le_pow_right₀ (by decide) h4
  have hpos : (0 : Int) < 2 ^ n := Int.pow_pos (by decide)
  have hbits : word n = some (n : Int) := word_eq (by omega) (by omega)
  have hleft : shiftLeft 1 n = some (2 ^ n) := by
    rw [shiftLeft, if_pos (by omega), Int.one_mul, Int.toNat_natCast, word_eq (by omega) (by omega)]
  have hmask : word (2 ^ n - 1) = some ((2 : Int) ^ n - 1) := word_eq (by omega) (by omega)
  unfold coarse
  rw [hkey]
  generalize (if half then e - 1 else e) = key at hrange ⊢
  have hraised : word (key + (2 ^ n - 1)) = some (key + (2 ^ n - 1)) := word_eq (by omega) (by omega)
  have hright : shiftRight (key + (2 ^ n - 1)) n = some ((key + (2 ^ n - 1)) / 2 ^ n) := if_pos (by omega)
  simp [hbits, hleft, hmask, hraised, hright]

variable {v : Float} {schema : Int}

theorem finiteIndex_eq_of_pos {s : Nat} (hs : 0 < s) (h8 : s ≤ 8) (hp : 0 < rank v) (hf : field v ≠ 2047) :
    finiteIndex v s = some (Native.finiteIndex v s) := by
  obtain ⟨_,_,hlow,hhigh⟩ := parts_split hp hf
  have hsplit := split_eq v
  have hwidth : 2 ^ s ≤ 2 ^ 8 := Nat.pow_le_pow_right (by decide) h8
  have hindex := fine_eq (partitionPoint_table_le (Binary64.split v).1 h8) hwidth hlow hhigh
  have hwide : (1 : Int) ≤ s := by omega
  rw [Native.finiteIndex_of_pos v hs h8]
  generalize Binary64.split v = r at hsplit hindex ⊢
  obtain ⟨f,e⟩ := r
  have hfine : finiteIndex v s = fine (Search.partitionPoint (· < f) (table s)) (table s).size e := by
    rw [finiteIndex, hsplit, Option.bind_eq_bind, Option.bind_some]
    dsimp only
    rw [if_pos hwide]
    rfl
  rw [hfine, size_table h8, hindex]
  push_cast
  rfl

theorem finiteIndex_eq_of_nonpos {n : Nat} (h4 : n ≤ 4) (hp : 0 < rank v) (hf : field v ≠ 2047) :
    finiteIndex v (-n) = some (Native.finiteIndex v (-n)) := by
  obtain ⟨_,_,hlow,hhigh⟩ := parts_split hp hf
  have hsplit := split_eq v
  have hnarrow : ¬ (1 : Int) ≤ -n := by omega
  rw [Native.finiteIndex_of_nonpos]
  generalize Binary64.split v = r at hsplit hlow hhigh ⊢
  obtain ⟨f,e⟩ := r
  simpa [finiteIndex, hsplit, hnarrow] using coarse_eq h4 hlow hhigh

theorem finiteIndex_eq (h4 : minSchema ≤ schema) (h8 : schema ≤ 8) (hp : 0 < rank v) (hf : field v ≠ 2047) :
    finiteIndex v schema = some (Native.finiteIndex v schema) := by
  change -4 ≤ _ at h4
  rcases Int.lt_or_le 0 schema with h | h
  · obtain ⟨s,rfl⟩ := Int.eq_ofNat_of_zero_le h.le
    exact finiteIndex_eq_of_pos (by omega) (by omega) hp hf
  · obtain ⟨n,hn⟩ := Int.eq_ofNat_of_zero_le (a := -schema) (by omega)
    obtain rfl : schema = -n := by omega
    exact finiteIndex_eq_of_nonpos (by omega) hp hf

theorem topKey_bounds (h4 : minSchema ≤ schema) (h8 : schema ≤ 8) : 0 ≤ topKey schema ∧ topKey schema ≤ 2 ^ 18 := by
  change -4 ≤ _ at h4
  interval_cases schema <;> decide

theorem bucketIndex_eq (h4 : minSchema ≤ schema) (h8 : schema ≤ 8) (hn : v.isNaN = false) (hp : 0 < rank v) :
    bucketIndex v schema = some (Native.bucketIndex v schema) := by
  have hinfinity := beq_iff_rank hn isNaN_infinity
  have htop := rank_lt_top_iff hp
  have hle := rank_le_top hn hp
  rw [rank_infinity] at hinfinity
  by_cases hf : field v = 2047
  · obtain ⟨hlow,hhigh⟩ := topKey_bounds h4 h8
    have hlargest := finiteIndex_eq h4 h8 (v := largest) (by rw [rank_largest]; decide) (by rw [field_largest]; decide)
    rw [finiteIndex_largest h4 h8] at hlargest
    rw [bucketIndex_of_top hn hp hf h4 h8, bucketIndex, if_pos (hinfinity.mpr (by omega)), hlargest,
      Option.bind_eq_bind, Option.bind_some, word_eq (by omega) (by omega)]
  · rw [bucketIndex_of_finite schema hp hf, bucketIndex, if_neg (hinfinity.not.mpr (by omega))]
    exact finiteIndex_eq h4 h8 hp hf

end Metering.Native.Words
