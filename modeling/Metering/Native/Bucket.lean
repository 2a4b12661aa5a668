import Metering.Native.Schema
import Metering.Search

/-! # Bucket indices and bounds

Bucket `k` at schema `s` holds the values above the bound `k - 1` and up to the bound `k`; bound 0
is 1. From schema 1 on the bounds between two powers of two come from a table.
-/
namespace Metering.Native
open Binary64

/-- `2 ^ (2 ^ (-s))` rounded to a double. -/
def growth (s : Nat) : Float :=
  let bits : UInt64 :=
    match s with
    | 1 => 0x3ff6a09e667f3bcd
    | 2 => 0x3ff306fe0a31b715
    | 3 => 0x3ff172b83c7d517b
    | 4 => 0x3ff0b5586cf9890f
    | 5 => 0x3ff059b0d3158574
    | 6 => 0x3ff02c9a3e778061
    | 7 => 0x3ff0163da9fb3335
    | 8 => 0x3ff00b1afa5abcbf
    | _ => 0x4000000000000000
  Float.ofBits bits

/-- The bounds in `[0.5, 1)`, lowest first. A finer table keeps every bound of the coarser one and
puts its product with the growth factor behind it. -/
def bounds : Nat → List Float
  | 0 => [0.5]
  | s + 1 => (bounds s).flatMap fun b => [b, b * growth (s + 1)]

def tables : Array (Array Float) :=
  (Array.range 9).map fun s => (bounds s).toArray

def table (s : Nat) : Array Float :=
  tables.getD s #[]

def finiteIndex (v : Float) (schema : Int) : Int :=
  let (f, e) := split v
  if 1 ≤ schema then
    let t := table schema.toNat
    Search.partitionPoint (· < f) t + (e - 1) * t.size
  else
    let key := if f == 0.5 then e - 1 else e
    let width := Int.pow 2 (-schema).toNat
    (key + (width - 1)) / width

/-- Index of the bucket that holds `v`; infinity stands one above the largest finite value. -/
def bucketIndex (v : Float) (schema : Int) : Int :=
  if v == infinity then finiteIndex largest schema + 1 else finiteIndex v schema

/-- The bound of a bucket, the largest finite value in place of `2 ^ 1024`. The exponent of a wide
bucket is a word of 32 bits. -/
def upperBound (key schema : Int) : Float :=
  if schema < 0 then
    let e := Int.bmod (key * Int.pow 2 (-schema).toNat) UInt32.size
    if e = 1024 then largest else scale 1 e
  else
    let width := Int.pow 2 schema.toNat
    let f := (table schema.toNat).getD (key % width).toNat 0
    let e := key / width + 1
    if f == 0.5 && e == 1025 then largest else scale f e

/-- The bucket one schema lower: buckets `2 * j - 1` and `2 * j` become bucket `j`. -/
def halvedIndex (key : Int) : Int :=
  (key + 1) / 2

end Metering.Native
