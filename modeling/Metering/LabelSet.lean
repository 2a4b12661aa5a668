import Metering.Error
import Metering.Hash.Fnv1a
import Metering.Label

/-! # Label sets

A label set is a sequence of name and value pairs. Order counts: equality, the hash and the
ordering see the whole sequence.
-/
namespace Metering

structure LabelSet where
  pairs : List (String × String) := []
deriving DecidableEq, Repr

namespace LabelSet

def get? (s : LabelSet) (name : String) : Option String :=
  s.pairs.lookup name

def contains (s : LabelSet) (name : String) : Bool :=
  (s.get? name).isSome

def names (s : LabelSet) : List String :=
  s.pairs.map Prod.fst

def size (s : LabelSet) : Nat :=
  s.pairs.length

def isEmpty (s : LabelSet) : Bool :=
  s.pairs.isEmpty

/-- Adds a pair at the end; the name has to be valid and new. -/
def push (s : LabelSet) (name value : String) : Except Error LabelSet :=
  if !Label.isName name then .error (.invalidLabelName name)
  else if s.contains name then .error (.duplicateLabelName name)
  else .ok ⟨s.pairs ++ [(name, value)]⟩

def ofPairs (pairs : List (String × String)) : Except Error LabelSet :=
  pairs.foldlM (fun s p => s.push p.1 p.2) {}

def merge (s : LabelSet) (names values : List String) : LabelSet :=
  ⟨s.pairs ++ names.zip values⟩

def comparePair (a b : String × String) : Ordering :=
  (compare a.1 b.1).then (compare a.2 b.2)

instance : Ord LabelSet where
  compare a b := List.compareLex comparePair a.pairs b.pairs

def pairText (p : String × String) : String :=
  p.1 ++ "=" ++ Text.quote p.2

/-- Names as they are and values quoted, between braces. -/
def text (s : LabelSet) : String :=
  "\x7b" ++ ", ".intercalate (s.pairs.map pairText) ++ "\x7d"

/-- The bytes of a string and a closing byte that no encoded text contains. -/
def hashText (h : Fnv1a) (s : String) : Fnv1a :=
  (h.write s.toUTF8.toList).write [0xff]

/-- The hash of the number of pairs, in eight bytes with the low one first, and of every pair. -/
def hash (s : LabelSet) : Fnv1a :=
  let size := (List.range 8).map fun i => (s.size / Nat.pow 256 i).toUInt8
  s.pairs.foldl (fun h p => hashText (hashText h p.1) p.2) (({} : Fnv1a).write size)

end LabelSet
end Metering
