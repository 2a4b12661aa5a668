/-! # The 64-bit FNV-1a hash

A hasher is its running word. Writing bytes in one chunk or in several gives the
same word (`write_append`), so only the concatenation of what is written counts.
-/
namespace Metering

/-- A running 64-bit FNV-1a hash. -/
structure Fnv1a where
  word : UInt64 := 14695981039346656037
deriving DecidableEq, Repr

namespace Fnv1a

def multiplier : UInt64 := 1099511628211

/-- One byte: exclusive or first, then multiply. -/
def absorb (h : Fnv1a) (byte : UInt8) : Fnv1a :=
  ⟨(h.word ^^^ byte.toUInt64) * multiplier⟩

def write (h : Fnv1a) (bytes : List UInt8) : Fnv1a :=
  bytes.foldl absorb h

@[simp] theorem write_nil (h : Fnv1a) : h.write [] = h := rfl

@[simp] theorem write_append (h : Fnv1a) (a b : List UInt8) :
    h.write (a ++ b) = (h.write a).write b :=
  List.foldl_append

def trace (chunks : List (List UInt8)) : List Fnv1a :=
  go {} chunks
where
  go (h : Fnv1a) : List (List UInt8) → List Fnv1a
    | [] => [h]
    | chunk :: rest => h :: go (h.write chunk) rest

end Fnv1a
end Metering
