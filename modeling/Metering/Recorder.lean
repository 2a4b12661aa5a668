import Metering.Exemplar

/-! # A recording sampler

A sampler that keeps whatever comes with labels and remembers every offer.
-/
namespace Metering

structure Offer where
  value : Float
  range : Option BucketRange
  labels : Option LabelSet

structure Recorder where
  offers : Array Offer := #[]
  kept : Array Exemplar := #[]
  resets : Nat := 0

namespace Recorder

def offer (v : Float) (range : Option BucketRange) (tag : Option Tag) (r : Recorder) : Recorder :=
  { r with
    offers := r.offers.push ⟨v, range, tag.map Tag.labels⟩
    kept := match tag with
      | some t => r.kept.push ⟨v, t.labels, t.timestamp⟩
      | none => r.kept }

/-- Forgets the kept exemplars; the record of offers stays. -/
def reset (r : Recorder) : Recorder :=
  { r with kept := #[], resets := r.resets + 1 }

instance : Sampler Recorder where
  offer := Recorder.offer
  collect r := (r.kept.toList, r)
  reset := Recorder.reset

end Recorder
end Metering
