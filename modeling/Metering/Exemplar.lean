import Metering.LabelSet

/-! # Exemplars

Every observation is offered to the sampler of its series together with the classic bucket it fell
into, and a report takes along what the sampler hands over. How exemplars are chosen is up to it.
-/
namespace Metering

/-- Nanoseconds since the epoch. -/
abbrev Time := Int

structure Exemplar where
  value : Float
  labels : LabelSet
  timestamp : Option Time
deriving BEq

/-- No timestamp comes before every timestamp. -/
def earlier : Option Time → Option Time → Bool
  | none, some _ => true
  | some a, some b => a < b
  | _, none => false

/-- The first of the latest. -/
def newest? : List Exemplar → Option Exemplar
  | [] => none
  | e :: rest => some (rest.foldl (fun a b => if earlier a.timestamp b.timestamp then b else a) e)

/-- The first of the earliest. -/
def oldest? : List Exemplar → Option Exemplar
  | [] => none
  | e :: rest => some (rest.foldl (fun a b => if earlier b.timestamp a.timestamp then b else a) e)

/-- The values above `lower` and up to `upper`. -/
structure BucketRange where
  lower : Float
  upper : Float
deriving BEq

/-- The labels that an observation carries, and the time at which a sampler keeps them. -/
structure Tag where
  labels : LabelSet
  timestamp : Option Time

/-- A sampling strategy from outside. A histogram that starts over tells its sampler, which need not
heed it. -/
class Sampler (σ : Type) where
  offer : Float → Option BucketRange → Option Tag → σ → σ
  collect : σ → List Exemplar × σ
  reset : σ → σ := id

/-- The exemplars of a report. Without a sampler there are none. -/
def Sampler.handOver {σ : Type} [Sampler σ] : Option σ → List Exemplar × Option σ
  | none => ([], none)
  | some s => ((collect s).1, some (collect s).2)

end Metering
