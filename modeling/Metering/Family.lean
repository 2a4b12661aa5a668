import Metering.Description
import Metering.Journal

/-! # Families

A family maps tuples of label values to accumulators and makes each one on first use. Every
accumulator ever made keeps its place, its handle, in `made`; `live` says which tuples reach one.
Removing a tuple ends its life there, and operations through the old handle stay possible.
-/
namespace Metering

structure Family (α : Type) where
  description : Description
  made : Array α := #[]
  /-- Tuples of the live series in ascending order, with their handles. -/
  live : List (List String × Nat) := []

namespace Family
variable {α : Type}

def link (values : List String) (handle : Nat) :
    List (List String × Nat) → List (List String × Nat)
  | [] => [(values, handle)]
  | (v, h) :: rest =>
    match compare values v with
    | .gt => (v, h) :: link values handle rest
    | _ => (values, handle) :: (v, h) :: rest

def checkCardinality (values : List String) (f : Family α) : Except Error Unit :=
  let expected := f.description.variableLabels.length
  if values.length = expected then .ok () else .error (.cardinality expected values.length)

def handle? (values : List String) (f : Family α) : Option Nat :=
  f.live.lookup values

def isLive (values : List String) (f : Family α) : Bool :=
  (f.handle? values).isSome

def size (f : Family α) : Nat :=
  f.live.length

/-- The handle of a series; on first use of the tuple the series starts from `fresh`. -/
def obtain (fresh : α) (values : List String) (f : Family α) :
    Except Error (Family α × Nat × List Event) := do
  f.checkCardinality values
  match f.handle? values with
  | some handle => return (f, handle, [])
  | none =>
    let handle := f.made.size
    let f := { f with made := f.made.push fresh, live := link values handle f.live }
    return (f, handle, [.creating values])

/-- Ends a series; the flag says whether there was one, which there is not for too few or too many values. -/
def remove (values : List String) (f : Family α) : Family α × Bool × List Event :=
  match f.checkCardinality values with
  | .error _ => (f, false, [])
  | .ok _ =>
    if f.isLive values then
      ({ f with live := f.live.filter (·.1 != values) }, true, [.removed values])
    else (f, false, [])

def clear (f : Family α) : Family α × List Event :=
  ({ f with live := [] }, [.cleared])

/-- A family without variable labels has its only series before its first use too. -/
def prepare (fresh : α) (f : Family α) : Family α × List Event :=
  if f.description.variableLabels.isEmpty && f.live.isEmpty then
    match f.obtain fresh [] with
    | .ok (f, _, events) => (f, events)
    | .error _ => (f, [])
  else (f, [])

def points (f : Family α) : List (LabelSet × Nat) :=
  f.live.map fun (values, handle) =>
    (f.description.constLabels.merge f.description.variableLabels values, handle)

def update {β : Type} (handle : Nat) (change : α → α × β) (f : Family α) :
    Family α × Option β :=
  if h : handle < f.made.size then
    let (a, answer) := change f.made[handle]
    ({ f with made := f.made.set handle a }, some answer)
  else (f, none)

/-- Collects every live series in order; `fresh` is the series of a family without labels. -/
def collect {β : Type} (fresh : α) (take : α → α × β) (f : Family α) :
    Family α × List (Point β) × List Event :=
  let (f, events) := f.prepare fresh
  let (f, points) := f.points.foldl
    (fun (f, points) (labels, handle) =>
      match f.update handle take with
      | (f, some snapshot) => (f, points ++ [⟨labels, snapshot⟩])
      | (f, none) => (f, points))
    (f, [])
  (f, points, events)

end Family
end Metering
