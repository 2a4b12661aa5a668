import Metering.Recorder
import Metering.Snapshot

/-! # Counters

A counter is the sum of two cells. Whole amounts below 2 ^ 53 go to a word, as long as it does not
overflow; every other amount goes to a float.
-/
namespace Metering

structure Counter (σ : Type := Recorder) where
  whole : UInt64 := 0
  rest : Float := 0
  created : Time
  sampler : Option σ := none

namespace Counter
variable {σ : Type}

/-- From 2 ^ 53 on not every whole number is a double. -/
abbrev exactLimit : Float := 9007199254740992

def get (c : Counter σ) : Float :=
  c.rest + c.whole.toFloat

def addWhole? (n : UInt64) (c : Counter σ) : Option (Counter σ) :=
  if c.whole.toNat + n.toNat < UInt64.size then some { c with whole := c.whole + n } else none

def addRest (v : Float) (c : Counter σ) : Counter σ :=
  { c with rest := c.rest + v }

def isWhole (v : Float) : Bool :=
  v < exactLimit && v.toUInt64.toFloat == v

def addAmount (v : Float) (c : Counter σ) : Counter σ :=
  if isWhole v then (c.addWhole? v.toUInt64).getD (c.addRest v) else c.addRest v

variable [Sampler σ]

def offer (v : Float) (tag : Option Tag) (c : Counter σ) : Counter σ :=
  { c with sampler := c.sampler.map (Sampler.offer v none tag) }

def increment (c : Counter σ) : Counter σ :=
  ((c.addWhole? 1).getD (c.addRest 1)).offer 1 none

/-- Adds an amount that is neither NaN nor negative and offers it to the sampler. -/
def add (v : Float) (tag : Option Tag) (c : Counter σ) : Except Error (Counter σ) :=
  if v.isNaN then .error .nanIncrement
  else if v < 0 then .error (.negativeIncrement v)
  else .ok ((c.addAmount v).offer v tag)

/-- The exemplars are taken before the value is read. -/
def collect (c : Counter σ) : Counter σ × CounterSnapshot :=
  let (exemplars, sampler) := Sampler.handOver c.sampler
  ({ c with sampler }, { value := c.get, exemplar := newest? exemplars, created := c.created })

end Counter
end Metering
