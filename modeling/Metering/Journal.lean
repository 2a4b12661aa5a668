import Metering.Histogram
import Metering.Log

/-! # Journal records

What families and histograms report of themselves, as records of a debug journal. A family's records
carry its name, a histogram's own records also the label values of its series.
-/
namespace Metering

inductive Field
  | text (value : String)
  | float (value : Float)

structure Record where
  level : Level
  message : String
  fields : List (String × Field)

def Histogram.Event.message : Histogram.Event → String
  | .widened _ => "widened native zero bucket"
  | .halved _ => "halved native histogram resolution"
  | .overLimit _ => "native bucket limit exceeded at minimum resolution"
  | .reset => "reset native histogram"

def Histogram.Event.fields : Histogram.Event → List (String × Field)
  | .widened threshold => [("zero_threshold", .float threshold)]
  | .halved schema => [("schema", .text (toString schema))]
  | .overLimit buckets => [("buckets", .text (toString buckets))]
  | .reset => []

namespace Family

inductive Event
  | creating (values : List String)
  | removed (values : List String)
  | cleared
deriving DecidableEq, Repr

def Event.message : Event → String
  | .creating _ => "creating series"
  | .removed _ => "removed series"
  | .cleared => "cleared all series"

def Event.fields : Event → List (String × Field)
  | .creating values => [("labels", .text (Text.quoteList values))]
  | .removed values => [("labels", .text (Text.quoteList values))]
  | .cleared => []

def Event.record (metric : String) (e : Event) : Record :=
  ⟨.debug, e.message, ("metric", .text metric) :: e.fields⟩

end Family

def Histogram.Event.record (metric : String) (values : List String) (e : Histogram.Event) : Record :=
  ⟨.debug, e.message,
    ("metric", .text metric) :: ("series", .text (",".intercalate values)) :: e.fields⟩

end Metering
