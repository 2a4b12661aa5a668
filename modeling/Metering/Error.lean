import Metering.Text.Decimal
import Metering.Text.Quoted

/-! # Refused calls

Every call that can be refused names its cause here; the cause carries the offending value. A
refused call changes nothing.
-/
namespace Metering

inductive LayoutFault
  | linearCount
  | exponentialCount
  | exponentialStart
  | exponentialFactor
  | spanCount
  | spanMin
  | spanMax
deriving DecidableEq, Repr

def LayoutFault.message : LayoutFault → String
  | .linearCount => "linear_buckets needs a positive count"
  | .exponentialCount => "exponential_buckets needs a positive count"
  | .exponentialStart => "exponential_buckets needs a positive start value"
  | .exponentialFactor => "exponential_buckets needs a factor greater than 1"
  | .spanCount => "exponential_buckets_range needs a count of at least 2"
  | .spanMin => "exponential_buckets_range min needs to be greater than 0"
  | .spanMax => "exponential_buckets_range max needs to be greater than min"

inductive Error
  | negativeIncrement (amount : Float)
  | nanIncrement
  | nanUpperBound
  | invalidSchema (schema : Int)
  | invalidBucketFactor (factor : Float)
  | invalidZeroThreshold (threshold : Float)
  | conflictingKinds
  | invalidLayout (fault : LayoutFault)
  | invalidQuantile (quantile : Float)
  | invalidQuantileError (error : Float)
  | missingEstimator
  | cardinality (expected got : Nat)
  | invalidMetricName (name : String)
  | invalidLabelName (name : String)
  | duplicateLabelName (name : String)
  | reservedLabelName (name kind : String)
  | invalidLogLevel (text : String)
  | invalidLogFormat (text : String)

namespace Error
open Text

def message : Error → String
  | negativeIncrement v => "negative increment " ++ number v ++ " is illegal for counter metrics"
  | nanIncrement => "NaN increment is illegal for counter metrics"
  | nanUpperBound => "cannot use NaN as upper bound for a histogram"
  | invalidSchema s =>
    "unsupported native histogram schema " ++ toString s ++ ": expecting -4 <= schema <= 8"
  | invalidBucketFactor f =>
    "native histogram bucket factor must be greater than 1, got " ++ number f
  | invalidZeroThreshold t => "illegal native zero threshold " ++ number t ++ ": must be >= 0"
  | conflictingKinds => "a histogram cannot be both classic-only and native-only"
  | invalidLayout fault => "invalid bucket layout: " ++ fault.message
  | invalidQuantile q =>
    "quantile " ++ number q ++ " invalid: expected number between 0.0 and 1.0"
  | invalidQuantileError e =>
    "quantile error " ++ number e ++ " invalid: expected number between 0.0 and 1.0"
  | missingEstimator => "summary has quantiles configured but no quantile estimator"
  | cardinality expected got =>
    "expected " ++ toString expected ++ " label values, but got " ++ toString got
  | invalidMetricName name => quote name ++ " is not a valid metric name"
  | invalidLabelName name => quote name ++ " is not a valid label name"
  | duplicateLabelName name => "duplicate label name " ++ quote name
  | reservedLabelName name kind =>
    quote name ++ " is not allowed as label name in " ++ kind ++ " metrics"
  | invalidLogLevel text => "unrecognized log level " ++ quote text
  | invalidLogFormat text => "unrecognized log format " ++ quote text

end Error
end Metering
