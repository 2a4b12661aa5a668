import Metering.Histogram.Settings
import Metering.Json.Reader
import Metering.Log
import Metering.Summary

/-! # Settings in JSON

Options, histogram and summary options and the log configuration are read from JSON. A missing field
takes its default, a field given twice is refused, and only optional fields take `null`. Plain
records may also be written as an array of their fields in order. Fields that nobody asked for are
passed over, but where a record shares its object with another one they are looked into: their
strings, numbers and nesting have to be sound.
-/
namespace Metering.Settings
open Json

abbrev Members := List (Option String × Json)

def text? : Json → Option String
  | .string s => s
  | _ => none

def float? : Json → Option Float
  | .number n => n.toFloat?
  | _ => none

def bool? : Json → Option Bool
  | .bool b => some b
  | _ => none

def int? (low high : Int) : Json → Option Int
  | .number n => n.toInt?.filter fun i => low ≤ i && i ≤ high
  | _ => none

def natBelow? (bound : Nat) (j : Json) : Option Nat :=
  (int? 0 (bound - 1 : Int) j).map Int.toNat

def list? {α : Type} (item? : Json → Option α) : Json → Option (List α)
  | .array items => items.mapM item?
  | _ => none

def nullable? {α : Type} (item? : Json → Option α) : Json → Option (Option α)
  | .null => some none
  | j => (item? j).map some

def constantLabels? : Json → Option ConstantLabels
  | .object ms => do
    let pairs ← ms.mapM fun (key, v) => do return (← key, ← text? v)
    return ConstantLabels.ofList pairs
  | _ => none

def field {α : Type} (key : String) (default : α) (item? : Json → Option α) (ms : Members) :
    Option α :=
  match membersOf key ms with
  | [] => some default
  | [v] => item? v
  | _ => none

def required {α : Type} (key : String) (item? : Json → Option α) (ms : Members) : Option α :=
  match membersOf key ms with
  | [v] => item? v
  | _ => none

def fields? : Json → Option Members
  | .object ms => if ms.all (·.1.isSome) then some ms else none
  | _ => none

/-- The fields of an object, or of an array that is no longer than the list of names. -/
def record? (names : List String) : Json → Option Members
  | .array items =>
    if items.length ≤ names.length then some ((names.map some).zip items) else none
  | j => fields? j

mutual

/-- Texts and numbers are sound and no more than `depth` arrays and objects are nested. -/
def sound (depth : Nat) : Json → Bool
  | .null => true
  | .bool _ => true
  | .number n => n.toFloat?.isSome
  | .string s => s.isSome
  | .array items => 0 < depth && soundItems (depth - 1) items
  | .object ms => 0 < depth && soundMembers (depth - 1) ms

def soundItems (depth : Nat) : List Json → Bool
  | [] => true
  | j :: rest => sound depth j && soundItems depth rest

def soundMembers (depth : Nat) : List (Option String × Json) → Bool
  | [] => true
  | (key, j) :: rest => key.isSome && sound depth j && soundMembers depth rest

end

/-- Nesting that is accepted inside a shared object. -/
def maxDepth : Nat := 126

/-- The fields of an object that several records share: each one outside `own` has to be sound. -/
def shared? (own : List String) (j : Json) : Option Members := do
  let ms ← fields? j
  guard (ms.all fun (key, v) => key.any own.contains || sound maxDepth v)
  return ms

def optionNames : List String :=
  ["namespace", "subsystem", "name", "help", "const_labels"]

def optionsOf (ms : Members) : Option Options := do
  return {
    namespaceName := ← field "namespace" "" text? ms
    subsystem := ← field "subsystem" "" text? ms
    name := ← field "name" "" text? ms
    help := ← field "help" "" text? ms
    constLabels := ← field "const_labels" [] constantLabels? ms }

def options? (j : Json) : Option Options := do
  optionsOf (← record? optionNames j)

/-- Nanoseconds from whole seconds and a rest, which may exceed a second. -/
def duration? (j : Json) : Option Nat := do
  let names := ["secs", "nanos"]
  let ms ← record? names j
  guard (ms.all fun (key, _) => key.any names.contains)
  let secs ← required "secs" (natBelow? UInt64.size) ms
  let nanos ← required "nanos" (natBelow? UInt32.size) ms
  guard (secs + nanos / 1000000000 < UInt64.size)
  return secs * 1000000000 + nanos

def histogramNames : List String :=
  ["buckets", "classic_only", "native_only", "native_histogram_initial_schema",
    "native_histogram_bucket_factor", "native_histogram_min_zero_threshold",
    "native_histogram_max_zero_threshold", "native_histogram_max_bucket_number",
    "native_histogram_reset_duration"]

def histogramOptions? (j : Json) : Option HistogramOptions := do
  let ms ← shared? histogramNames j
  let d : HistogramOptions := {}
  return {
    buckets := ← field "buckets" d.buckets (nullable? (list? float?)) ms
    classicOnly := ← field "classic_only" d.classicOnly bool? ms
    nativeOnly := ← field "native_only" d.nativeOnly bool? ms
    schema := ← field "native_histogram_initial_schema" d.schema (int? (-0x80000000) 0x7fffffff) ms
    factor := ← field "native_histogram_bucket_factor" d.factor (nullable? float?) ms
    minZeroThreshold :=
      ← field "native_histogram_min_zero_threshold" d.minZeroThreshold float? ms
    maxZeroThreshold :=
      ← field "native_histogram_max_zero_threshold" d.maxZeroThreshold float? ms
    maxBuckets := ← field "native_histogram_max_bucket_number" d.maxBuckets (natBelow? UInt64.size) ms
    resetAfter := ← field "native_histogram_reset_duration" d.resetAfter duration? ms
    common := ← optionsOf ms }

def quantile? (j : Json) : Option Quantile := do
  let ms ← record? ["quantile", "error"] j
  return { quantile := ← required "quantile" float? ms, error := ← required "error" float? ms }

def summaryOptions? (j : Json) : Option SummaryOptions := do
  let ms ← shared? ["quantiles"] j
  return {
    quantiles := ← field "quantiles" [] (list? quantile?) ms
    common := ← optionsOf ms }

def level? (j : Json) : Option Level := do
  (Level.parse (← text? j)).toOption

def format? (j : Json) : Option Format := do
  (Format.parse (← text? j)).toOption

def logConfig? (j : Json) : Option LogConfig := do
  let ms ← record? ["level", "format"] j
  return {
    level := ← field "level" Level.info level? ms
    format := ← field "format" Format.full format? ms }

end Metering.Settings
