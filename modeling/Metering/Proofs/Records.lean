import Metering.Journal

/-! # Reading a journal

A reader looks at the messages and fields of records. Where several loggers write to one journal, the
records of each are read in the order in which they were written.
-/
namespace Metering

def Record.text? (name : String) (r : Record) : Option String :=
  match r.fields.lookup name with
  | some (.text s) => some s
  | _ => none

def Record.float? (name : String) (r : Record) : Option Float :=
  match r.fields.lookup name with
  | some (.float v) => some v
  | _ => none

/-- A line of the journal: a record and the logger that wrote it, that of a family or that of the series behind
a handle. -/
structure Line where
  logger : Option Nat
  record : Record

/-- The records of one logger. -/
def recordsOf (logger : Option Nat) (journal : List Line) : List Record :=
  (journal.filter (·.logger = logger)).map Line.record

theorem map_record_own (logger : Option Nat) (records : List Record) :
    (records.map (Line.mk logger)).map Line.record = records := by
  simp [Function.comp_def]

theorem recordsOf_append (logger : Option Nat) (journal more : List Line) :
    recordsOf logger (journal ++ more) = recordsOf logger journal ++ recordsOf logger more := by
  rw [recordsOf, List.filter_append, List.map_append]
  rfl

theorem recordsOf_own (logger : Option Nat) (records : List Record) :
    recordsOf logger (records.map (Line.mk logger)) = records := by
  simp [recordsOf, List.filter_map, Function.comp_def]

theorem recordsOf_other {logger writer : Option Nat} (hne : writer ≠ logger) (records : List Record) :
    recordsOf logger (records.map (Line.mk writer)) = [] := by
  simp [recordsOf, List.filter_map, Function.comp_def, hne]

end Metering
