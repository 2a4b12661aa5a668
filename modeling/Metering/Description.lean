import Metering.LabelSet

/-! # Descriptions of metric families

Options are what a caller writes down. A description is what is left once name and labels have
been checked: the full name, the constant labels in name order and the variable label names in
the order given.
-/
namespace Metering

/-- Sorted by name, each name once. -/
abbrev ConstantLabels := List (String × String)

/-- Adds a pair in name order; a later value for a name replaces the earlier one. -/
def ConstantLabels.insert (name value : String) : ConstantLabels → ConstantLabels
  | [] => [(name, value)]
  | (n, v) :: rest =>
    match compare name n with
    | .lt => (name, value) :: (n, v) :: rest
    | .eq => (name, value) :: rest
    | .gt => (n, v) :: ConstantLabels.insert name value rest

def ConstantLabels.ofList (pairs : List (String × String)) : ConstantLabels :=
  pairs.foldl (fun labels p => ConstantLabels.insert p.1 p.2 labels) []

structure Options where
  namespaceName : String := ""
  subsystem : String := ""
  name : String := ""
  help : String := ""
  constLabels : ConstantLabels := []
deriving Repr

/-- The parts that are not empty, joined by underscores; no name at all without a last part. -/
def fullName (namespaceName subsystem name : String) : String :=
  if name = "" then ""
  else "_".intercalate ([namespaceName, subsystem].filter (· ≠ "") ++ [name])

def Options.fullName (o : Options) : String :=
  Metering.fullName o.namespaceName o.subsystem o.name

structure Description where
  fullName : String
  help : String
  constLabels : LabelSet
  variableLabels : List String
deriving Repr

namespace Description

def checkNames (reserved : List String) (kind : String) (seen : List String) :
    List String → Except Error Unit
  | [] => .ok ()
  | name :: rest =>
    if !Label.isName name then .error (.invalidLabelName name)
    else if reserved.contains name then .error (.reservedLabelName name kind)
    else if seen.contains name then .error (.duplicateLabelName name)
    else checkNames reserved kind (name :: seen) rest

/-- `reserved` names the labels that the kind of metric uses itself. -/
def ofOptions (o : Options) (variableLabels reserved : List String) (kind : String) :
    Except Error Description := do
  let fullName := o.fullName
  if !Metric.isName fullName then throw (.invalidMetricName fullName)
  checkNames reserved kind [] (o.constLabels.map Prod.fst ++ variableLabels)
  let constLabels ← LabelSet.ofPairs o.constLabels
  return { fullName, help := o.help, constLabels, variableLabels }

end Description
end Metering
