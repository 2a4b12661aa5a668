/-! # Label and metric names

Names use ASCII letters, digits and underscores and do not start with a digit. A metric name may
also use colons; a label name may not start with two underscores.
-/
namespace Metering

namespace Label

def bucket : String := "le"

def quantile : String := "quantile"

def isStart (c : Char) : Bool := c.isAlpha || c == '_'

def isFollow (c : Char) : Bool := isStart c || c.isDigit

def isName (name : String) : Bool :=
  match name.toList with
  | [] => false
  | '_' :: '_' :: _ => false
  | c :: rest => isStart c && rest.all isFollow

end Label

namespace Metric

def isStart (c : Char) : Bool := Label.isStart c || c == ':'

def isFollow (c : Char) : Bool := isStart c || c.isDigit

def isName (name : String) : Bool :=
  match name.toList with
  | [] => false
  | c :: rest => isStart c && rest.all isFollow

end Metric
end Metering
