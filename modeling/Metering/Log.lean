import Metering.Error

/-! # Log levels and formats

Levels by rising severity. A logger passes the records of its level and above; a silent one none.
-/
namespace Metering

inductive Level
  | debug
  | info
  | warn
  | error
deriving DecidableEq, Repr

namespace Level

def text : Level → String
  | .debug => "debug"
  | .info => "info"
  | .warn => "warn"
  | .error => "error"

def tag : Level → String
  | .debug => "DEBUG"
  | .info => "INFO"
  | .warn => "WARNING"
  | .error => "ERROR"

def severity : Level → Nat
  | .debug => 0
  | .info => 1
  | .warn => 2
  | .error => 3

/-- Reads a level in any case. No letter outside ASCII has one of these letters as its lower case. -/
def parse (s : String) : Except Error Level :=
  match s.toLower with
  | "debug" => .ok .debug
  | "info" => .ok .info
  | "warn" => .ok .warn
  | "error" => .ok .error
  | _ => .error (.invalidLogLevel s)

/-- A refused text leaves the level as it was. -/
def set (s : String) (l : Level) : Level × Except Error Unit :=
  match parse s with
  | .ok l => (l, .ok ())
  | .error e => (l, .error e)

end Level

inductive Format
  | full
  | compact
deriving DecidableEq, Repr

namespace Format

def text : Format → String
  | .full => "full"
  | .compact => "compact"

def parse (s : String) : Except Error Format :=
  match s with
  | "full" => .ok .full
  | "compact" => .ok .compact
  | _ => .error (.invalidLogFormat s)

end Format

structure LogConfig where
  level : Level := .info
  format : Format := .full
deriving DecidableEq, Repr

/-- The lowest level that is passed; none at all for a silent logger. -/
structure Logger where
  lowest : Option Level

namespace Logger

def silent : Logger := ⟨none⟩

def ofConfig (c : LogConfig) : Logger := ⟨some c.level⟩

def passes (l : Level) (g : Logger) : Bool :=
  g.lowest.any fun lowest => lowest.severity ≤ l.severity

end Logger
end Metering
