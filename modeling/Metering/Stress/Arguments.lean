import Metering.Log
import Metering.Text.Terminal

/-! # Arguments of the stress run

Options are written `--name value` or `--name=value`. A value that stands apart is judged when the
next option begins or the arguments end; an argument that is no option is reported before that.
-/
namespace Metering.Stress

structure Arguments where
  threads : Nat := 8
  observations : Nat := 100000
  scrapes : Nat := 200
  maxBuckets : Nat := 40
  level : Level := .info
  format : Format := .compact
deriving DecidableEq, Repr

inductive Setting
  | threads
  | observations
  | scrapes
  | maxBuckets
  | level
  | format
deriving DecidableEq, Repr

namespace Setting

def all : List Setting :=
  [.threads, .observations, .scrapes, .maxBuckets, .level, .format]

def name : Setting → String
  | .threads => "--threads"
  | .observations => "--observations"
  | .scrapes => "--scrapes"
  | .maxBuckets => "--max-buckets"
  | .level => "--log.level"
  | .format => "--log.format"

def placeholder : Setting → String
  | .threads => "<THREADS>"
  | .observations => "<OBSERVATIONS>"
  | .scrapes => "<SCRAPES>"
  | .maxBuckets => "<MAX_BUCKETS>"
  | .level => "<LOG_LEVEL>"
  | .format => "<LOG_FORMAT>"

def usage (s : Setting) : String :=
  s.name ++ " " ++ s.placeholder

def help : Setting → String
  | .threads => "Number of writer threads"
  | .observations => "Observations recorded by each writer"
  | .scrapes => "Scrapes taken while the writers run"
  | .maxBuckets => "Native bucket limit; small values force frequent rescaling"
  | .level => "Only log messages with the given severity or above"
  | .format => "Output format of log messages. One of: [full, compact]"

def valueIn (a : Arguments) : Setting → String
  | .threads => toString a.threads
  | .observations => toString a.observations
  | .scrapes => toString a.scrapes
  | .maxBuckets => toString a.maxBuckets
  | .level => a.level.text
  | .format => a.format.text

def ofName? (name : String) : Option Setting :=
  all.find? (·.name == name)

end Setting

/-- The two options that end the program with a text. -/
inductive Display
  | help
  | version
deriving DecidableEq, Repr

def Display.name : Display → String
  | .help => "--help"
  | .version => "--version"

inductive NumberFault
  | empty
  | digit
  | size
deriving DecidableEq, Repr

def NumberFault.message : NumberFault → String
  | .empty => "cannot parse integer from empty string"
  | .digit => "invalid digit found in string"
  | .size => "number too large to fit in target type"

inductive Fault
  | unknown (arg : String)
  | badNumber (s : Setting) (value : String) (fault : NumberFault)
  | badText (s : Setting) (value : String) (error : Error)
  | noValue (s : Setting)
  | repeated (s : Setting)
  | excess (value : String) (d : Display)
  | display (d : Display)

/-- Digits from left to right after an optional plus sign; the first fault counts. -/
def number (text : String) : Except NumberFault Nat :=
  match text.toList with
  | [] => .error .empty
  | '+' :: c :: rest => digits 0 (c :: rest)
  | cs => digits 0 cs
where
  digits (n : Nat) : List Char → Except NumberFault Nat
    | [] => .ok n
    | c :: rest =>
      if !c.isDigit then .error .digit
      else
        let n := 10 * n + (c.toNat - '0'.toNat)
        if n < UInt64.size then digits n rest else .error .size

/-- What has been read so far. `waiting` is an option whose value is not judged yet. -/
structure Reading where
  arguments : Arguments := {}
  seen : List Setting := []
  waiting : Option (Setting × Option String) := none

namespace Reading

def store (s : Setting) (value : String) (a : Arguments) : Except Fault Arguments :=
  let num := (number value).mapError (Fault.badNumber s value)
  match s with
  | .threads => num.map fun n => { a with threads := n }
  | .observations => num.map fun n => { a with observations := n }
  | .scrapes => num.map fun n => { a with scrapes := n }
  | .maxBuckets => num.map fun n => { a with maxBuckets := n }
  | .level => ((Level.parse value).mapError (Fault.badText s value)).map fun l => { a with level := l }
  | .format =>
    ((Format.parse value).mapError (Fault.badText s value)).map fun f => { a with format := f }

def take (s : Setting) (value : String) (r : Reading) : Except Fault Reading := do
  if r.seen.contains s then throw (.repeated s)
  let arguments ← store s value r.arguments
  return { arguments, seen := s :: r.seen, waiting := none }

def settle (r : Reading) : Except Fault Reading :=
  match r.waiting with
  | none => .ok r
  | some (s, none) => .error (.noValue s)
  | some (s, some value) => { r with waiting := none }.take s value

def long (name : String) (value : Option String) (r : Reading) : Except Fault Reading := do
  match Setting.ofName? name with
  | some s =>
    let r ← r.settle
    match value with
    | some v => r.take s v
    | none => return { r with waiting := some (s, none) }
  | none =>
    match [Display.help, Display.version].find? (·.name == name) with
    | none => throw (.unknown name)
    | some d =>
      if let some v := value then throw (.excess v d)
      let _ ← r.settle
      throw (.display d)

/-- The first letter behind a single dash decides. -/
def short (letter : Char) (r : Reading) : Except Fault Reading := do
  if letter = 'h' then
    let _ ← r.settle
    throw (.display .help)
  else if letter = 'V' then
    let _ ← r.settle
    throw (.display .version)
  else throw (.unknown (String.ofList ['-', letter]))

def splitValue (arg : List Char) : String × Option String :=
  let name := String.ofList (arg.takeWhile (· != '='))
  match arg.dropWhile (· != '=') with
  | _ :: value => (name, some (String.ofList value))
  | [] => (name, none)

/-- Reads arguments in turn; nothing may follow a lone double dash. -/
def all (r : Reading) : List String → Except Fault Reading
  | [] => r.settle
  | arg :: rest =>
    match arg.toList with
    | ['-', '-'] =>
      match rest with
      | [] => r.settle
      | next :: _ => .error (.unknown next)
    | '-' :: '-' :: _ => do
      let (name, value) := splitValue arg.toList
      (← r.long name value).all rest
    | '-' :: letter :: _ => do (← r.short letter).all rest
    | _ =>
      match r.waiting with
      | some (s, none) => { r with waiting := some (s, some arg) }.all rest
      | _ => .error (.unknown arg)

end Reading

def Arguments.read (args : List String) : Except Fault Arguments :=
  (Reading.all {} args).map Reading.arguments

def programName : String := "metrics_core_stress"

def versionText : String := programName ++ " 0.1.0\n"

/-- The options with their explanations, which start in one column two blanks right of the longest
option. -/
def optionLines (options : List (String × String)) : String :=
  let width := (options.map (·.1.length)).foldl max 0 + 2
  String.join (options.map fun (head, help) =>
    head ++ String.ofList (List.replicate (width - head.length) ' ') ++ help ++ "\n")

def helpText : String :=
  let about :=
    "Hammers a histogram and a counter from many threads while a collector scrapes them, "
      ++ "then checks that no observation was lost\n"
  let settings := Setting.all.map fun s =>
    ("      " ++ s.usage, s.help ++ " [default: " ++ s.valueIn {} ++ "]")
  about ++ "\nUsage: " ++ programName ++ " [OPTIONS]\n\nOptions:\n"
    ++ optionLines (settings ++ [("  -h, --help", "Print help"), ("  -V, --version", "Print version")])

def Display.text : Display → String
  | .help => helpText
  | .version => versionText

namespace Fault
open Text.Terminal (shown)

/-- A complaint quotes what was given as a terminal shows it. -/
def message : Fault → String
  | .unknown arg => "error: unexpected argument '" ++ shown arg ++ "' found"
  | .badNumber s value fault => invalid s value fault.message
  | .badText s value error => invalid s value error.message
  | .noValue s => "error: a value is required for '" ++ s.usage ++ "' but none was supplied"
  | .repeated s => "error: the argument '" ++ s.usage ++ "' cannot be used multiple times"
  | .excess value d =>
    "error: unexpected value '" ++ shown value ++ "' for '" ++ d.name
      ++ "' found; no more were expected"
  | .display d => d.text
where
  invalid (s : Setting) (value fault : String) : String :=
    "error: invalid value '" ++ shown value ++ "' for '" ++ s.usage ++ "': " ++ fault

def firstLine (f : Fault) : String :=
  let line := f.message.toList.takeWhile (· != '\n')
  String.ofList (if line.getLast? = some '\r' then line.dropLast else line)

end Fault
end Metering.Stress
