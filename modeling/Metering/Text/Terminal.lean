/-! # Text without terminal controls

Control sequences begin with the escape character; what they hold is not shown. Outside of them
every character is shown but the control characters that are no blanks. A sequence that a blank
breaks off ends there, and the blank is shown; one that is still open when the text ends shows
nothing more.
-/
namespace Metering.Text.Terminal

/-- Where a text stands: between sequences or in a part of one. -/
inductive Mode
  | ground
  | escape
  /-- After an escape and intermediate characters. -/
  | escapeMiddle
  /-- Parameters of a control sequence. -/
  | control
  /-- A device string before its parameters, among them, and after them. -/
  | device
  | deviceParameters
  | deviceMiddle
  /-- The body of a device string, or a message without meaning. -/
  | body
  /-- A command to the system; the bell ends it too. -/
  | command
deriving DecidableEq, Repr

def isBlank (c : Char) : Bool :=
  c == '\t' || c == '\n' || c == '\x0c' || c == '\r'

def inRange (low high : Char) (c : Char) : Bool :=
  low ≤ c && c ≤ high

/-- Some byte of the character's encoding is the one-byte terminator of strings. -/
def holdsTerminator (c : Char) : Bool :=
  (String.utf8EncodeChar c).contains 0x9c

def afterEscape (c : Char) : Mode :=
  if inRange ' ' '/' c then .escapeMiddle
  else if c == '[' then .control
  else if c == ']' then .command
  else if c == 'P' then .device
  else if c == 'X' || c == '^' || c == '_' then .body
  else if inRange '0' '~' c then .ground
  else .escape

/-- The next part of a sequence for a character that neither breaks it off nor begins another. -/
def advance (m : Mode) (c : Char) : Mode :=
  match m with
  | .ground => .ground
  | .escape => afterEscape c
  | .escapeMiddle => if inRange '0' '~' c then .ground else m
  | .control => if inRange '@' '~' c then .ground else m
  | .device =>
    if inRange ' ' '/' c then .deviceMiddle
    else if inRange '0' '?' c then .deviceParameters
    else if inRange '@' '~' c then .body
    else m
  | .deviceParameters =>
    if inRange ' ' '/' c then .deviceMiddle else if inRange '<' '~' c then .body else m
  | .deviceMiddle => if inRange '0' '~' c then .body else m
  | .body => if holdsTerminator c then .ground else m
  | .command => if c == '\x07' then .ground else m

/-- Strings keep blanks to themselves; every other sequence breaks off at one. -/
def breaksAtBlank : Mode → Bool
  | .ground | .escape | .escapeMiddle | .control => true
  | _ => false

/-- The mode after a character, and whether the character is shown. -/
def step (m : Mode) (c : Char) : Mode × Bool :=
  if c == '\x1b' then (.escape, false)
  else if c == '\x18' || c == '\x1a' then (.ground, false)
  else if isBlank c && breaksAtBlank m then (.ground, true)
  else (advance m c, m == .ground && ' ' ≤ c && c != '\x7f')

def shownFrom (m : Mode) : List Char → List Char
  | [] => []
  | c :: rest =>
    let (next, shown) := step m c
    if shown then c :: shownFrom next rest else shownFrom next rest

def shown (text : String) : String :=
  String.ofList (shownFrom .ground text.toList)

end Metering.Text.Terminal
