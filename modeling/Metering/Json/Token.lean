import Metering.Json

/-! # JSON tokens

The text is read once from left to right. What a character means depends only on the mode the
reader is in, so the whole scan is one fold.
-/
namespace Metering.Json

inductive Token
  | openObject
  | closeObject
  | openArray
  | closeArray
  | colon
  | comma
  | string (text : Option String)
  | number (value : Number)
  | bool (value : Bool)
  | null

inductive Mode
  | between
  | inString (units : List Nat)
  | afterBackslash (units : List Nat)
  | inEscape (units : List Nat) (digits code : Nat)
  | inNumber (chars : List Char)
  | inWord (chars : List Char)

/-- Tokens and pending characters are kept with the latest first. -/
structure Scan where
  tokens : List Token := []
  mode : Mode := .between

/-- Joins the two halves of each surrogate pair; a half that stands alone is no text. -/
def joinUnits : List Nat → Option (List Char)
  | [] => some []
  | high :: rest =>
    if 0xd800 ≤ high ∧ high < 0xdc00 then
      match rest with
      | low :: rest =>
        if 0xdc00 ≤ low ∧ low < 0xe000 then
          (joinUnits rest).map (Char.ofNat (0x10000 + (high - 0xd800) * 0x400 + (low - 0xdc00)) :: ·)
        else none
      | [] => none
    else if 0xdc00 ≤ high ∧ high < 0xe000 then none
    else (joinUnits rest).map (Char.ofNat high :: ·)

def digitsValue (chars : List Char) : Nat :=
  chars.foldl (fun n c => 10 * n + (c.toNat - '0'.toNat)) 0

def exponentOf? (chars : List Char) : Option Int :=
  let (negative, digits) :=
    match chars with
    | '-' :: rest => (true, rest)
    | '+' :: rest => (false, rest)
    | rest => (false, rest)
  if digits.isEmpty || !digits.all Char.isDigit then none
  else
    let n : Int := digitsValue digits
    some (if negative then -n else n)

/-- Sign, integer part without leading zeros, then an optional fraction and an optional exponent. -/
def numberOf? (chars : List Char) : Option Number := do
  let (negative, chars) :=
    match chars with
    | '-' :: rest => (true, rest)
    | rest => (false, rest)
  let whole := chars.takeWhile Char.isDigit
  let chars := chars.dropWhile Char.isDigit
  guard (whole == ['0'] || (!whole.isEmpty && whole.head? != some '0'))
  let (fraction, chars) ←
    match chars with
    | '.' :: rest =>
      let fraction := rest.takeWhile Char.isDigit
      if fraction.isEmpty then none else some (fraction, rest.dropWhile Char.isDigit)
    | rest => some ([], rest)
  let exponent ←
    match chars with
    | [] => some none
    | c :: rest => if c == 'e' || c == 'E' then (exponentOf? rest).map some else none
  return {
    negative
    digits := digitsValue (whole ++ fraction)
    exponent := exponent.getD 0 - fraction.length
    integral := fraction.isEmpty && exponent.isNone }

def wordOf? (chars : List Char) : Option Token :=
  if chars = "null".toList then some .null
  else if chars = "true".toList then some (.bool true)
  else if chars = "false".toList then some (.bool false)
  else none

def isNumberChar (c : Char) : Bool :=
  c.isDigit || c == '-' || c == '+' || c == '.' || c == 'e' || c == 'E'

/-- The token of a character that stands between strings, numbers and words, or the mode it opens. -/
def start (tokens : List Token) (c : Char) : Option Scan :=
  if c == ' ' || c == '\n' || c == '\t' || c == '\r' then some ⟨tokens, .between⟩
  else if c == '\x7b' then some ⟨.openObject :: tokens, .between⟩
  else if c == '\x7d' then some ⟨.closeObject :: tokens, .between⟩
  else if c == '[' then some ⟨.openArray :: tokens, .between⟩
  else if c == ']' then some ⟨.closeArray :: tokens, .between⟩
  else if c == ':' then some ⟨.colon :: tokens, .between⟩
  else if c == ',' then some ⟨.comma :: tokens, .between⟩
  else if c == '"' then some ⟨tokens, .inString []⟩
  else if c == '-' || c.isDigit then some ⟨tokens, .inNumber [c]⟩
  else if c.isLower then some ⟨tokens, .inWord [c]⟩
  else none

def simpleEscape? (c : Char) : Option Nat :=
  match c with
  | '"' => some 0x22
  | '\\' => some 0x5c
  | '/' => some 0x2f
  | 'b' => some 8
  | 'f' => some 12
  | 'n' => some 10
  | 'r' => some 13
  | 't' => some 9
  | _ => none

def hexValue? (c : Char) : Option Nat :=
  if c.isDigit then some (c.toNat - '0'.toNat)
  else if 'a' ≤ c ∧ c ≤ 'f' then some (c.toNat - 'a'.toNat + 10)
  else if 'A' ≤ c ∧ c ≤ 'F' then some (c.toNat - 'A'.toNat + 10)
  else none

def step (s : Scan) (c : Char) : Option Scan :=
  match s.mode with
  | .between => start s.tokens c
  | .inString units =>
    if c == '"' then
      some ⟨.string ((joinUnits units.reverse).map String.ofList) :: s.tokens, .between⟩
    else if c == '\\' then some ⟨s.tokens, .afterBackslash units⟩
    else if c.toNat < 0x20 then none
    else some ⟨s.tokens, .inString (c.toNat :: units)⟩
  | .afterBackslash units =>
    if c == 'u' then some ⟨s.tokens, .inEscape units 0 0⟩
    else (simpleEscape? c).map fun code => ⟨s.tokens, .inString (code :: units)⟩
  | .inEscape units digits code =>
    (hexValue? c).map fun v =>
      let code := 16 * code + v
      if digits = 3 then ⟨s.tokens, .inString (code :: units)⟩
      else ⟨s.tokens, .inEscape units (digits + 1) code⟩
  | .inNumber chars =>
    if isNumberChar c then some ⟨s.tokens, .inNumber (c :: chars)⟩
    else do start (.number (← numberOf? chars.reverse) :: s.tokens) c
  | .inWord chars =>
    if c.isLower then some ⟨s.tokens, .inWord (c :: chars)⟩
    else do start ((← wordOf? chars.reverse) :: s.tokens) c

def tokens? (text : String) : Option (List Token) := do
  let s ← text.toList.foldlM step {}
  let tokens ←
    match s.mode with
    | .between => some s.tokens
    | .inNumber chars => (numberOf? chars.reverse).map fun n => Token.number n :: s.tokens
    | .inWord chars => (wordOf? chars.reverse).map (· :: s.tokens)
    | _ => none
  return tokens.reverse

end Metering.Json
