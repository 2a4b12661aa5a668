import Metering.Text.Unprintable

/-! # Quoted text

A string between double quotes, in which quote, backslash and every character without a printed
form are escaped. The closing quote is the first quote that no backslash precedes.
-/
namespace Metering.Text

/-- The written form of one character inside quotes. -/
def escape (c : Char) : List Char :=
  if c = '"' then ['\\', '"']
  else if c = '\\' then ['\\', '\\']
  else if c = '\n' then ['\\', 'n']
  else if c = '\r' then ['\\', 'r']
  else if c = '\t' then ['\\', 't']
  else if c = '\x00' then ['\\', '0']
  else if unprintable c then '\\' :: 'u' :: '\x7b' :: (Nat.toDigits 16 c.toNat ++ ['\x7d'])
  else [c]

def quoteChars (cs : List Char) : List Char :=
  '"' :: (cs.flatMap escape ++ ['"'])

def quote (s : String) : String :=
  String.ofList (quoteChars s.toList)

def quoteList (items : List String) : String :=
  "[" ++ ", ".intercalate (items.map quote) ++ "]"

end Metering.Text
