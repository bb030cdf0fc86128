import Parsing.Text.Extending
import Parsing.Text.Unprintable

set_option autoImplicit false

/-! # Quoted characters and texts

A character is quoted between apostrophes and a text between double quotes. Inside, NUL, tab, line
feed and carriage return have escapes of one letter, the backslash and the surrounding quote are
escaped by a backslash, and a character that could not be seen is written by its code point. -/

namespace Parsing.Quoted

/-- The code point of `c` as it is written between braces: lower case, without leading zeros. -/
def codePoint (c : Char) : List Char :=
  ['\\', 'u', '\x7b'] ++ Nat.toDigits 16 c.toNat ++ ['\x7d']

/-- How `c` is written between two `quote` marks. -/
def escaped (quote c : Char) : List Char :=
  if c = '\x00' then ['\\', '0']
  else if c = '\t' then ['\\', 't']
  else if c = '\n' then ['\\', 'n']
  else if c = '\r' then ['\\', 'r']
  else if c = '\\' ∨ c = quote then ['\\', c]
  else if isExtending c || isUnprintable c then codePoint c
  else [c]

/-- A character between apostrophes. -/
def char (c : Char) : String := String.ofList ('\'' :: escaped '\'' c ++ ['\''])

/-- A text between double quotes. -/
def string (s : String) : String :=
  String.ofList ('"' :: s.toList.flatMap (escaped '"') ++ ['"'])

end Parsing.Quoted
