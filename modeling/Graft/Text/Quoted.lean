import Graft.Text.Visibility

/-!
# Quoted text

A path or a text inside a message stands in double quotes. The quote and the
backslash are escaped, control characters and others that cannot be shown on
their own are written by name or by number, and everything else stands for
itself.
-/

namespace Graft.Text.Quoted

/-- The lower-case hexadecimal digits of a character's number. -/
def number (character : Char) : List Char :=
  Nat.toDigits 16 character.toNat

/-- One character inside quotes. -/
def escape (character : Char) : List Char :=
  if character = '"' then ['\\', '"']
  else if character = '\\' then ['\\', '\\']
  else if character = '\n' then ['\\', 'n']
  else if character = '\r' then ['\\', 'r']
  else if character = '\t' then ['\\', 't']
  else if character = '\x00' then ['\\', '0']
  else if isVisible character then [character]
  else ['\\', 'u', '\x7b'] ++ number character ++ ['\x7d']

/-- A text in quotes. -/
def quote (text : String) : String :=
  String.ofList ('"' :: text.toList.flatMap escape ++ ['"'])

example : quote "quo\"te é" = "\"quo\\\"te é\"" := by decide +kernel
example : quote "\x07" = "\"\\u\x7b7\x7d\"" := by decide +kernel

end Graft.Text.Quoted
