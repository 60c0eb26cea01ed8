/-
# `Typeforge.Text.Diagnostic` — strings as messages show them

A message shows a string so that every character in it can be seen: the usual
controls by a letter, every other invisible character by its number in braces.
-/
import Typeforge.Text.Invisible

namespace Typeforge

/-- How one character is shown inside a diagnostic string. -/
def diagnosticChar (c : Char) : List Char :=
  if c = '\x00' then ['\\', '0']
  else if c = '\t' then ['\\', 't']
  else if c = '\r' then ['\\', 'r']
  else if c = '\n' then ['\\', 'n']
  else if c = '\\' then ['\\', '\\']
  else if c = '"' then ['\\', '"']
  else if isInvisible c then ['\\', 'u', '\x7b'] ++ Nat.toDigits 16 c.toNat ++ ['\x7d']
  else [c]

/-- A string as a message shows it, between quotation marks. -/
def diagnostic (s : String) : String :=
  String.ofList ('"' :: s.toList.flatMap diagnosticChar ++ ['"'])

end Typeforge
