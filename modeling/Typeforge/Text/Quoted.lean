/-
# `Typeforge.Text.Quoted` — strings in quotation marks, as JSON writes them

A quotation mark, a backslash and the control characters below the blank are
escaped, the five with a letter of their own by it and the rest by four
hexadecimal digits; every other character stands for itself.
-/

namespace Typeforge

/-- A hexadecimal digit, in lower case. -/
def hexDigit (n : Nat) : Char := Nat.digitChar (n % 16)

/-- How one character is written between quotation marks. -/
def quotedChar (c : Char) : List Char :=
  if c = '"' then ['\\', '"']
  else if c = '\\' then ['\\', '\\']
  else if c = '\n' then ['\\', 'n']
  else if c = '\r' then ['\\', 'r']
  else if c = '\t' then ['\\', 't']
  else if c = '\x08' then ['\\', 'b']
  else if c = '\x0c' then ['\\', 'f']
  else if c.toNat < 0x20 then ['\\', 'u', '0', '0', hexDigit (c.toNat / 16), hexDigit c.toNat]
  else [c]

/-- The characters of a quoted string, marks included. -/
def quotedChars (cs : List Char) : List Char := '"' :: cs.flatMap quotedChar ++ ['"']

/-- A string between quotation marks, as JSON text. -/
def quoted (s : String) : String := String.ofList (quotedChars s.toList)

end Typeforge
