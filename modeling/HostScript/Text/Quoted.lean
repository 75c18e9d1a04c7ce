import HostScript.Text.Unprintable

/-!
# Quoted text

Text between double quotes. The quote, the backslash and four controls are written as a backslash
and one character, an unprintable character as the hexadecimal number of its code point.
-/

namespace HostScript.Text

/-- A character as it is written between quotes. -/
def escape (c : Char) : List Char :=
  if c = '\x00' then ['\\', '0']
  else if c = '\t' then ['\\', 't']
  else if c = '\r' then ['\\', 'r']
  else if c = '\n' then ['\\', 'n']
  else if c = '"' then ['\\', '"']
  else if c = '\\' then ['\\', '\\']
  else if isUnprintable c then
    ['\\', 'u', '\x7b'] ++ Nat.toDigits 16 c.toNat ++ ['\x7d']
  else [c]

/-- The text as it is written, with its quotes. -/
def quote (cs : List Char) : List Char := '"' :: cs.flatMap escape ++ ['"']

/-- The character that a backslash and `c` stand for; a backslash at the end of a line stands for
nothing. -/
def unescape (c : Char) : List Char :=
  if c = 'n' then ['\n']
  else if c = 'r' then ['\r']
  else if c = 't' then ['\t']
  else if c = '0' then ['\x00']
  else if c = 'e' then ['\x1b']
  else if c = '\n' then []
  else [c]

end HostScript.Text
