import RecencyCache.Text.CombiningMark
import RecencyCache.Text.Unprintable

/-! # Quoted text

  How a piece of text is shown inside a sentence: between double quotes, on
  one line, so that every character in it can be seen for what it is.

  - A double quote and a backslash get a backslash before them.
  - Tab, line feed, carriage return and NUL have short names.
  - Other unprintable characters, and marks that would merge with the
    character before them, are written by number, in hexadecimal.
  - Every other character stands for itself.
-/

namespace RecencyCache.Text

/-- Whether a character can be seen, and seen apart from the one before. -/
def standsAlone (c : Char) : Bool :=
  !(unprintable.contains c.toNat || combiningMark.contains c.toNat)

/-- A character as it is written between double quotes. -/
def escaped (c : Char) : List Char :=
  if c = '"' then ['\\', '"']
  else if c = '\\' then ['\\', '\\']
  else if c = '\t' then ['\\', 't']
  else if c = '\n' then ['\\', 'n']
  else if c = '\r' then ['\\', 'r']
  else if c = '\x00' then ['\\', '0']
  else if standsAlone c then [c]
  else ['\\', 'u', '{'] ++ Nat.toDigits 16 c.toNat ++ ['}']

/-- A text between double quotes. -/
def quoted (s : String) : String := String.ofList ('"' :: s.toList.flatMap escaped ++ ['"'])

end RecencyCache.Text
