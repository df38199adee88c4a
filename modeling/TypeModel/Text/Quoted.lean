import TypeModel.Text.Unprintable

/-!
# Quoted text

Error messages show a string between double quotes, with a backslash before a quote or a backslash,
short escapes for the line feed, the carriage return, the tab and the null character, and the code
point in lower-case hexadecimal for every other unprintable character.
-/

namespace TypeModel.Text

/-- The code point of a character in lower-case hexadecimal without leading zeros. -/
def hexCode (c : Char) : List Char :=
  Nat.toDigits 16 c.toNat

/-- What stands for one character between the quotes. -/
def escape (c : Char) : List Char :=
  if c = '"' then ['\\', '"']
  else if c = '\\' then ['\\', '\\']
  else if c = '\n' then ['\\', 'n']
  else if c = '\r' then ['\\', 'r']
  else if c = '\t' then ['\\', 't']
  else if c = '\x00' then ['\\', '0']
  else if isUnprintable c then ['\\', 'u', '\x7b'] ++ hexCode c ++ ['\x7d']
  else [c]

/-- A string between double quotes, with what cannot stand there escaped. -/
def quoted (s : String) : String :=
  String.ofList ('"' :: s.toList.flatMap escape ++ ['"'])

end TypeModel.Text
