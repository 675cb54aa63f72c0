import Lox.Text.Unprintable

/-!
# File names in messages

A file name is shown in double quotes, with escapes for double quotes, backslashes
and characters that would not be visible.
-/

namespace Lox

/-- A character of a file name as it is shown in quotes. -/
def FileName.escape (char : Char) : List Char :=
  if char = '\x00' then ['\\', '0']
  else if char = '\t' then ['\\', 't']
  else if char = '\r' then ['\\', 'r']
  else if char = '\n' then ['\\', 'n']
  else if char = '"' || char = '\\' then ['\\', char]
  else if isUnprintable char then
    ['\\', 'u', '{'] ++ Nat.toDigits 16 char.toNat ++ ['}']
  else [char]

/-- A file name in double quotes. -/
def FileName.quote (name : String) : String :=
  .ofList ('"' :: name.toList.flatMap escape ++ ['"'])

end Lox
