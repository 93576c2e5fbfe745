/-
  Quoted text, as messages show it.

  * `quotedChar` writes one character: a backslash and a letter for the common controls, the code
    point in hexadecimal for invisible characters, the character itself otherwise.
  * `quoted` writes a text between double quotes.
-/
import BasicScript.Text.Invisible

namespace BasicScript

/-- A character written by its code point in hexadecimal, between braces. -/
def codePointEscape (c : Char) : List Char :=
  ['\\', 'u', '\x7b'] ++ Nat.toDigits 16 c.toNat ++ ['\x7d']

/-- A character as it stands inside a quoted text. -/
def quotedChar (c : Char) : List Char :=
  if c = '\x00' then ['\\', '0']
  else if c = '\t' then ['\\', 't']
  else if c = '\n' then ['\\', 'n']
  else if c = '\r' then ['\\', 'r']
  else if c = '\\' ∨ c = '"' then ['\\', c]
  else if isInvisible c then codePointEscape c
  else [c]

/-- A text between double quotes. -/
def quoted (text : String) : String :=
  String.ofList ('"' :: text.toList.flatMap quotedChar ++ ['"'])

end BasicScript
