import LosslessAudio.Text.Formless

/-!
# Quoted text

A text in double quotes.  Quotes and backslashes are marked with a backslash, common control
characters have a letter, and every other character without a form of its own is written as its
code point in braces.
-/

set_option autoImplicit false

namespace LosslessAudio.Text

/-- A code point in braces. -/
def codePoint (c : Char) : List Char :=
  ['\\', 'u', '\x7b'] ++ Nat.toDigits 16 c.toNat ++ ['\x7d']

/-- A character as it stands between the quotes. -/
def quotedChar (c : Char) : List Char :=
  if c = '\x00' then ['\\', '0']
  else if c = '\t' then ['\\', 't']
  else if c = '\r' then ['\\', 'r']
  else if c = '\n' then ['\\', 'n']
  else if c = '"' ∨ c = '\\' then ['\\', c]
  else if isFormless c then codePoint c
  else [c]

/-- A text in quotes. -/
def quoted (text : String) : String :=
  String.ofList ('"' :: text.toList.flatMap quotedChar ++ ['"'])

end LosslessAudio.Text
