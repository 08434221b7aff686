import Packrat.Text.Unprintable

/-!
# `Packrat.Text.quoted` — text between double quotes

The form in which tokens are shown inside lists. The quote and the backslash are escaped, the common control
characters have letters, and whatever has no glyph of its own, or would join the character before it, is
written by code point as `\u` and lower-case hexadecimal digits in braces.
-/

namespace Packrat.Text

/-- A character by its code point, in lower-case hexadecimal between braces. -/
def codePointEscape (c : Char) : Text :=
  ['\\', 'u', '\x7b'] ++ Nat.toDigits 16 c.toNat ++ ['\x7d']

/-- A character as it stands inside quotes. -/
def quotedChar (c : Char) : Text :=
  if c == '\x00' then ['\\', '0']
  else if c == '\t' then ['\\', 't']
  else if c == '\r' then ['\\', 'r']
  else if c == '\n' then ['\\', 'n']
  else if c == '"' then ['\\', '"']
  else if c == '\\' then ['\\', '\\']
  else if isExtender c || isUnprintable c then codePointEscape c
  else [c]

/-- A text between double quotes. -/
def quoted (t : Text) : Text := ['"'] ++ t.flatMap quotedChar ++ ['"']

/-- A string between double quotes. -/
def quotedString (s : String) : String := String.ofList (quoted s.toList)

end Packrat.Text
