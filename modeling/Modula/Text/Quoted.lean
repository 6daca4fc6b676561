import Modula.Text.Extender
import Modula.Text.Ignorable

/-! # Quoted words

A word is quoted for the journal between double quotes. A quote or a backslash inside it is
escaped, and a character that could not be told apart in print is shown as its code point in
hexadecimal, as in `"a\u{301}"`: a mark that would be drawn on the character before it, or a
character that shows nothing. -/

set_option autoImplicit false

namespace Modula.Text

/-- The text by which one character stands inside quotes. -/
def quotedChar (c : Char) : String :=
  if c = '"' then "\\\"" else
  if c = '\\' then "\\\\" else
  if isExtender c || isIgnorable c then
    "\\u\x7b" ++ String.ofList (Nat.toDigits 16 c.toNat) ++ "\x7d"
  else c.toString

/-- The text between double quotes. -/
def quoted (s : String) : String :=
  "\"" ++ s.foldl (fun q c => q ++ quotedChar c) "" ++ "\""

end Modula.Text
