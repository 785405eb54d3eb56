import Hypertext.Text.Printable

set_option autoImplicit false

/-! # Quoted text

The form in which operations show their strings: between double quotes, on one line, every
character that would not be visible by itself written by its code point. -/

namespace Hypertext
namespace Text

/-- A character by its code point, as in `\u{301}`. -/
def escapeCode (c : Char) : Text := "\\u\x7b".toList ++ ofNatHex c.toNat ++ ['\x7d']

/-- A character as it stands between double quotes. -/
def escapeShown (c : Char) : Text :=
  if c == '\x00' then ['\\', '0']
  else if c == '\t' then ['\\', 't']
  else if c == '\r' then ['\\', 'r']
  else if c == '\n' then ['\\', 'n']
  else if c == '"' then ['\\', '"']
  else if c == '\\' then ['\\', '\\']
  else if isExtender c || !isPrintable c then escapeCode c
  else [c]

/-- A text between double quotes. -/
def quoted (t : Text) : Text := '"' :: t.flatMap escapeShown ++ ['"']

end Text
end Hypertext
