import Hypertext.Text.Printable

set_option autoImplicit false

/-! # String literals

Text as a string literal of JavaScript, between double quotes. -/

namespace Hypertext
namespace Script

/-- A number in at least four hexadecimal digits. -/
def fourDigits (n : Nat) : Text :=
  List.replicate (4 - (Text.ofNatHex n).length) '0' ++ Text.ofNatHex n

/-- A character as it stands in a string literal. -/
def escapeLiteral (c : Char) : Text :=
  if c == '\\' then ['\\', '\\']
  else if c == '"' then ['\\', '"']
  else if c == '\n' then ['\\', 'n']
  else if c == '\r' then ['\\', 'r']
  else if c == '\t' then ['\\', 't']
  else if c == '\u2028' || c == '\u2029' || isControl c then '\\' :: 'u' :: fourDigits c.toNat
  else [c]

/-- A text as a string literal. -/
def stringLiteral (t : Text) : Text := '"' :: (t.flatMap escapeLiteral ++ ['"'])

end Script
end Hypertext
