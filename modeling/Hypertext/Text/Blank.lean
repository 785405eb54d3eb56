import Hypertext.Text.Basic

set_option autoImplicit false

/-! # Blanks

Two notions of blank are in use. Text content follows the Unicode property White_Space; inside
a tag only the five ASCII blanks separate. -/

namespace Hypertext

/-- The characters of the property White_Space. -/
def isBlank (c : Char) : Bool :=
  let n := c.toNat
  (9 ≤ n && n ≤ 13) || n == 0x20 || n == 0x85 || n == 0xA0 || n == 0x1680
    || (0x2000 ≤ n && n ≤ 0x200A) || n == 0x2028 || n == 0x2029 || n == 0x202F || n == 0x205F
    || n == 0x3000

/-- The blanks that separate the parts of a tag: space, tab, line feed, form feed, carriage
return. -/
def isTagBlank (c : Char) : Bool :=
  c == ' ' || c == '\t' || c == '\n' || c == '\x0c' || c == '\r'

namespace Text

/-- Whether a text holds nothing but blanks. -/
def isAllBlank (t : Text) : Bool := t.all isBlank

/-- The text without the blanks at its start. -/
def trimStart (t : Text) : Text := t.dropWhile isBlank

/-- The text without the blanks at its end. -/
def trimEnd (t : Text) : Text := (t.reverse.dropWhile isBlank).reverse

/-- The text without the blanks at either end. -/
def trim (t : Text) : Text := t.trimStart.trimEnd

/-- The first run of characters that are not blank. -/
def firstWord? (t : Text) : Option Text :=
  match t.trimStart with
  | [] => none
  | c :: rest => some (c :: rest.takeWhile fun d => !isBlank d)

end Text
end Hypertext
