import Hypertext.Text.Basic

set_option autoImplicit false

/-! # Text of the system

To the system, arguments, paths and the contents of files are bytes. Most of them encode characters,
but nothing keeps bytes out that encode none. -/

namespace Hypertext
namespace Command

/-- A character, or bytes that encode none and are shown as one replacement character. -/
inductive SystemChar where
  | char (c : Char)
  | broken (bytes : List UInt8)
  deriving DecidableEq, Repr

namespace SystemChar

/-- Whether it is a character. -/
def isChar : SystemChar → Bool
  | .char _ => true
  | .broken _ => false

/-- The character that is shown for it. -/
def shown : SystemChar → Char
  | .char c => c
  | .broken _ => '\ufffd'

end SystemChar

/-- An argument, a path, the name of a file or its content. -/
abbrev SystemText := List SystemChar

namespace SystemText

/-- A text as the system stores it. -/
def ofText (t : Text) : SystemText := t.map .char

/-- The text that is shown. -/
def shown (t : SystemText) : Text := t.map SystemChar.shown

/-- Whether all of it is characters. -/
def isText (t : SystemText) : Bool := t.all SystemChar.isChar

/-- The text, if all of it is characters. -/
def text? (t : SystemText) : Option Text := if isText t then some (shown t) else none

end SystemText
end Command
end Hypertext
