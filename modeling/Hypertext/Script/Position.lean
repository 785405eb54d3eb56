import Hypertext.Text.Basic

set_option autoImplicit false

/-! # Lines and columns -/

namespace Hypertext
namespace Script

/-- A place in a text as people count: lines and characters from 1. -/
structure Position where
  line : Nat
  column : Nat
  deriving DecidableEq, Repr

namespace Position

/-- The position of a byte offset. An offset beyond the text or inside of a character counts as its
end. -/
def ofOffset (source : Text) (offset : Nat) : Position :=
  let start := Text.takeBytes offset source
  ⟨start.count '\n' + 1, (start.reverse.takeWhile (· != '\n')).length + 1⟩

/-- A position as it stands before a message, as in `2:6`. -/
def display (position : Position) : Text :=
  Text.ofNat position.line ++ [':'] ++ Text.ofNat position.column

end Position
end Script
end Hypertext
