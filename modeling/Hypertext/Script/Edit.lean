import Hypertext.Script.Item
import Hypertext.Sorted

set_option autoImplicit false

/-! # Edits

A script is changed by a list of edits, each of which replaces a span by a text. They are applied
from left to right, so they must not overlap. -/

namespace Hypertext
namespace Script

/-- The replacement of a span. -/
structure Edit where
  span : Span
  text : Text
  deriving DecidableEq, Repr

namespace Edit

/-- Whether an edit comes before another: by start, then by end. -/
def le (a b : Edit) : Bool :=
  a.span.start < b.span.start || (a.span.start == b.span.start && a.span.stop ≤ b.span.stop)

/-- Applies edits in the order given to the text from offset `place` on. There is no result if an
edit begins before the one before it ends, or if its span is not in the text. -/
def applyFrom (place : Nat) (rest : Text) : List Edit → Option Text
  | [] => some rest
  | edit :: edits =>
    if edit.span.start < place ∨ edit.span.stop < edit.span.start then none
    else
      match Text.cut? (edit.span.start - place) rest with
      | none => none
      | some (kept, tail) =>
        match Text.cut? (edit.span.stop - edit.span.start) tail with
        | none => none
        | some (_, after) =>
          (applyFrom edit.span.stop after edits).map fun result => kept ++ edit.text ++ result

/-- Applies edits to a text, whatever their order. -/
def applyAll (text : Text) (edits : List Edit) : Option Text := applyFrom 0 text (sorted le edits)

end Edit
end Script
end Hypertext
