import Hypertext.Text.Basic

set_option autoImplicit false

/-! # What can be wrong with a template

Offsets are byte positions in the markup, that is, in the static parts joined by placeholder
tokens. -/

namespace Hypertext

/-- The constructs that have an end of their own. -/
inductive Construct where
  | comment
  | closingTag
  | tag
  | attributeValue
  deriving DecidableEq, Repr

/-- What to call a construct. -/
def Construct.name : Construct → Text
  | .comment => "comment".toList
  | .closingTag => "closing tag".toList
  | .tag => "tag".toList
  | .attributeValue => "attribute value".toList

/-- Why a template is refused. -/
inductive TemplateError where
  | quasiCount (quasis expressions : Nat)
  | missingTagName (offset : Nat)
  | dynamicTagName (offset : Nat)
  | placeholderInComment (offset : Nat)
  | unterminated (what : Construct) (offset : Nat)
  | unexpectedClosingTag (tag : Text) (offset : Nat)
  | mismatchedClosingTag (expected found : Text) (offset : Nat)
  | unclosedElement (tag : Text) (offset : Nat)
  | strayText (offset : Nat)
  | rootCount (count : Nat)
  deriving DecidableEq, Repr

/-- The message of an error. -/
def TemplateError.message : TemplateError → Text
  | .quasiCount quasis expressions =>
    "template has ".toList ++ Text.ofNat quasis ++ " static parts for ".toList
      ++ Text.ofNat expressions ++ " expressions".toList
  | .missingTagName offset => "missing tag name at offset ".toList ++ Text.ofNat offset
  | .dynamicTagName offset =>
    "tag names cannot contain placeholders (offset ".toList ++ Text.ofNat offset ++ ")".toList
  | .placeholderInComment offset =>
    "comments cannot contain placeholders (offset ".toList ++ Text.ofNat offset ++ ")".toList
  | .unterminated what offset =>
    "unterminated ".toList ++ what.name ++ " starting at offset ".toList ++ Text.ofNat offset
  | .unexpectedClosingTag tag offset =>
    "closing tag </".toList ++ tag ++ "> at offset ".toList ++ Text.ofNat offset
      ++ " has no matching opening tag".toList
  | .mismatchedClosingTag expected found offset =>
    "closing tag </".toList ++ found ++ "> at offset ".toList ++ Text.ofNat offset
      ++ " does not match <".toList ++ expected ++ ">".toList
  | .unclosedElement tag offset =>
    "element <".toList ++ tag ++ "> opened at offset ".toList ++ Text.ofNat offset
      ++ " is never closed".toList
  | .strayText offset => "text outside the root element at offset ".toList ++ Text.ofNat offset
  | .rootCount count =>
    "template must have exactly one root element, found ".toList ++ Text.ofNat count

end Hypertext
