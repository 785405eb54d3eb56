import Hypertext.Operation
import Hypertext.Text.Blank

set_option autoImplicit false

/-! # Children

The children of an element are brought into one list of values. Literal text that cannot be seen is
left out: empty text always, and, when blanks are collapsed, text that only breaks and indents
lines. -/

namespace Hypertext

/-- What a node gives to its parent. -/
inductive Contribution where
  /-- Raw text, which may hold placeholders. -/
  | text (raw : Text)
  /-- A value that is known already, such as the binding of an element. -/
  | value (value : Value)
  deriving DecidableEq, Repr

/-- The binding of the node that gives a contribution, if it has one. -/
def Contribution.binding? : Contribution → Option Binding
  | .value (.ref binding) => some binding
  | _ => none

namespace Children

/-- Every run of blanks as one space. -/
def collapseBlanks : Text → Text
  | [] => []
  | c :: t =>
    if isBlank c then
      match t with
      | [] => [' ']
      | d :: _ => if isBlank d then collapseBlanks t else ' ' :: collapseBlanks t
    else c :: collapseBlanks t

/-- What remains of literal text. -/
def literal? (collapse : Bool) (text : Text) : Option Text :=
  if text.isEmpty then none
  else if !collapse then some text
  else if text.isAllBlank && text.contains '\n' then none
  else some (collapseBlanks text)

/-- The values of a contribution. -/
def values : Contribution → List Value
  | .text raw => (Placeholder.split raw).map Value.ofFragment
  | .value value => [value]

/-- A value as it is kept. Only literal text changes or goes. -/
def keep? (collapse : Bool) : Value → Option Value
  | .str text => (literal? collapse text).map .str
  | value => some value

/-- The values of all children, in order. -/
def normalize (collapse : Bool) (contributions : List Contribution) : List Value :=
  (contributions.flatMap values).filterMap (keep? collapse)

/-- The operation that gives an element its children, if it has any. -/
def operation? (binding : Binding) : List Value → Option Operation
  | [] => none
  | [.str text] => some (.appendTextNode binding text)
  | values => some (.appendChildren binding values)

end Children
end Hypertext
