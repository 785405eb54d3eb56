import Hypertext.Placeholder
import Hypertext.Text.Quoted

set_option autoImplicit false

/-! # Values

What an operation is given: literal text, an expression of the template, a node or shared value by
its name, and the text put together from such values. -/

namespace Hypertext

/-- A name that the generated code binds to a node or a shared value. -/
structure Binding where
  name : Text
  deriving DecidableEq, Repr

/-- A value that the generated code computes. -/
inductive Value where
  | str (text : Text)
  | expr (index : Nat)
  | ref (binding : Binding)
  | toText (value : Value)
  | concat (left right : Value)
  deriving DecidableEq, Repr

namespace Value

/-- The value as text. Literals and values that are text already stay as they are. -/
def asText : Value → Value
  | .str text => .str text
  | .toText value => .toText value
  | value => .toText value

/-- The values put together from left to right; there is none for no values. -/
def concatAll : List Value → Option Value
  | [] => none
  | value :: values => some (values.foldl .concat value)

/-- The indices of the expressions in a value, in the order of their evaluation. -/
def expressions : Value → List Nat
  | .str _ => []
  | .expr index => [index]
  | .ref _ => []
  | .toText value => value.expressions
  | .concat left right => left.expressions ++ right.expressions

/-- A value as it is shown. -/
def display : Value → Text
  | .str text => text.quoted
  | .expr index => "$\x7b".toList ++ Text.ofNat index ++ ['\x7d']
  | .ref binding => binding.name
  | .toText value => "toText(".toList ++ value.display ++ [')']
  | .concat left right => left.display ++ " + ".toList ++ right.display

/-- The value of a fragment. -/
def ofFragment : Fragment → Value
  | .literal text => .str text
  | .placeholder index => .expr index

/-- The fragments as text, put together; an empty text if there are none. -/
def composed (fragments : List Fragment) : Value :=
  (concatAll (fragments.map fun fragment => (ofFragment fragment).asText)).getD (.str [])

/-- A single fragment as it is, several put together as text. Empty literals do not count. -/
def soleOrJoined (fragments : List Fragment) : Value :=
  match Placeholder.nonEmpty fragments with
  | [only] => ofFragment only
  | parts => composed parts

end Value
end Hypertext
