import Hypertext.Text.Basic

set_option autoImplicit false

/-! # Nodes

The tree that markup describes. Raw texts in it (attribute names and values, text nodes) may
hold placeholder tokens. -/

namespace Hypertext

/-- The attributes of an element in the order in which their names first occur. -/
abbrev Attributes := List (Text × Text)

namespace Attributes

/-- Gives an attribute a value. A name that is there already keeps its place. -/
def insert (name value : Text) : Attributes → Attributes
  | [] => [(name, value)]
  | (n, v) :: rest =>
    if n = name then (n, value) :: rest else (n, v) :: insert name value rest

/-- The value of an attribute. -/
def get? (name : Text) : Attributes → Option Text
  | [] => none
  | (n, v) :: rest => if n = name then some v else get? name rest

/-- The attributes given one after the other. -/
def ofList (pairs : List (Text × Text)) : Attributes :=
  pairs.foldl (fun attributes pair => insert pair.1 pair.2 attributes) []

end Attributes

/-- A node of the tree. A comment keeps its text as a text node. -/
inductive Node where
  | text (content : Text)
  | element (tag : Text) (attributes : Attributes) (children : List Node)
  | comment (children : List Node)
  deriving Repr

namespace Node

/-- The content of a text node. -/
def content? : Node → Option Text
  | .text content => some content
  | _ => none

/-- The text of a comment: its first text node. -/
def commentText? : Node → Option Text
  | .comment children => children.findSome? content?
  | _ => none

end Node
end Hypertext
