import Hypertext.Value

set_option autoImplicit false

/-! # Operations

The steps that build a tree of nodes, in the order in which they are to be done. Each acts on one
node, which it refers to by its binding. -/

namespace Hypertext

/-- One construction step. -/
inductive Operation where
  | createElement (binding : Binding) (tag : Text)
  | createNamespacedElement (binding : Binding) (space : Binding) (tag : Text)
  | createComment (binding : Binding) (text : Text)
  | setProperty (binding : Binding) (name : Text) (value : Value)
  | setAttribute (binding : Binding) (name : Text) (value : Value)
  /-- Sets the attribute to its own name if the value is truthy. -/
  | setBooleanAttribute (binding : Binding) (name : Text) (value : Value)
  /-- The name is known only when the code runs. -/
  | setDynamicAttribute (binding : Binding) (name : Value) (value : Value)
  | setLifecycleHandler (binding : Binding) (onload onunload : Option Value) (generation : UInt32)
  | appendTextNode (binding : Binding) (text : Text)
  | appendChildren (binding : Binding) (children : List Value)
  deriving DecidableEq, Repr

namespace Operation

/-- The node that an operation creates or acts on. -/
def binding : Operation → Binding
  | .createElement binding _ => binding
  | .createNamespacedElement binding _ _ => binding
  | .createComment binding _ => binding
  | .setProperty binding _ _ => binding
  | .setAttribute binding _ _ => binding
  | .setBooleanAttribute binding _ _ => binding
  | .setDynamicAttribute binding _ _ => binding
  | .setLifecycleHandler binding _ _ _ => binding
  | .appendTextNode binding _ => binding
  | .appendChildren binding _ => binding

/-- Whether an operation creates its node. -/
def isCreate : Operation → Bool
  | .createElement .. => true
  | .createNamespacedElement .. => true
  | .createComment .. => true
  | _ => false

/-- The nodes that an operation reads besides its own. -/
def references : Operation → List Binding
  | .appendChildren _ children =>
    children.filterMap fun
      | .ref binding => some binding
      | _ => none
  | _ => []

/-- The name of an operation with its arguments, as in `CreateElement(_p, "p")`. -/
def call (name : String) (arguments : List Text) : Text :=
  name.toList ++ ['('] ++ Text.joinWith ", ".toList arguments ++ [')']

/-- A value that may be missing, as it is shown. -/
def displayOptional (value : Option Value) : Text := (value.map Value.display).getD "null".toList

/-- An operation as it is shown. -/
def display : Operation → Text
  | .createElement binding tag => call "CreateElement" [binding.name, tag.quoted]
  | .createNamespacedElement binding space tag =>
    call "CreateNamespacedElement" [binding.name, space.name, tag.quoted]
  | .createComment binding text => call "CreateComment" [binding.name, text.quoted]
  | .setProperty binding name value =>
    call "SetProperty" [binding.name, name.quoted, value.display]
  | .setAttribute binding name value =>
    call "SetAttribute" [binding.name, name.quoted, value.display]
  | .setBooleanAttribute binding name value =>
    call "SetBooleanAttribute" [binding.name, name.quoted, value.display]
  | .setDynamicAttribute binding name value =>
    call "SetDynamicAttribute" [binding.name, name.display, value.display]
  | .setLifecycleHandler binding onload onunload generation =>
    call "SetLifecycleHandler"
      [binding.name, displayOptional onload, displayOptional onunload, Text.ofNat generation.toNat]
  | .appendTextNode binding text => call "AppendTextNode" [binding.name, text.quoted]
  | .appendChildren binding children =>
    call "AppendChildren"
      [binding.name,
        ['['] ++ Text.joinWith ", ".toList (children.map Value.display) ++ [']']]

end Operation

/-- What a template is lowered to: its operations, and the binding of its root unless there is
nothing to build. -/
structure Lowered where
  operations : List Operation
  root : Option Binding
  deriving DecidableEq, Repr

namespace Lowered

/-- A template with nothing to build. -/
def empty : Lowered := ⟨[], none⟩

/-- Whether there is nothing to build. -/
def isEmpty (lowered : Lowered) : Bool := lowered.root.isNone

/-- The nodes created, in order. -/
def created (lowered : Lowered) : List Binding :=
  (lowered.operations.filter Operation.isCreate).map Operation.binding

end Lowered
end Hypertext
