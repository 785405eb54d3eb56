import Hypertext.Markup.Node
import Hypertext.Operation
import Hypertext.Text.Case

set_option autoImplicit false

/-! # Attributes

Each attribute of an element becomes at most one operation. The first rule that fits decides:

1. a name with a placeholder is left to the code to classify;
2. `onload` and `onunload` are collected, and make one operation together;
3. any other name that begins with `on` is a property, so that a handler stays a function;
4. a boolean attribute with a single value is set or not by its truth;
5. everything else is set to its value as text. -/

namespace Hypertext

/-- The attributes that are there or not. -/
def booleanAttributes : List Text :=
  ["autofocus", "checked", "defaultchecked", "disabled", "formnovalidate", "indeterminate",
    "readonly", "required", "selected", "willvalidate"].map String.toList

/-- Whether a name is that of a boolean attribute. -/
def isBooleanAttribute (name : Text) : Bool := booleanAttributes.contains name

/-- The name of an attribute, for the name of the property that it is kept under. -/
def attributeName (property : Text) : Text :=
  let lower := property.lowercase
  if lower = "classname".toList then "class".toList
  else if lower = "htmlfor".toList then "for".toList
  else lower

/-- An attribute as it is classified. -/
inductive Attribute where
  /-- The name is known. -/
  | named (name raw : Text) (value : List Fragment)
  /-- The name holds a placeholder. -/
  | dynamic (name value : List Fragment)
  deriving DecidableEq, Repr

namespace Attribute

/-- The attribute of a property and its raw value. -/
def ofProperty (property raw : Text) : Attribute :=
  let name := Placeholder.split property
  if name.length > 1 then .dynamic name (Placeholder.split raw)
  else .named (attributeName property) raw (Placeholder.split raw)

/-- Whether the name of an attribute holds a placeholder. -/
def isDynamic : Attribute → Bool
  | .named .. => false
  | .dynamic .. => true

end Attribute

/-! ## Lifecycle handlers -/

/-- A handler that an element may have. -/
inductive Slot where
  | absent
  /-- The handler is given, but has a value only if it is a single one. -/
  | present (value : Option Value)
  deriving DecidableEq, Repr

namespace Slot

/-- The handler with a raw value. An empty value is no handler. -/
def ofRaw (raw : Text) : Slot :=
  if raw.isEmpty then .absent
  else match Placeholder.nonEmpty (Placeholder.split raw) with
    | [only] => .present (some (Value.ofFragment only))
    | _ => .present none

/-- The value of a handler. -/
def value? : Slot → Option Value
  | .absent => none
  | .present value => value

end Slot

/-- The lifecycle handlers of one element. -/
structure LifecycleSlots where
  onload : Slot
  onunload : Slot
  deriving DecidableEq, Repr

namespace LifecycleSlots

/-- No handlers. -/
def empty : LifecycleSlots := ⟨.absent, .absent⟩

/-- Whether there is no handler. -/
def isEmpty (slots : LifecycleSlots) : Bool := slots == empty

/-- The operation that installs the handlers, if there are any. -/
def finish (slots : LifecycleSlots) (binding : Binding) (generation : UInt32) : Option Operation :=
  if slots.isEmpty then none
  else some (.setLifecycleHandler binding slots.onload.value? slots.onunload.value? generation)

end LifecycleSlots

/-! ## Classification -/

/-- The operation for an attribute with a known name that is not a lifecycle handler. -/
def classifyNamed (binding : Binding) (name raw : Text) (value : List Fragment) : Operation :=
  if Text.startsWith "on".toList name then .setProperty binding name (Value.soleOrJoined value)
  else
    match isBooleanAttribute name && raw != name, Placeholder.nonEmpty value with
    | true, [only] => .setBooleanAttribute binding name (Value.ofFragment only)
    | _, _ => .setAttribute binding name (Value.composed value)

/-- The operation for an attribute, and the handlers collected so far. There is none for a
handler. Without slots, handlers are attributes like others. -/
def classify (binding : Binding) (property raw : Text) (slots : Option LifecycleSlots) :
    Option Operation × Option LifecycleSlots :=
  match Attribute.ofProperty property raw, slots with
  | .dynamic name value, slots =>
    let operation :=
      .setDynamicAttribute binding (Value.soleOrJoined name) (Value.soleOrJoined value)
    (some operation, slots)
  | .named name raw value, none => (some (classifyNamed binding name raw value), none)
  | .named name raw value, some slots =>
    if name = "onload".toList then (none, some { slots with onload := Slot.ofRaw raw })
    else if name = "onunload".toList then (none, some { slots with onunload := Slot.ofRaw raw })
    else (some (classifyNamed binding name raw value), some slots)

/-- The operations for the attributes of an element, and the handlers collected from them. -/
def classifyAll (binding : Binding) :
    Attributes → Option LifecycleSlots → List Operation × Option LifecycleSlots
  | [], slots => ([], slots)
  | (property, raw) :: rest, slots =>
    let first := classify binding property raw slots
    let others := classifyAll binding rest first.2
    (first.1.toList ++ others.1, others.2)

end Hypertext
