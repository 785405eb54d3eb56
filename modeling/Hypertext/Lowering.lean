import Hypertext.Attribute
import Hypertext.Children
import Hypertext.Naming
import Hypertext.Scope
import Hypertext.Template

set_option autoImplicit false

/-! # Lowering

A tree becomes a list of operations. An element is created, then gets its attributes, then its
children are built, and last they are appended to it; so every binding that an operation reads
exists by then. -/

namespace Hypertext

/-- The choices in lowering. -/
structure LoweringOptions where
  /-- Whether `onload` and `onunload` are lifecycle handlers. -/
  lifecycle : Bool
  /-- Whether blanks are collapsed. -/
  collapse : Bool
  deriving DecidableEq, Repr

/-- Why a template cannot be lowered. -/
inductive LoweringError where
  | invalidTemplate (cause : TemplateError)
  deriving DecidableEq, Repr

/-- The message of an error. -/
def LoweringError.message : LoweringError → Text
  | .invalidTemplate cause => "invalid template: ".toList ++ cause.message

/-- The helper that an operation calls. -/
def Operation.helper? : Operation → Option Helper
  | .setDynamicAttribute .. => some .setAttribute
  | .setLifecycleHandler .. => some .onLoad
  | .appendChildren .. => some .appendChild
  | _ => none

namespace Scope

/-- The operation that creates an element. The first element of SVG declares the namespace. -/
def createElement (binding : Binding) (tag : Text) (scope : Scope) : Operation × Scope :=
  if isSvgTag tag then
    let space := scope.svgNamespace
    (.createNamespacedElement binding space.1 tag, space.2)
  else (.createElement binding tag, scope)

/-- The operation for the lifecycle handlers of an element. Only if there is one is a number
used. -/
def finishLifecycle (binding : Binding) (slots : Option LifecycleSlots) (scope : Scope) :
    Option Operation × Scope :=
  match slots.bind fun slots => slots.finish binding scope.generation with
  | some operation => (some operation, scope.nextGeneration.2)
  | none => (none, scope)

/-- Declares the helpers that the operations on a binding call. -/
def declareHelpers (binding : Binding) : List Operation → Scope → Scope
  | [], scope => scope
  | operation :: rest, scope =>
    match if operation.binding = binding then operation.helper? else none with
    | some helper => declareHelpers binding rest (scope.helper helper).2
    | none => declareHelpers binding rest scope

end Scope

namespace Node

mutual

/-- The operations that build a node, what it gives to its parent, and the scope after it. -/
def lower (options : LoweringOptions) (scope : Scope) :
    Node → List Operation × Contribution × Scope
  | .text content => ([], .text content, scope)
  | .comment children =>
    let named := scope.fresh "comment".toList
    ([.createComment named.1 ((Node.comment children).commentText?.getD [])],
      .value (.ref named.1), named.2)
  | .element tag attributes children =>
    let named := scope.fresh (elementHint attributes tag)
    let binding := named.1
    let created := named.2.createElement binding tag
    let attributed :=
      classifyAll binding attributes (if options.lifecycle then some .empty else none)
    let finished := created.2.finishLifecycle binding attributed.2
    let built := lowerAll options finished.2 children
    let operations :=
      created.1 :: attributed.1 ++ finished.1.toList ++ built.1
        ++ (Children.operation? binding (Children.normalize options.collapse built.2.1)).toList
    (operations, .value (.ref binding), built.2.2.declareHelpers binding operations)

/-- The operations that build nodes one after the other, what each of them gives, and the scope
after them. -/
def lowerAll (options : LoweringOptions) (scope : Scope) :
    List Node → List Operation × List Contribution × Scope
  | [] => ([], [], scope)
  | node :: nodes =>
    let first := lower options scope node
    let others := lowerAll options first.2.2 nodes
    (first.1 ++ others.1, first.2.1 :: others.2.1, others.2.2)

end

end Node

namespace Template

/-- Lowers a template in a scope, and gives the scope after it. -/
def lower (options : LoweringOptions) (template : Template) (scope : Scope) :
    Except LoweringError Lowered × Scope :=
  if template.isBlank then (.ok .empty, scope)
  else
    match Node.parse template.source with
    | .error e => (.error (.invalidTemplate e), scope)
    | .ok none => (.ok .empty, scope)
    | .ok (some root) =>
      let built := root.lower options scope
      (.ok ⟨built.1, built.2.1.binding?⟩, built.2.2)

end Template
end Hypertext
