import Hypertext.Text.Basic

set_option autoImplicit false

/-! # Items of a script

What is looked for in a script: declarations that bind a module, and template literals. Spans are
byte offsets. -/

namespace Hypertext
namespace Script

/-- The bytes from `start` up to `stop`. -/
structure Span where
  start : Nat
  stop : Nat
  deriving DecidableEq, Repr

/-- The two ways to bind a module. -/
inductive BindingKind where
  | importDeclaration
  | requireCall
  deriving DecidableEq, Repr

/-- A declaration that binds a module to a name. Its span is what to delete to undo it. -/
structure ModuleBinding where
  name : Text
  moduleName : Text
  kind : BindingKind
  span : Span
  deriving DecidableEq, Repr

/-- What stands before a tagged template. -/
inductive TemplateTag where
  /-- A name, or a chain of names. -/
  | path (names : List Text)
  /-- A call of `require`. -/
  | require (moduleName : Text)
  deriving DecidableEq, Repr

namespace TemplateTag

/-- The name, if the tag is a single one. -/
def identifier? : TemplateTag → Option Text
  | .path [name] => some name
  | _ => none

/-- A chain of names with dots between them. -/
def pathText (names : List Text) : Text := Text.joinWith ['.'] names

end TemplateTag

/-- A part of a template literal with its place. -/
structure Piece where
  text : Text
  span : Span
  deriving DecidableEq, Repr

/-- A template literal: its tag, its span from the tag to the closing backquote, its static parts as
they are written, and the texts of its substitutions. -/
structure TemplateLiteral where
  tag : Option TemplateTag
  span : Span
  quasis : List Piece
  substitutions : List Piece
  deriving DecidableEq, Repr

/-- Something found in a script. -/
inductive Item where
  | binding (binding : ModuleBinding)
  | template (template : TemplateLiteral)
  deriving DecidableEq, Repr

end Script
end Hypertext
