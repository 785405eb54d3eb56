import Hypertext.Markup.Parser

set_option autoImplicit false

/-! # Templates

A template is a row of static parts with an expression between each two. The text of an expression
is never looked into here; the markup refers to it by its index. -/

namespace Hypertext

/-- A template: one static part more than expressions. -/
structure Template where
  quasis : List Text
  expressions : List Text
  balanced : quasis.length = expressions.length + 1

namespace Template

/-- The template of the given parts. -/
def ofParts (quasis expressions : List Text) : Except TemplateError Template :=
  if h : quasis.length = expressions.length + 1 then .ok ⟨quasis, expressions, h⟩
  else .error (.quasiCount quasis.length expressions.length)

/-- Whether there is nothing to build: no expression, and only blanks. -/
def isBlank (template : Template) : Bool :=
  template.expressions.isEmpty && template.quasis.all Text.isAllBlank

/-- The markup of a template, with a token for each expression. -/
def source (template : Template) : Text := Placeholder.join template.quasis

end Template
end Hypertext
