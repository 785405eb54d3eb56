import Hypertext.Script.Edit
import Hypertext.Script.Emit
import Hypertext.Script.Escape
import Hypertext.Script.Grammar
import Hypertext.Script.Position
import Hypertext.Script.Prologue
import Hypertext.Script.Separator

set_option autoImplicit false

/-! # Compiling a script

Every template whose tag is bound to a template module is replaced by the code that builds it.
Templates in the substitutions of a template are compiled first. The values that the code shares are
declared after the prologue. -/

namespace Hypertext
namespace Script

/-- Why a script cannot be compiled. -/
inductive TransformError where
  | unreadable (position : Position) (cause : ScanError)
  | uncompilable (position : Position) (cause : LoweringError)
  /-- Two changes of the script overlap. -/
  | overlap
  deriving DecidableEq, Repr

/-- The message of an error. -/
def TransformError.message : TransformError → Text
  | .unreadable position cause => position.display ++ ": ".toList ++ cause.message
  | .uncompilable position cause =>
    position.display ++ ": template could not be compiled: ".toList ++ cause.message
  | .overlap => "changes of the script overlap".toList

/-- A compiled script, and the number of templates compiled in it. -/
structure Transformed where
  code : Text
  templates : Nat
  deriving DecidableEq, Repr

/-- What stays the same while a script is compiled: its text, the options, and the names bound to
template modules. -/
structure Compiler where
  source : Text
  options : Options
  tags : List Text

/-- What changes while a script is compiled: its scope, and the templates compiled so far, in
order. -/
structure Progress where
  scope : Scope
  compiled : List Lowered

namespace Compiler

/-- Whether a template with this tag is to be compiled. -/
def recognizes (compiler : Compiler) : Option TemplateTag → Bool
  | none => false
  | some (.require name) => compiler.options.isTemplateModule name
  | some tag => tag.identifier?.any compiler.tags.contains

/-- An error in a text that begins at `base` in the script. -/
def unreadable (compiler : Compiler) (base : Nat) (cause : ScanError) : TransformError :=
  .unreadable (.ofOffset compiler.source (base + cause.offset)) cause

/-- A compiler of texts inside of substitutions, given with the offset at which they begin. -/
abbrev Inner := Text → Nat → Progress → Except TransformError (Text × Progress)

/-- The compiled texts of substitutions, in a text that begins at `base`. -/
def substitutions (inner : Inner) (base : Nat) :
    List Piece → Progress → Except TransformError (List Text × Progress)
  | [], progress => .ok ([], progress)
  | piece :: pieces, progress => do
    let first ← inner piece.text (base + piece.span.start) progress
    let others ← substitutions inner base pieces first.2
    return (first.1 :: others.1, others.2)

/-- The static parts of a template with their escapes replaced. -/
def cookAll (compiler : Compiler) (base : Nat) : List Piece → Except TransformError (List Text)
  | [] => .ok []
  | piece :: pieces =>
    match cook piece.text with
    | .error e => .error (compiler.unreadable base (e.shift piece.span.start))
    | .ok text => (cookAll compiler base pieces).map (text :: ·)

/-- A template whose parts are known, lowered and as code, and the scope after it. -/
def compile (options : Options) (quasis expressions : List Text) (scope : Scope) :
    Except LoweringError (Lowered × Text) × Scope :=
  match Template.ofParts quasis expressions with
  | .error e => (.error (.invalidTemplate e), scope)
  | .ok template =>
    match template.lower options.lowering scope with
    | (.error e, scope) => (.error e, scope)
    | (.ok lowered, scope) =>
      let code := render expressions lowered scope
      (.ok (lowered, code.1), code.2)

/-- The edits for a template of a text that begins at `base`. In a template that is not compiled
itself, only the substitutions that changed are edited. -/
def template (compiler : Compiler) (inner : Inner) (text : Text) (base : Nat)
    (literal : TemplateLiteral) (progress : Progress) :
    Except TransformError (List Edit × Progress) := do
  let (expressions, progress) ← substitutions inner base literal.substitutions progress
  if !compiler.recognizes literal.tag then
    let changed := (literal.substitutions.zip expressions).filter fun pair => pair.1.text != pair.2
    return (changed.map fun pair => ⟨pair.1.span, pair.2⟩, progress)
  let quasis ← compiler.cookAll base literal.quasis
  match compile compiler.options quasis expressions progress.scope with
  | (.error e, _) =>
    .error (.uncompilable (.ofOffset compiler.source (base + literal.span.start)) e)
  | (.ok (lowered, code), scope) =>
    let before := Text.takeBytes literal.span.start text
    let code := if needsSeparator before then ';' :: code else code
    return ([⟨literal.span, code⟩], ⟨scope, progress.compiled ++ [lowered]⟩)

/-- The edits for the templates among the items of a text that begins at `base`. -/
def templates (compiler : Compiler) (inner : Inner) (text : Text) (base : Nat) :
    List Item → Progress → Except TransformError (List Edit × Progress)
  | [], progress => .ok ([], progress)
  | .binding _ :: items, progress => templates compiler inner text base items progress
  | .template literal :: items, progress => do
    let first ← compiler.template inner text base literal progress
    let others ← templates compiler inner text base items first.2
    return (first.1 ++ others.1, others.2)

/-- A text inside of a substitution with its templates compiled. Substitutions nest at most `fuel`
deep, and any number greater than the length of the text is enough. -/
def fragment (compiler : Compiler) : Nat → Inner
  | 0 => fun text _ progress => .ok (text, progress)
  | fuel + 1 => fun text base progress => do
    let items ← (scan text).mapError (compiler.unreadable base)
    let (edits, progress) ← compiler.templates (compiler.fragment fuel) text base items progress
    match Edit.applyAll text edits with
    | none => .error .overlap
    | some code => return (code, progress)

end Compiler

/-! ## Whole scripts -/

/-- The names that occur in a script, wherever they stand. -/
def namesIn (source : Text) : List Text :=
  match source with
  | [] => []
  | c :: t =>
    if isNameStart c then
      have := Text.dropWhile_length_le isNamePart t
      (c :: t.takeWhile isNamePart) :: namesIn (t.dropWhile isNamePart)
    else namesIn t
termination_by source.length
decreasing_by all_goals simp only [List.length_cons]; omega

/-- The span together with the blanks and the line break after it. -/
def withLineBreak (source : Text) (span : Span) : Span :=
  let rest := Text.dropBytes span.stop source
  let blanks := rest.takeWhile Lexeme.isInlineBlank
  let lineBreak := match rest.dropWhile Lexeme.isInlineBlank with
    | '\r' :: '\n' :: _ => 2
    | '\n' :: _ => 1
    | _ => 0
  ⟨span.start, span.stop + Text.byteSize blanks + lineBreak⟩

/-- The declarations among the items of a script. -/
def bindings (items : List Item) : List ModuleBinding :=
  items.filterMap fun
    | .binding binding => some binding
    | .template _ => none

/-- The edits that delete the declarations of modules that are no longer needed. -/
def removals (options : Options) (source : Text) (items : List Item) : List Edit :=
  let removed := (bindings items).filter fun binding => options.removesImport binding.moduleName
  removed.map fun binding => ⟨withLineBreak source binding.span, []⟩

/-- Compiles the templates of a script. -/
def transform (options : Options) (source : Text) : Except TransformError Transformed := do
  let items ← (scan source).mapError fun e => .unreadable (.ofOffset source e.offset) e
  let tags := ((bindings items).filter fun binding =>
    options.isTemplateModule binding.moduleName).map ModuleBinding.name
  let compiler : Compiler := ⟨source, options, tags⟩
  let start : Progress := ⟨Scope.empty.reserve (namesIn source), []⟩
  let (edits, progress) ←
    compiler.templates (compiler.fragment source.length) source 0 items start
  let declared := declarations options progress.scope.shared
  let place := prologueEnd source
  let insertions : List Edit := if declared.isEmpty then [] else [⟨⟨place, place⟩, declared⟩]
  match Edit.applyAll source (removals options source items ++ edits ++ insertions) with
  | none => .error .overlap
  | some code => return ⟨code, progress.compiled.length⟩

end Script
end Hypertext
