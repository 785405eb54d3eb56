import Hypertext.Options
import Hypertext.Script.HelperSource
import Hypertext.Script.Literal
import Hypertext.Text.Word

set_option autoImplicit false

/-! # Generated code

Values, operations and shared values as JavaScript. The expressions of the template are given by
their texts. -/

namespace Hypertext
namespace Script

/-! ## Names -/

/-- The ASCII characters that begin a name. -/
def isNameStart (c : Char) : Bool := c.isAlpha || c == '_' || c == '$'

/-- The characters that go on a name. -/
def isNamePart (c : Char) : Bool := isWord c || c == '$'

/-- Whether a text is a name that can stand by itself. -/
def isName : Text → Bool
  | [] => false
  | c :: t => isNameStart c && t.all isNamePart

/-- Whether a text is a name or a chain of names with dots between them. -/
def isMemberChain (t : Text) : Bool := (Text.splitOn (· == '.') t).all isName

/-! ## Values -/

/-- The text of an expression where a value is expected. It stands in parentheses unless it is a
chain of names, and on lines of its own if it could end in a comment. -/
def expression (expressions : List Text) (index : Nat) : Text :=
  match expressions[index]? with
  | none => "undefined".toList
  | some text =>
    let code := text.trim
    if isMemberChain code then code
    else if code.contains '\n' || Text.includes "//".toList code then
      "(\n".toList ++ code ++ "\n)".toList
    else '(' :: (code ++ [')'])

/-- A value as code. The right side of a sum stands in parentheses if it is a sum itself. -/
def value (expressions : List Text) : Value → Text
  | .str text => stringLiteral text
  | .expr index => expression expressions index
  | .ref binding => binding.name
  | .toText inner => "String(".toList ++ value expressions inner ++ [')']
  | .concat left (.concat middle right) =>
    value expressions left ++ " + (".toList ++ value expressions (.concat middle right) ++ [')']
  | .concat left right => value expressions left ++ " + ".toList ++ value expressions right

/-- A value that may be missing, as code. -/
def optionalValue (expressions : List Text) (v : Option Value) : Text :=
  (v.map (value expressions)).getD "null".toList

/-! ## Operations -/

/-- A call of a function. -/
def call (function : Text) (arguments : List Text) : Text :=
  function ++ ['('] ++ Text.joinWith ", ".toList arguments ++ [')']

/-- A declaration of a binding. -/
def declaration (binding : Binding) (init : Text) : Text :=
  "var ".toList ++ binding.name ++ " = ".toList ++ init ++ [';']

theorem declaration_eq (binding : Binding) (init : Text) :
    declaration binding init
      = "var ".toList ++ (binding.name ++ (" = ".toList ++ (init ++ [';']))) := by
  show "var ".toList ++ binding.name ++ " = ".toList ++ init ++ [';'] = _
  simp only [List.append_assoc]

/-- A property of a node: by its name if it is one, else by a string. -/
def property (binding : Binding) (name : Text) : Text :=
  if isName name then binding.name ++ ['.'] ++ name
  else binding.name ++ ['['] ++ stringLiteral name ++ [']']

/-- An operation as a statement. The helper that it calls, if it calls one, has the given
binding. -/
def statement (expressions : List Text) (helper : Option Binding) : Operation → Text
  | .createElement binding tag =>
    declaration binding (call "document.createElement".toList [stringLiteral tag])
  | .createNamespacedElement binding space tag =>
    declaration binding (call "document.createElementNS".toList [space.name, stringLiteral tag])
  | .createComment binding text =>
    declaration binding (call "document.createComment".toList [stringLiteral text])
  | .setProperty binding name v =>
    property binding name ++ " = ".toList ++ value expressions v ++ [';']
  | .setAttribute binding name v =>
    call (binding.name ++ ".setAttribute".toList) [stringLiteral name, value expressions v] ++ [';']
  | .setBooleanAttribute binding name v =>
    "if (".toList ++ value expressions v ++ ") ".toList
      ++ call (binding.name ++ ".setAttribute".toList) [stringLiteral name, stringLiteral name]
      ++ [';']
  | .setDynamicAttribute binding name v =>
    call helperName [binding.name, value expressions name, value expressions v] ++ [';']
  | .setLifecycleHandler binding onload onunload generation =>
    call helperName
      [binding.name, optionalValue expressions onload, optionalValue expressions onunload,
        Text.ofNat generation.toNat] ++ [';']
  | .appendTextNode binding text =>
    binding.name ++ ".textContent = ".toList ++ stringLiteral text ++ [';']
  | .appendChildren binding children =>
    call helperName
      [binding.name,
        ['['] ++ Text.joinWith ", ".toList (children.map (value expressions)) ++ [']']] ++ [';']
where
  /-- The name of the helper that the statement calls. -/
  helperName : Text := (helper.map Binding.name).getD "undefined".toList

/-- The statements of a list of operations, each on a line, and the scope in which their helpers are
declared. -/
def statements (expressions : List Text) : List Operation → Scope → Text × Scope
  | [], scope => ([], scope)
  | operation :: rest, scope =>
    let helped : Option Binding × Scope :=
      match operation.helper? with
      | none => (none, scope)
      | some helper => ((some (scope.helper helper).1), (scope.helper helper).2)
    let others := statements expressions rest helped.2
    ("  ".toList ++ statement expressions helped.1 operation ++ ['\n'] ++ others.1, others.2)

/-- An expression that builds the nodes of a template and gives its root; `null` if there is
nothing to build. -/
def render (expressions : List Text) (lowered : Lowered) (scope : Scope) : Text × Scope :=
  match lowered.root with
  | none => ("null".toList, scope)
  | some root =>
    let body := statements expressions lowered.operations scope
    ("(() => \x7b\n".toList ++ body.1 ++ "  return ".toList ++ root.name
      ++ ";\n\x7d)()".toList, body.2)

/-! ## Declarations -/

/-- The declaration of a shared value. -/
def sharedDeclaration (options : Options) (shared : Shared) : Text :=
  match shared.init with
  | .literal text => declaration shared.binding (stringLiteral text)
  | .helper helper =>
    match options.helperModule? helper with
    | none => declaration shared.binding ((helperSource? helper).getD "undefined".toList)
    | some name =>
      if options.useImportStyle then
        "import ".toList ++ shared.binding.name ++ " from ".toList ++ stringLiteral name ++ [';']
      else declaration shared.binding (call "require".toList [stringLiteral name])

/-- The declarations of shared values, each followed by a line break. -/
def declarations (options : Options) (shared : List Shared) : Text :=
  shared.flatMap fun one => sharedDeclaration options one ++ ['\n']

end Script
end Hypertext
