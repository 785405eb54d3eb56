import Hypertext.Script.Error
import Hypertext.Script.Item

set_option autoImplicit false

/-! # Scanning a script

JavaScript is read only as deeply as needed to find template literals and the declarations that bind
modules. Everything else is comments, strings, words and single characters. -/

namespace Hypertext
namespace Script
namespace Rule

/-! ## Words and blanks -/

/-- Blanks and line breaks, if any. -/
def spaces : Rule Text := lexeme (Lexeme.run Lexeme.isSpace)

/-- At least one blank or line break. -/
def spaces1 : Rule Text := lexeme (Lexeme.run1 Lexeme.isSpace)

/-- Blanks within the line, if any. -/
def inlineBlanks : Rule Text := lexeme (Lexeme.run Lexeme.isInlineBlank)

/-- An identifier. -/
def identifier : Rule Text := named .identifier (lexeme Lexeme.word)

/-! ## Declarations -/

/-- The name of a module in quotes. -/
def moduleName : Rule Text :=
  (do
    let _ ← exactly "\""
    let name ← lexeme (Lexeme.moduleText '"')
    let _ ← exactly "\""
    return name)
  <|> (do
    let _ ← exactly "'"
    let name ← lexeme (Lexeme.moduleText '\x27')
    let _ ← exactly "'"
    return name)

/-- The semicolon of a statement, if there is one on the line. -/
def statementEnd : Rule Unit := maybe do
  let _ ← inlineBlanks
  exactly ";"

/-- A declaration such as `import html from 'choo/html'`. -/
def importDeclaration : Rule ModuleBinding := named .importDeclaration do
  let start ← offset
  let _ ← exactly "import"
  let _ ← spaces1
  let name ← identifier
  let _ ← spaces1
  let _ ← exactly "from"
  let _ ← spaces
  let source ← moduleName
  statementEnd
  let stop ← offset
  return ⟨name, source, .importDeclaration, ⟨start, stop⟩⟩

/-- A call such as `require('bel')`. -/
def requireCall : Rule Text := named .requireCall do
  let _ ← exactly "require"
  let _ ← spaces
  let _ ← exactly "("
  let _ ← spaces
  let source ← moduleName
  let _ ← spaces
  let _ ← exactly ")"
  return source

/-- The comma before further declarators. -/
def moreDeclarators : Rule Unit := named .moreDeclarators do
  let _ ← spaces
  let _ ← exactly ","
  let _ ← spaces
  return ()

/-- What can follow a declaration on its line. -/
def lineEnd : Rule Unit := do
  let _ ← inlineBlanks
  (do let _ ← exactly ";"; return ())
    <|> (do let _ ← lexeme Lexeme.lineBreak; return ())
    <|> endOfInput

/-- A declaration such as `var html = require('bel')`. If more declarators follow, only the first is
to be deleted, with its comma. -/
def requireDeclaration : Rule ModuleBinding := named .requireDeclaration do
  let start ← offset
  let _ ← exactly "const" <|> exactly "let" <|> exactly "var"
  let _ ← spaces1
  let nameStart ← offset
  let name ← identifier
  let _ ← spaces
  let _ ← exactly "="
  let _ ← spaces
  let source ← requireCall
  let first ←
    (do moreDeclarators; return nameStart)
    <|> (do ahead lineEnd; statementEnd; return start)
  let stop ← offset
  return ⟨name, source, .requireCall, ⟨first, stop⟩⟩

/-! ## Templates -/

/-- A lexeme with its place. -/
def piece (reader : Lexeme.Reader) : Rule Piece := do
  let start ← offset
  let text ← lexeme reader
  let stop ← offset
  return ⟨text, ⟨start, stop⟩⟩

/-- A static part of a template. -/
def quasi : Rule Piece := piece fun t => some (Lexeme.templateChars t)

/-- A substitution of a template. -/
def substitution : Rule Piece := named .substitution do
  let _ ← exactly "$\x7b"
  let text ← piece Lexeme.expression
  let _ ← exactly "\x7d"
  return text

/-- A template literal without its tag. -/
def template : Rule TemplateLiteral := named .template do
  let start ← offset
  let _ ← exactly "`"
  let first ← quasi
  let others ← many do
    let expression ← substitution
    let text ← quasi
    return (expression, text)
  let _ ← exactly "`"
  let stop ← offset
  return ⟨none, ⟨start, stop⟩, first :: others.map Prod.snd, others.map Prod.fst⟩

/-- A name or a chain of names. -/
def memberPath : Rule TemplateTag := named .memberPath do
  let first ← identifier
  let others ← many do
    let _ ← spaces
    let _ ← exactly "."
    let _ ← spaces
    identifier
  return .path (first :: others)

/-- A template literal with its tag. -/
def taggedTemplate : Rule TemplateLiteral := named .taggedTemplate do
  let start ← offset
  let tag ← (do let source ← requireCall; return .require source) <|> memberPath
  let _ ← spaces
  let literal ← template
  let stop ← offset
  return { literal with tag := some tag, span := ⟨start, stop⟩ }

/-! ## Files -/

/-- A character that begins neither a string nor a template. -/
def otherCharacter : Lexeme.Reader
  | c :: t => if c == '\x60' || c == '"' || c == '\x27' then none else some ([c], t)
  | [] => none

/-- One piece of a script, and the item that it is, if it is one. -/
def item : Rule (Option Item) :=
  (do let _ ← lexeme Lexeme.comment; return none)
  <|> (do let declaration ← importDeclaration; return some (.binding declaration))
  <|> (do let declaration ← requireDeclaration; return some (.binding declaration))
  <|> (do let literal ← taggedTemplate; return some (.template literal))
  <|> (do let literal ← template; return some (.template literal))
  <|> (do let _ ← lexeme Lexeme.string; return none)
  <|> (do let _ ← identifier; return none)
  <|> (do let _ ← lexeme otherCharacter; return none)

/-- A whole script. -/
def file : Rule (List Item) := named .file do
  let items ← many item
  endOfInput
  return items.filterMap id

end Rule

/-- The items of a script in order, templates inside of substitutions left out. -/
def scan (source : Text) : Except ScanError (List Item) :=
  let reading := Rule.file ⟨0, source⟩
  match reading.result with
  | some (items, _) => .ok items
  | none => .error (.ofAttempts reading.attempts)

end Script
end Hypertext
