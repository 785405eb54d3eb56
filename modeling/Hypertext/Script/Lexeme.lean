import Hypertext.Text.Identifier
import Hypertext.Text.Basic

set_option autoImplicit false

/-! # Lexemes

The pieces that a script is made of, as far as they matter for finding template literals: comments,
strings, words, and the text inside templates. A reader takes the longest piece of its kind from the
start of a text and gives it together with the text that remains.

Inside `${` and `}` an expression is read as a row of comments, templates, strings, braced blocks
and single characters. Expressions and templates nest in each other; the depth is bounded by the
length of the text, which serves as fuel. -/

namespace Hypertext
namespace Script
namespace Lexeme

/-- A reader of one kind of lexeme. -/
abbrev Reader := Text → Option (Text × Text)

/-! ## Blanks and line breaks -/

/-- The blanks within a line. -/
def isInlineBlank (c : Char) : Bool := c == ' ' || c == '\t'

/-- The characters of a line break. -/
def isLineBreak (c : Char) : Bool := c == '\n' || c == '\r'

/-- The blanks between words. -/
def isSpace (c : Char) : Bool := isInlineBlank c || isLineBreak c

/-- The longest start of a text, possibly empty, all of whose characters satisfy `p`. -/
def run (p : Char → Bool) : Reader := fun t => some (t.takeWhile p, t.dropWhile p)

/-- The longest start of a text that is not empty and all of whose characters satisfy `p`. -/
def run1 (p : Char → Bool) : Reader := fun t =>
  if (t.takeWhile p).isEmpty then none else run p t

/-- The given characters. -/
def exactly (s : Text) : Reader := fun t => (Text.after? s t).map fun rest => (s, rest)

/-- A line break. -/
def lineBreak : Reader
  | '\r' :: '\n' :: t => some (['\r', '\n'], t)
  | c :: t => if isLineBreak c then some ([c], t) else none
  | [] => none

/-! ## Comments -/

/-- A comment that ends with its line. -/
def lineComment : Reader
  | '/' :: '/' :: t =>
    some ('/' :: '/' :: t.takeWhile (!isLineBreak ·), t.dropWhile (!isLineBreak ·))
  | _ => none

/-- A comment between `/*` and `*/`. -/
def blockComment : Reader
  | '/' :: '*' :: t =>
    let body := Text.breakAt (Text.startsWith "*/".toList) t
    (Text.after? "*/".toList body.2).map fun rest => ('/' :: '*' :: (body.1 ++ "*/".toList), rest)
  | _ => none

/-- A comment of either kind. -/
def comment : Reader := fun t => (lineComment t).or (blockComment t)

/-! ## Strings and words -/

/-- What stands in a string before its closing quote. A backslash takes the next character with it,
whatever it is; otherwise a line break ends the text. -/
def stringBody (quote : Char) : Text → Text × Text
  | [] => ([], [])
  | '\\' :: c :: t => ('\\' :: c :: (stringBody quote t).1, (stringBody quote t).2)
  | c :: t =>
    if c == quote || isLineBreak c then ([], c :: t)
    else (c :: (stringBody quote t).1, (stringBody quote t).2)

/-- A string in the given quotes. -/
def stringIn (quote : Char) : Reader
  | [] => none
  | c :: t =>
    if c != quote then none
    else
      let body := stringBody quote t
      match body.2 with
      | d :: rest => if d == quote then some (c :: (body.1 ++ [d]), rest) else none
      | [] => none

/-- A string in double or single quotes. -/
def string : Reader := fun t => (stringIn '"' t).or (stringIn '\x27' t)

/-- A word, which is how identifiers and keywords look. -/
def word : Reader
  | c :: t =>
    if isIdentifierStart c || c == '_' || c == '$' then
      some (c :: t.takeWhile (fun d => isIdentifierPart d || d == '$'),
        t.dropWhile fun d => isIdentifierPart d || d == '$')
    else none
  | [] => none

/-- The name of a module in the given quotes: no backslash and no line break. -/
def moduleText (quote : Char) : Reader :=
  run fun c => !(c == quote || c == '\\' || isLineBreak c)

/-! ## Templates and expressions -/

/-- The characters of a template up to its end or to a substitution. A backslash takes the next
character with it. -/
def templateChars : Text → Text × Text
  | [] => ([], [])
  | '\\' :: c :: t => ('\\' :: c :: (templateChars t).1, (templateChars t).2)
  | '$' :: '\x7b' :: t => ([], '$' :: '\x7b' :: t)
  | c :: t =>
    if c == '\x60' then ([], c :: t) else (c :: (templateChars t).1, (templateChars t).2)

/-- The substitutions in a template with the characters after each, where `inner` reads what stands
between the braces. At most `fuel` of them are read. -/
def templatePieces (inner : Text → Text × Text) : Nat → Text → Text × Text
  | 0, t => ([], t)
  | fuel + 1, t =>
    match Text.after? "$\x7b".toList t with
    | none => ([], t)
    | some body =>
      match (inner body).2 with
      | '\x7d' :: rest =>
        let chars := templateChars rest
        let others := templatePieces inner fuel chars.2
        ("$\x7b".toList ++ (inner body).1 ++ ['\x7d'] ++ chars.1 ++ others.1, others.2)
      | _ => ([], t)

/-- A whole template inside an expression. -/
def templateText (inner : Text → Text × Text) : Reader
  | '\x60' :: t =>
    let chars := templateChars t
    let body := templatePieces inner chars.2.length chars.2
    match body.2 with
    | '\x60' :: rest => some ('\x60' :: (chars.1 ++ body.1 ++ ['\x60']), rest)
    | _ => none
  | _ => none

/-- A block in braces. -/
def braces (inner : Text → Text × Text) : Reader
  | '\x7b' :: t =>
    match (inner t).2 with
    | '\x7d' :: rest => some ('\x7b' :: ((inner t).1 ++ ['\x7d']), rest)
    | _ => none
  | _ => none

/-- Any character but a closing brace. -/
def notClosing : Reader
  | c :: t => if c == '\x7d' then none else some ([c], t)
  | [] => none

/-- One part of an expression. A quote, backquote or brace without its partner counts as a
character. -/
def expressionPart (inner : Text → Text × Text) : Reader := fun t =>
  (comment t).or <| (templateText inner t).or <| (string t).or <| (braces inner t).or <|
    notClosing t

/-- The parts of an expression, at most `fuel` of them and as deeply nested. -/
def expressionParts : Nat → Text → Text × Text
  | 0, t => ([], t)
  | fuel + 1, t =>
    match expressionPart (expressionParts fuel) t with
    | none => ([], t)
    | some (part, rest) =>
      (part ++ (expressionParts fuel rest).1, (expressionParts fuel rest).2)

/-- An expression up to the brace that closes it. Each part takes at least one character, so
the length of the text bounds both their number and their depth. -/
def expression : Reader := fun t => some (expressionParts t.length t)

end Lexeme
end Script
end Hypertext
