import Hypertext.Text.Blank
import Hypertext.Text.Word

set_option autoImplicit false

/-! # Separators

Generated code begins with a parenthesis. Where a template begins a line and the line before it
could go on, that parenthesis would make a call of it, so a semicolon has to stand between them. The
text before the template is looked at backwards, its last character first. -/

namespace Hypertext
namespace Script

/-- The words after which an operand follows even on the next line. -/
def operandKeywords : List Text :=
  ["await", "case", "delete", "do", "else", "in", "instanceof", "new", "of", "return", "throw",
    "typeof", "void", "yield"].map String.toList

/-- The words that begin a statement with a head in parentheses. -/
def controlHeads : List Text := ["for", "if", "while", "with"].map String.toList

/-- The characters of a word in running code. -/
def isCodeWordChar (c : Char) : Bool := c == '_' || c == '$' || isAlphanumeric c

/-- The word at the end of a text that is given backwards. -/
def trailingWord (backwards : Text) : Text := (backwards.takeWhile isCodeWordChar).reverse

/-- Whether the parenthesis that ends a text, which is given backwards, closes the head of a
statement. `depth` counts the parentheses that are open so far. -/
def closesControlHead (depth : Nat) : Text → Bool
  | [] => false
  | ')' :: t => closesControlHead (depth + 1) t
  | '(' :: t =>
    if depth = 0 then closesControlHead 0 t
    else if depth = 1 then controlHeads.contains (trailingWord (t.dropWhile isBlank))
    else closesControlHead (depth - 1) t
  | _ :: t => closesControlHead depth t

/-- The text before a block comment that ends a text, both given backwards. -/
def beforeComment? : Text → Option Text
  | '/' :: '*' :: t => Text.after? ['*', '/'] (Text.breakAt (Text.startsWith ['*', '/']) t).2
  | _ => none

/-- The text before trailing blanks and block comments, given backwards, and whether there is a line
break among the blanks. -/
def beforeBlanks (lineBreak : Bool) (t : Text) : Text × Bool :=
  let seen := lineBreak || (t.takeWhile isBlank).contains '\n'
  let rest := t.dropWhile isBlank
  match beforeComment? rest with
  | some before => if before.length < t.length then beforeBlanks seen before else (rest, seen)
  | none => (rest, seen)
termination_by t.length

/-- Whether code after the given text needs a semicolon in front of it. -/
def needsSeparator (before : Text) : Bool :=
  match beforeBlanks false before.reverse with
  | (_, false) => false
  | ([], true) => false
  | (c :: t, true) =>
    if c == ')' then !closesControlHead 0 (c :: t)
    else if c == ']' || c == '\x7d' || c == '"' || c == '\x27' || c == '\x60' then true
    else isCodeWordChar c && !operandKeywords.contains (trailingWord (c :: t))

end Script
end Hypertext
