import Hypertext.Text.Basic

set_option autoImplicit false

/-! # Settings in TOML

The part of TOML that options are written in: one key and one value a line, where a value is a
string, a boolean or an array of strings. All else that TOML knows (numbers, dates, tables, dotted
keys) cannot be the value of an option, so it is refused here already. -/

namespace Hypertext

/-- The value of a setting. -/
inductive Setting where
  | string (text : Text)
  | boolean (value : Bool)
  | strings (texts : List Text)
  deriving DecidableEq, Repr

namespace Toml

/-- A reader that gives what it reads and the text after it. -/
abbrev Reader (α : Type) := Text → Option (α × Text)

/-! ## Lines -/

/-- The blanks within a line. -/
def isInlineBlank (c : Char) : Bool := c == ' ' || c == '\t'

/-- The characters that can stand in comments and strings of one line. -/
def isPlain (c : Char) : Bool := c == '\t' || (0x20 ≤ c.toNat && c.toNat != 0x7F)

/-- The text after a line break. -/
def lineBreak? : Text → Option Text
  | '\n' :: t => some t
  | '\r' :: '\n' :: t => some t
  | _ => none

/-- The text after a comment, if there is one. -/
def skipComment : Text → Text
  | '#' :: t => t.dropWhile isPlain
  | t => t

/-- The text after the end of a line, before which only blanks and a comment may stand. -/
def lineEnd? (t : Text) : Option Text :=
  match skipComment (t.dropWhile isInlineBlank) with
  | [] => some []
  | rest => lineBreak? rest

/-- The text after blanks, comments and line breaks. -/
def skipFiller (t : Text) : Text :=
  match t.dropWhile isInlineBlank with
  | [] => []
  | rest =>
    match skipComment rest with
    | [] => []
    | line =>
      match lineBreak? line with
      | some after => if after.length < t.length then skipFiller after else after
      | none => rest
termination_by t.length

/-! ## Strings -/

/-- The character that a row of hexadecimal digits stands for. -/
def charOfHex? (digits : Text) : Option Char :=
  match digits.mapM Text.hexDigit? with
  | some values => Text.charOfCode? (values.foldl (fun n digit => n * 16 + digit) 0)
  | none => none

/-- The character of an escape, whose backslash is read already. -/
def escape? : Reader Char
  | 'b' :: t => some ('\x08', t)
  | 't' :: t => some ('\t', t)
  | 'n' :: t => some ('\n', t)
  | 'f' :: t => some ('\x0c', t)
  | 'r' :: t => some ('\r', t)
  | 'e' :: t => some ('\x1b', t)
  | '"' :: t => some ('"', t)
  | '\\' :: t => some ('\\', t)
  | 'x' :: t => if t.length < 2 then none else (charOfHex? (t.take 2)).map (·, t.drop 2)
  | 'u' :: t => if t.length < 4 then none else (charOfHex? (t.take 4)).map (·, t.drop 4)
  | 'U' :: t => if t.length < 8 then none else (charOfHex? (t.take 8)).map (·, t.drop 8)
  | _ => none

/-- A string in double quotes on one line, whose opening quote is read already. -/
def basicString? (t : Text) : Option (Text × Text) :=
  match t with
  | [] => none
  | '"' :: rest => some ([], rest)
  | '\\' :: rest =>
    match escape? rest with
    | none => none
    | some (c, after) =>
      if after.length ≤ rest.length then
        (basicString? after).map fun result => (c :: result.1, result.2)
      else none
  | c :: rest =>
    if isPlain c then (basicString? rest).map fun result => (c :: result.1, result.2) else none
termination_by t.length

/-- A string in single quotes on one line, whose opening quote is read already. -/
def literalString? : Reader Text
  | [] => none
  | c :: t =>
    if c == '\x27' then some ([], t)
    else if isPlain c then (literalString? t).map fun result => (c :: result.1, result.2)
    else none

/-- The end of a string in three quotes. Up to two more quotes before the end belong to the
string. -/
def closing? (quote : Char) (t : Text) : Option (Text × Text) :=
  let quotes := (t.takeWhile (· == quote)).take 5
  if quotes.length < 3 then none else some (quotes.drop 3, t.drop quotes.length)

/-- The text after blanks and line breaks. -/
def skipBlankLines : Text → Text
  | ' ' :: t => skipBlankLines t
  | '\t' :: t => skipBlankLines t
  | '\n' :: t => skipBlankLines t
  | '\r' :: '\n' :: t => skipBlankLines t
  | t => t

/-- The text after the blanks and line breaks that a backslash at the end of a line hides. -/
def continuation? (t : Text) : Option Text :=
  (lineBreak? (t.dropWhile isInlineBlank)).map skipBlankLines

/-- The rest of a string in three quotes, in which escapes count for double quotes. Line breaks stay
as they are written. -/
def multilineBody? (quote : Char) (t : Text) : Option (Text × Text) :=
  match closing? quote t with
  | some result => some result
  | none =>
    match t with
    | [] => none
    | c :: rest =>
      let step : Option (Text × Text) :=
        if c == '\\' && quote == '"' then
          match continuation? rest with
          | some after => some ([], after)
          | none => (escape? rest).map fun result => ([result.1], result.2)
        else
          match lineBreak? t with
          | some after => some (t.take (t.length - after.length), after)
          | none => if isPlain c then some ([c], rest) else none
      match step with
      | none => none
      | some (text, after) =>
        if after.length ≤ rest.length then
          (multilineBody? quote after).map fun result => (text ++ result.1, result.2)
        else none
termination_by t.length

/-- A string in three quotes, which are read already. A line break at its start does not count. -/
def multilineString? (quote : Char) (t : Text) : Option (Text × Text) :=
  multilineBody? quote ((lineBreak? t).getD t)

/-- A string of any kind. -/
def string? : Reader Text
  | '"' :: '"' :: '"' :: t => multilineString? '"' t
  | '"' :: t => basicString? t
  | '\x27' :: '\x27' :: '\x27' :: t => multilineString? '\x27' t
  | '\x27' :: t => literalString? t
  | _ => none

/-! ## Values and keys -/

/-- The strings of an array, whose opening bracket is read already. A comma may follow the last. -/
def strings? (t : Text) : Option (List Text × Text) :=
  match skipFiller t with
  | ']' :: rest => some ([], rest)
  | start =>
    match string? start with
    | none => none
    | some (text, after) =>
      match skipFiller after with
      | ']' :: rest => some ([text], rest)
      | ',' :: rest =>
        if rest.length < t.length then
          (strings? rest).map fun result => (text :: result.1, result.2)
        else none
      | _ => none
termination_by t.length

/-- A value. -/
def value? (t : Text) : Option (Setting × Text) :=
  match t with
  | '[' :: rest => (strings? rest).map fun result => (.strings result.1, result.2)
  | _ =>
    match string? t with
    | some (text, rest) => some (.string text, rest)
    | none =>
      ((Text.after? "true".toList t).map (Setting.boolean true, ·)).or
        ((Text.after? "false".toList t).map (Setting.boolean false, ·))

/-- The characters of a key without quotes. -/
def isKeyChar (c : Char) : Bool := c.isAlphanum || c == '_' || c == '-'

/-- A key, plain or in quotes. -/
def key? : Reader Text
  | '"' :: t => basicString? t
  | '\x27' :: t => literalString? t
  | t =>
    match t.takeWhile isKeyChar with
    | [] => none
    | key => some (key, t.dropWhile isKeyChar)

/-- A key with its value, up to the end of the line. -/
def setting? (t : Text) : Option ((Text × Setting) × Text) :=
  match key? t with
  | none => none
  | some (key, rest) =>
    match rest.dropWhile isInlineBlank with
    | '=' :: after =>
      match value? (after.dropWhile isInlineBlank) with
      | none => none
      | some (value, tail) => (lineEnd? tail).map ((key, value), ·)
    | _ => none

/-- The settings of a text, in order. -/
def settings? (t : Text) : Option (List (Text × Setting)) :=
  match skipFiller t with
  | [] => some []
  | start =>
    match setting? start with
    | none => none
    | some (setting, rest) =>
      if rest.length < t.length then (settings? rest).map (setting :: ·) else none
termination_by t.length

/-- The settings of a file, which may begin with a byte order mark. -/
def parse? (t : Text) : Option (List (Text × Setting)) :=
  match t with
  | '\ufeff' :: rest => settings? rest
  | _ => settings? t

end Toml
end Hypertext
