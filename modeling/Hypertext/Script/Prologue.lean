import Hypertext.Text.Blank

set_option autoImplicit false

/-! # The prologue of a script

Declarations are put after the line that names an interpreter and after the directive that makes a
script strict, because both have to come first. -/

namespace Hypertext
namespace Script

/-- The text after a first line that begins with `#!`, if it ends in a line break. -/
def afterInterpreter (source : Text) : Text :=
  match source with
  | '#' :: '!' :: rest =>
    match rest.dropWhile (· != '\n') with
    | _ :: after => after
    | [] => source
  | _ => source

/-- The text after the directive, if the text begins with it. -/
def afterDirective? (t : Text) : Option Text :=
  (Text.after? "'use strict'".toList t).or (Text.after? "\"use strict\"".toList t)

/-- The text after a given character, if it begins with it, else the text. -/
def skipOne (c : Char) : Text → Text
  | d :: t => if d = c then t else d :: t
  | [] => []

/-- The text after the prologue. A directive takes with it a semicolon, blanks and a line break. -/
def afterPrologue (source : Text) : Text :=
  let rest := afterInterpreter source
  match afterDirective? rest.trimStart with
  | none => rest
  | some after => skipOne '\n' ((skipOne ';' after).dropWhile fun c => c == ' ' || c == '\t')

/-- The offset after the prologue. -/
def prologueEnd (source : Text) : Nat :=
  source.byteSize - (afterPrologue source).byteSize

end Script
end Hypertext
