import Hypertext.Script.Reading

set_option autoImplicit false

/-! # Errors in scripts -/

namespace Hypertext
namespace Script

/-- A list of alternatives in words. -/
def enumerate : List Text → Text
  | [] => []
  | [a] => a
  | [a, b] => a ++ " or ".toList ++ b
  | names =>
    Text.joinWith ", ".toList (names.take (names.length - 1)) ++ ", or ".toList
      ++ names.getLastD []

/-- Why a script, or the text of a template in it, cannot be read. -/
inductive ScanError where
  | unreadable (offset : Nat) (expected : List Expectation)
  | invalidEscape (offset : Nat) (sequence : Text)
  deriving DecidableEq, Repr

namespace ScanError

/-- The error of a script for which the given attempts failed: the expectations are those to blame
at the furthest offset, in order and each once. -/
def ofAttempts (attempts : List Attempt) : ScanError :=
  let place := Attempt.furthestOf attempts
  let blamed := Attempt.blameAll place attempts
  .unreadable place (Expectation.all.filter blamed.contains)

/-- Where the error is, in the text that was read. -/
def offset : ScanError → Nat
  | .unreadable offset _ => offset
  | .invalidEscape offset _ => offset

/-- The error for a text that stands `base` bytes further on. -/
def shift (base : Nat) : ScanError → ScanError
  | .unreadable offset expected => .unreadable (base + offset) expected
  | .invalidEscape offset sequence => .invalidEscape (base + offset) sequence

/-- The message of an error. -/
def message : ScanError → Text
  | .unreadable offset expected =>
    "syntax error at byte ".toList ++ Text.ofNat offset ++ ": expected ".toList
      ++ enumerate (expected.map Expectation.name)
  | .invalidEscape _ sequence =>
    "invalid escape sequence `".toList ++ sequence ++ "` in template literal".toList

end ScanError

end Script
end Hypertext
