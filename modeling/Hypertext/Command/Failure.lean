import Hypertext.Text.Basic

set_option autoImplicit false

/-! # Failures of a command

A failure is a message with the chain of its causes, each of which explains the one before it. -/

namespace Hypertext
namespace Command

/-- Why a command failed. -/
structure Failure where
  message : Text
  causes : List Text
  deriving DecidableEq, Repr

namespace Failure

/-- The failure with a message about what was being done in front of it. -/
def context (message : Text) (failure : Failure) : Failure :=
  ⟨message, failure.message :: failure.causes⟩

/-- The messages on one line. -/
def oneLine (failure : Failure) : Text :=
  Text.joinWith ": ".toList (failure.message :: failure.causes)

/-- A cause behind a label. Lines after its first are indented as far as the label reaches. -/
def labelled (label cause : Text) : Text :=
  label ++ Text.joinWith ('\n' :: List.replicate label.length ' ') (Text.splitOn (· == '\n') cause)

/-- Causes on lines of their own, numbered from `n`. -/
def numbered (n : Nat) : List Text → Text
  | [] => []
  | cause :: rest =>
    labelled ("    ".toList ++ Text.ofNat n ++ ": ".toList) cause ++ '\n' :: numbered (n + 1) rest

/-- The failure as it is reported. Several causes are numbered, a single one is not. -/
def report (failure : Failure) : Text :=
  let causes := match failure.causes with
    | [] => []
    | [cause] => "\nCaused by:\n".toList ++ labelled "    ".toList cause ++ ['\n']
    | causes => "\nCaused by:\n".toList ++ numbered 0 causes
  "Error: ".toList ++ failure.message ++ ['\n'] ++ causes

end Failure
end Command
end Hypertext
