import Hypertext.Command.Failure
import Hypertext.Command.SystemText

set_option autoImplicit false

/-! # Tasks

What a command does to the world: it reads and writes files, makes directories and prints. Each of
these can fail. A task says so as data, so that it can be done for real or followed on a tree of
files that is only described. -/

namespace Hypertext
namespace Command

/-- Why the system refuses to read or write. -/
inductive SystemError where
  | notFound
  | fileExists
  | notDirectory
  | isDirectory
  /-- A file is read as text and is none. -/
  | notText
  | other (message : Text)
  deriving DecidableEq, Repr

/-- The message of an error. -/
def SystemError.message : SystemError → Text
  | .notFound => "No such file or directory (os error 2)".toList
  | .fileExists => "File exists (os error 17)".toList
  | .notDirectory => "Not a directory (os error 20)".toList
  | .isDirectory => "Is a directory (os error 21)".toList
  | .notText => "stream did not contain valid UTF-8".toList
  | .other message => message

/-- The failure that an error of the system is. -/
def SystemError.failure (e : SystemError) : Failure := ⟨e.message, []⟩

/-- How a task ends. -/
inductive Ending where
  | success
  | failure (failure : Failure)
  /-- The task stops without a report. -/
  | abort
  deriving DecidableEq, Repr

/-- The number that a program ends with. -/
def Ending.exitCode : Ending → Nat
  | .success => 0
  | .failure _ => 1
  | .abort => 101

/-- A task, step by step. -/
inductive Task where
  | finish (ending : Ending)
  | print (text : Text) (next : Except SystemError Unit → Task)
  | readFile (path : SystemText) (next : Except SystemError Text → Task)
  | createDirectories (path : SystemText) (next : Except SystemError Unit → Task)
  | writeFile (path : SystemText) (content : Text) (next : Except SystemError Unit → Task)

namespace Task

/-- Goes on with a result, or fails with a message about what was being done. -/
def orFail {α : Type} (doing : Text) (next : α → Task) : Except SystemError α → Task
  | .ok a => next a
  | .error e => .finish (.failure (e.failure.context doing))

/-- Prints a text and ends. If the text cannot be printed, there is no report of it. -/
def printLast (text : Text) : Task :=
  .print text fun
    | .ok _ => .finish .success
    | .error _ => .finish .abort

end Task
end Command
end Hypertext
