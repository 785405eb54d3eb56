import Hypertext.Command.Arguments
import Hypertext.Command.FileTree

set_option autoImplicit false

/-! # Sessions

What is seen of the program as a whole: it is given a command line, an output and a working
directory, and leaves a number, texts and files. -/

namespace Hypertext
namespace Command

/-- The task that a request stands for. Help that cannot be printed is no failure. -/
def Request.task : Request → Task
  | .run command => command.task
  | .help => .print usage fun _ => .finish .success
  | .version => .print Command.version fun _ => .finish .success

/-- What is reported of an ending. -/
def Ending.report : Ending → Text
  | .failure reason => reason.report
  | .success | .abort => []

/-- The number that the program ends with if it refuses the command line. -/
def usageCode : Nat := 2

/-- What is reported of a command line that is refused. -/
def UsageError.report (e : UsageError) : Text := "error: ".toList ++ e.message ++ ['\n']

end Command
end Hypertext
