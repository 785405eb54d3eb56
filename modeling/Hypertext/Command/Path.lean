import Hypertext.Command.SystemText

set_option autoImplicit false

/-! # Paths

A path is a row of steps with slashes between them. A step leads to a name, stays in place, or goes
back to the directory around the current one. -/

namespace Hypertext
namespace Command

/-- The slash between steps. -/
def slash : SystemChar := .char '/'

/-- The steps of a path. A leading slash gives an empty first step. -/
def pathSteps (path : SystemText) : List SystemText := Text.splitOn (· == slash) path

/-- Whether a path leads from the root of all files. -/
def isAbsolute (path : SystemText) : Bool := path.head? == some slash

/-- Whether a step stays in place. -/
def isStay (step : SystemText) : Bool := step.isEmpty || step == .ofText ['.']

/-- Whether a step goes back to the directory around the current one. -/
def isBack (step : SystemText) : Bool := step == .ofText ['.', '.']

/-- The names in a path, steps that stay in place left out. -/
def pathNames (path : SystemText) : List SystemText :=
  (pathSteps path).filter fun step => !isStay step

/-- The last name in a path, unless the path ends in a step back. -/
def fileName? (path : SystemText) : Option SystemText :=
  (pathNames path).getLast?.filter fun name => !isBack name

/-- The path of a name in a directory. -/
def joinPath (directory name : SystemText) : SystemText :=
  match directory.getLast? with
  | none => name
  | some c => if c == slash then directory ++ name else directory ++ slash :: name

/-- The steps of the path of a directory. Slashes at its end do not count, but a step that stays in
place there asks for the directory before it. -/
def directorySteps (path : SystemText) : List SystemText :=
  ((pathSteps path).reverse.dropWhile List.isEmpty).reverse

end Command
end Hypertext
