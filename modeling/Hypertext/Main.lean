import Hypertext.Command.Session

set_option autoImplicit false

/-! # The program

The outer layer: it carries out a task on the real files and reports how it ended. -/

namespace Hypertext
namespace Command

/-- The error of the system behind a failed operation. Its code may come with the sign turned. -/
def systemError : IO.Error → SystemError
  | .noFileOrDirectory .. => .notFound
  | .alreadyExists .. => .fileExists
  | .inappropriateType _ code _ =>
    if code == 20 || code + 20 == 0 then .notDirectory else .isDirectory
  | e => .other e.toString.toList

/-- Does an operation and gives its result or the error. -/
def attempt {α : Type} (action : IO α) : IO (Except SystemError α) := do
  try
    let a ← action
    return .ok a
  catch e => return .error (systemError e)

/-- Nothing if there is a directory at a path, else an error. -/
def unlessDirectory (path : SystemText) (e : SystemError) : IO (Except SystemError Unit) := do
  let found ← attempt do
    let place ← IO.FS.realPath (String.ofList path.shown)
    place.isDir
  match found with
  | .ok true => return .ok ()
  | _ => return .error e

/-- Makes one directory, unless it is there already. If it has nowhere to be, it is tried once more
after `prepare`, which makes those that it lies in. -/
def makeDirectory (path : SystemText) (prepare : IO (Except SystemError Unit)) :
    IO (Except SystemError Unit) := do
  match ← attempt (IO.FS.createDir (String.ofList path.shown)) with
  | .ok _ => return .ok ()
  | .error .notFound =>
    match ← prepare with
    | .error e => return .error e
    | .ok _ =>
      match ← attempt (IO.FS.createDir (String.ofList path.shown)) with
      | .ok _ => return .ok ()
      | .error e => unlessDirectory path e
  | .error e => unlessDirectory path e

/-- Makes a directory and those that it lies in, the given names in reverse and `root` before the
first of them. -/
def makeReversed (root : SystemText) : List SystemText → IO (Except SystemError Unit)
  | [] => return .ok ()
  | last :: before =>
    makeDirectory ((last :: before).reverse.foldl joinPath root) (makeReversed root before)

/-- Makes the directory of a path and those that it lies in. -/
def makeDirectories (path : SystemText) : IO (Except SystemError Unit) :=
  makeDirectory path
    (makeReversed (path.takeWhile (· == slash)) (pathNames path).dropLast.reverse)

/-- Carries out a task. -/
def perform : Task → IO Ending
  | .finish ending => return ending
  | .print text next => do
    let printed ← attempt do
      IO.print (String.ofList text)
      (← IO.getStdout).flush
    perform (next printed)
  | .readFile path next => do
    let content ← attempt (IO.FS.readFile (String.ofList path.shown))
    perform (next (content.map String.toList))
  | .createDirectories path next => do
    let made ← makeDirectories path
    perform (next made)
  | .writeFile path content next => do
    let written ← attempt (IO.FS.writeFile (String.ofList path.shown) (String.ofList content))
    perform (next written)

/-- Answers a command line. -/
def runLine (arguments : List SystemText) : IO UInt32 := do
  match Request.ofArguments arguments with
  | .error e =>
    IO.eprint (String.ofList e.report)
    return usageCode.toUInt32
  | .ok request =>
    let ending ← perform request.task
    IO.eprint (String.ofList ending.report)
    return ending.exitCode.toUInt32

end Command
end Hypertext

/-- The program. -/
def main (arguments : List String) : IO UInt32 :=
  Hypertext.Command.runLine (arguments.map fun argument => .ofText argument.toList)
