import Hypertext.Command.Path
import Hypertext.Command.Task
import Hypertext.Sorted

set_option autoImplicit false

/-! # Trees of files

A file system that is only described: the files with their contents, the directories, and which of
them is the working directory. A place in it is the list of names that lead there from the root.
Following a task on such a tree shows what it prints and writes. -/

namespace Hypertext
namespace Command

/-- The names that lead from the root to a file or directory. -/
abbrev Place := List SystemText

/-- The files and directories of a system, and the directory that paths lead from unless they lead
from the root. -/
structure FileTree where
  files : List (Place × SystemText)
  directories : List Place
  working : Place
  deriving Repr

namespace FileTree

/-- The content of a file. -/
def content? (tree : FileTree) (place : Place) : Option SystemText :=
  (tree.files.find? fun file => file.1 == place).map Prod.snd

/-- Whether there is a directory at a place. There is one at the root. -/
def isDirectory (tree : FileTree) (place : Place) : Bool :=
  place.isEmpty || tree.directories.contains place

/-- The place that steps lead to from a directory. Only the last step may lead to nothing. A step
back from the root stays there. -/
def follow (tree : FileTree) (place : Place) : List SystemText → Except SystemError Place
  | [] => .ok place
  | step :: steps =>
    if !tree.isDirectory place then
      .error (if (tree.content? place).isSome then .notDirectory else .notFound)
    else if isStay step then tree.follow place steps
    else if isBack step then tree.follow place.dropLast steps
    else tree.follow (place ++ [step]) steps

/-- Where a path leads from. -/
def start (tree : FileTree) (path : SystemText) : Place :=
  if isAbsolute path then [] else tree.working

/-- The place of a path. An empty path has none. -/
def locate (tree : FileTree) (path : SystemText) : Except SystemError Place :=
  if path.isEmpty then .error .notFound else tree.follow (tree.start path) (pathSteps path)

/-- Reads a file. -/
def read (tree : FileTree) (path : SystemText) : Except SystemError Text :=
  match tree.locate path with
  | .error e => .error e
  | .ok place =>
    match tree.content? place with
    | some content => content.text?.elim (.error .notText) .ok
    | none => .error (if tree.isDirectory place then .isDirectory else .notFound)

/-- Writes a file, in place of what was in it. -/
def write (tree : FileTree) (path : SystemText) (content : Text) : Except SystemError FileTree :=
  match tree.locate path with
  | .error e => .error e
  | .ok place =>
    if tree.isDirectory place then .error .isDirectory
    else .ok { tree with
      files := (place, .ofText content) :: tree.files.filter fun file => file.1 != place }

/-- Makes one directory, where steps lead to from a place. -/
def createDirectory (tree : FileTree) (place : Place) (steps : List SystemText) :
    Except SystemError FileTree :=
  match tree.follow place steps with
  | .error e => .error e
  | .ok target =>
    if tree.isDirectory target || (tree.content? target).isSome then .error .fileExists
    else .ok { tree with directories := target :: tree.directories }

/-- The tree as it is if steps lead to a directory in it, else an error. -/
def existing (tree : FileTree) (place : Place) (steps : List SystemText) (e : SystemError) :
    Except SystemError FileTree :=
  match tree.follow place steps with
  | .ok target => if tree.isDirectory target then .ok tree else .error e
  | .error _ => .error e

/-- Makes one directory, unless it is there already. If it has nowhere to be, it is tried once more
in the tree `around`, in which those that it lies in were made. -/
def ensure (tree : FileTree) (place : Place) (steps : List SystemText)
    (around : Except SystemError FileTree) : Except SystemError FileTree :=
  match tree.createDirectory place steps with
  | .ok made => .ok made
  | .error .notFound =>
    match around with
    | .error e => .error e
    | .ok prepared =>
      match prepared.createDirectory place steps with
      | .ok made => .ok made
      | .error e => prepared.existing place steps e
  | .error e => tree.existing place steps e

/-- Makes a directory and those that it lies in, the given names in reverse. -/
def ensureReversed (tree : FileTree) (place : Place) :
    List SystemText → Except SystemError FileTree
  | [] => .ok tree
  | last :: before => tree.ensure place (last :: before).reverse (tree.ensureReversed place before)

/-- Makes the directory of a path and those that it lies in. -/
def createDirectories (tree : FileTree) (path : SystemText) : Except SystemError FileTree :=
  let place := tree.start path
  tree.ensure place (directorySteps path)
    (tree.ensureReversed place (pathNames path).dropLast.reverse)

/-- The files in the working directory that are new or whose content changed, sorted by path. -/
def changes (before after : FileTree) : List (Text × Text) :=
  let changed := after.files.filter fun file =>
    after.working.isPrefixOf file.1 && before.content? file.1 != some file.2
  let path (place : Place) := Text.joinWith ['/'] <|
    (place.drop after.working.length).map SystemText.shown
  sorted (fun a b => !decide (b.1 < a.1))
    (changed.map fun file => (path file.1, SystemText.shown file.2))

end FileTree

/-- What is seen of a task: what it printed, how it ended, and the files after it. -/
structure Outcome where
  printed : Text
  ending : Ending
  tree : FileTree

/-- Follows a task on a tree of files. What is printed goes to an output that takes all of it or
refuses. -/
def Task.follow (output : Except SystemError Unit) (tree : FileTree) : Task → Outcome
  | .finish ending => ⟨[], ending, tree⟩
  | .print text next =>
    let outcome := (next output).follow output tree
    match output with
    | .ok _ => { outcome with printed := text ++ outcome.printed }
    | .error _ => outcome
  | .readFile path next => (next (tree.read path)).follow output tree
  | .createDirectories path next =>
    match tree.createDirectories path with
    | .ok made => (next (.ok ())).follow output made
    | .error e => (next (.error e)).follow output tree
  | .writeFile path content next =>
    match tree.write path content with
    | .ok written => (next (.ok ())).follow output written
    | .error e => (next (.error e)).follow output tree

end Command
end Hypertext
