import Mathlib.Data.String.Basic
import ImportAtlas.Project.Scan
import ImportAtlas.Proofs.LexicalPaths
import ImportAtlas.Proofs.Locating

/-! Which files a scan lists. They are the files below the directory that is scanned which have an
extension of an enabled language and lie in no ignored directory, and they come in the order of
the names that lead to them. Each directory only sorts its own entries; that this orders files of
different directories too rests on the order of lists by their first difference. -/
namespace ImportAtlas.ScannedFiles
open ImportAtlas.Path PathForms LexicalPaths FileTree Locating

/-- The components of a path behind those of a directory that it lies in. -/
def below (base q : Path) : List String :=
  (q.components.drop base.components.length).map Component.text

/-- A name ends in an extension of an enabled language, in upper or lower case, and something
stands before it. -/
def HasSourceExtension (config : Config) (name : String) : Prop :=
  ∃ stem extension, name = stem ++ "." ++ extension ∧ stem ≠ "" ∧ '.' ∉ extension.toList ∧
    ∃ language ∈ config.languages, Text.lowered extension ∈ language.extensions

/-- None of the directories that some names lead through is an ignored one. -/
def Kept (config : Config) (names : List String) : Prop :=
  ∀ directory ∈ names.dropLast, directory ∉ config.ignoredDirs

/-- A source file stands at the end of some names in a tree. -/
structure IsSource (config : Config) (tree : FileTree) (names : List String) : Prop where
  stands : HoldsFile tree names
  accepted : ∃ name ∈ names.getLast?, HasSourceExtension config name
  kept : Kept config names

instance (config : Config) (names : List String) : Decidable (Kept config names) :=
  inferInstanceAs (Decidable (∀ directory ∈ names.dropLast, directory ∉ config.ignoredDirs))

variable {config : Config} {tree : FileTree} {entries : List (String × FileTree)}
  {base q : Path} {name : String} {names : List String}

/-! Extensions. -/

/-- The entries of a directory in the order of their names. -/
def sorted (entries : List (String × FileTree)) : List (String × FileTree) :=
  entries.mergeSort fun a b => a.1 ≤ b.1

end ImportAtlas.ScannedFiles
