import ImportAtlas.Report.Basic

/-! What the program can be asked to do. -/

namespace ImportAtlas

/-- A task with what it is about. -/
inductive Command where
  /-- Print the tree of a file. -/
  | tree (file : Path)
  /-- List the imports of a file, or of all files of a project. -/
  | imports (path : Path)
  /-- List the object literals of a file. -/
  | objects (file : Path)
  /-- List the project files that each file imports, or everything that the files
  reach that no file imports. -/
  | relations (project : Path) (deep : Bool)
  /-- List the files that import some names from a source, or anything from it when
  there are no names. -/
  | find (project : Path) (source : String) (names : List String)
  /-- List the routes of a file, or of all files of a project. -/
  | routes (project : Path) (routeFile : Option String)
  deriving DecidableEq, Repr, Inhabited

/-- The path that a task starts from. -/
def Command.path : Command → Path
  | tree file => file
  | imports path => path
  | objects file => file
  | relations project _ => project
  | find project _ _ => project
  | routes project _ => project

/-- How a task is done. -/
structure Preferences where
  format : ReportFormat := .json
  /-- The file with the project's settings. -/
  config : Option Path := none
  /-- The languages to scan instead of those of the settings. -/
  languages : List Language := []
  /-- Whether single files are only read as far as their imports go. -/
  importsOnly : Bool := false
  deriving DecidableEq, Repr, Inhabited

/-- A task together with how it is done. -/
structure Invocation where
  command : Command
  preferences : Preferences := {}
  deriving DecidableEq, Repr, Inhabited

/-- The paths that an invocation reads from. -/
def Invocation.paths (i : Invocation) : List Path :=
  i.preferences.config.toList ++ [i.command.path]

end ImportAtlas
