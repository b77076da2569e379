import ImportAtlas.Command.Arguments
import ImportAtlas.Project.Scan
import ImportAtlas.Report.Text
import ImportAtlas.Tree.Encode

/-! Commands at work: from a command line and a file system to what is printed. -/

namespace ImportAtlas

/-- What went wrong, and what lies behind it, the nearest cause first. -/
structure Failure where
  message : String
  causes : List String := []
  deriving DecidableEq, Repr, Inhabited

namespace Failure

/-- A failure of what depends on a failed project step. -/
def ofProject (message : String) (error : ProjectError) : Failure :=
  ⟨message, error.message :: error.causes⟩

/-- A text with its later lines moved in. -/
def indented (margin : String) (text : String) : String :=
  String.join (text.toList.map fun c => if c = '\n' then "\n" ++ margin else String.singleton c)

/-- The lines of the causes. Several are numbered. -/
def causeLines : List String → List String
  | [] => []
  | [cause] => ["    " ++ indented "    " cause]
  | causes => causes.zipIdx.map fun (cause, i) =>
    "    " ++ toString i ++ ": " ++ indented "       " cause

/-- A failure as it is reported. -/
def text (failure : Failure) : String :=
  let causes := causeLines failure.causes
  "Error: " ++ failure.message ++
    (if causes.isEmpty then "" else "\n\nCaused by:\n" ++ "\n".intercalate causes) ++ "\n"

end Failure

namespace Invocation

/-- The settings for a project. Languages of the invocation replace those of the
settings. -/
def config (i : Invocation) (files : Files) : Except Failure Config := do
  let config ←
    match i.preferences.config with
    | none => pure {}
    | some path =>
      (Config.load files path).mapError fun error =>
        ⟨"Failed to load config " ++ path.text, error.message :: error.causes⟩
  return if i.preferences.languages.isEmpty then config
    else { config with languages := i.preferences.languages }

/-- The project in a directory. -/
def project (i : Invocation) (files : Files) (path : Path) : Except Failure Project := do
  let config ← i.config files
  let root ← (files.canonical path).mapError fun cause =>
    ⟨"Project not found: " ++ path.text, [cause.message]⟩
  (Project.ofDirectory files root config).mapError
    (.ofProject ("Failed to open project " ++ root.text))

/-- The tree of a single file. -/
def module (i : Invocation) (files : Files) (path : Path) : Except Failure Module :=
  (files.readModule path i.preferences.importsOnly).mapError
    (.ofProject ("Failed to parse " ++ path.text))

/-- An empty report on a project. -/
def reportOn (p : Project) : Report :=
  { project := p.root.label, root := some p.root }

/-- The report on the imports of a file or a project. -/
def importsReport (i : Invocation) (files : Files) (path : Path) : Except Failure Report := do
  if files.isFile path then
    let tree ← i.module files path
    return { project := path.label, imports := [⟨path, tree.imports⟩] }
  else
    let p ← i.project files path
    return { reportOn p with imports := p.imports files }

/-- The report on the relations of a project's files. Cycles are those of the
direct relations. -/
def relationsReport (i : Invocation) (files : Files) (path : Path) (deep : Bool) :
    Except Failure Report := do
  let p ← i.project files path
  let relations := p.relations files
  return { reportOn p with
    relations := if deep then FileRelation.deep relations else relations
    deep
    cycles := (FileGraph.ofRelations relations).cycles }

/-- The query for some names of a source, or for any if there are none. -/
def query (source : String) (names : List String) : ImportQuery :=
  ImportQuery.ask {} source (if names.isEmpty then none else some names)

/-- The report on a project's routes. -/
def routesReport (i : Invocation) (files : Files) (path : Path) (routeFile : Option String) :
    Except Failure Report := do
  let p ← i.project files path
  let routes ←
    match routeFile with
    | some file =>
      (p.routesOf files file).mapError (.ofProject ("Failed to read routes from " ++ file))
    | none => (p.routes files).mapError (.ofProject "Failed to discover page routes")
  return { reportOn p with routes }

/-- What an invocation prints. -/
def run (i : Invocation) (files : Files) : Except Failure String := do
  match i.command with
  | .tree file => return (← i.module files file).toJson.text ++ "\n"
  | .imports path => return (← i.importsReport files path).text i.preferences.format
  | .objects file =>
    let tree ← i.module files file
    let report : Report :=
      { project := file.label, objects := tree.objects.map ObjectRecord.summary }
    return report.text i.preferences.format
  | .relations path deep =>
    return (← i.relationsReport files path deep).text i.preferences.format
  | .find path source names =>
    let p ← i.project files path
    let report : Report := { reportOn p with found := p.find files (query source names) }
    return report.text i.preferences.format
  | .routes path routeFile =>
    return (← i.routesReport files path routeFile).text i.preferences.format

end Invocation

/-- What a run of the program leaves: its exit code and its two outputs. -/
structure Outcome where
  code : Nat
  output : String := ""
  errors : String := ""
  deriving DecidableEq, Repr, Inhabited

namespace Outcome

/-- The name and version of the program. -/
def versionText : String :=
  "jsxscope 0.1.0\n"

/-- What a command line leads to. -/
def ofArguments (files : Files) (words : List String) : Outcome :=
  match Invocation.ofArguments words with
  | .error .help => ⟨0, "", ""⟩
  | .error .version => ⟨0, versionText, ""⟩
  | .error (.misuse cause) => ⟨2, "", "error: " ++ cause.message ++ "\n"⟩
  | .ok invocation =>
    match invocation.run files with
    | .ok text => ⟨0, text, ""⟩
    | .error failure => ⟨1, "", failure.text⟩

end Outcome
end ImportAtlas
