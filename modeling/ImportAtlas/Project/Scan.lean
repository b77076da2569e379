import ImportAtlas.Manifest
import ImportAtlas.Project.Route
import ImportAtlas.Relation
import ImportAtlas.Tree.Module

/-! Projects: which files are their sources, what these import, and which routes
they define. -/

namespace ImportAtlas

/-- Why a question about a project has no answer. -/
inductive ProjectError where
  | sourceUnavailable (path : Path) (cause : AccessError)
  | notProject (path : Path)
  | noScanRoot (path : Path)
  | emptyRouteFile
  | routeFileMissing (path : Path)
  | noDependencies
  | noRouter
  | manifest (error : ManifestError)
  | config (error : ConfigError)
  deriving DecidableEq, Repr, Inhabited

namespace ProjectError

/-- The wording of an error. -/
def message : ProjectError → String
  | sourceUnavailable path cause =>
    "Source unavailable: " ++ path.text ++ ": " ++ cause.message
  | notProject path => "Not a project directory (missing src/): " ++ path.text
  | noScanRoot path => "Scan path is not a directory: " ++ path.text
  | emptyRouteFile => "Route file path is empty"
  | routeFileMissing path => "Route file does not exist: " ++ path.text
  | noDependencies => "package.json has no dependencies"
  | noRouter => "Project depends on neither react-router nor react-router-dom"
  | manifest error => error.message
  | config error => error.message

/-- The wordings of what lies behind an error. -/
def causes : ProjectError → List String
  | sourceUnavailable _ cause => [cause.message]
  | manifest error => error.causes
  | config error => error.causes
  | _ => []

end ProjectError

/-- The text of a source file. -/
def Files.readSource (files : Files) (path : Path) : Except ProjectError String :=
  match files.read path with
  | .ok text => .ok text
  | .error cause => .error (.sourceUnavailable path cause)

/-- The tree of a source file. -/
def Files.readModule (files : Files) (path : Path) (importsOnly : Bool) :
    Except ProjectError Module := do
  return .ofSource (← files.readSource path) importsOnly

/-- An open project. -/
structure Project where
  root : Path
  /-- The directory whose sources are scanned. -/
  scanRoot : Path
  config : Config
  resolver : Resolver
  deriving Inhabited

namespace Project

/-- Opens a project. It needs a language, a source directory and a directory to
scan. -/
def ofDirectory (files : Files) (path : Path) (config : Config) : Except ProjectError Project := do
  match config.validate with
  | .error error => .error (.config error)
  | .ok _ =>
    let root := path.normalize
    if !files.isDirectory (root.join ⟨"src"⟩) then .error (.notProject root)
    else
      let scanRoot := (config.scanRoot root).normalize
      if !files.isDirectory scanRoot then .error (.noScanRoot scanRoot)
      else return ⟨root, scanRoot, config, .ofProject root config⟩

/-- Whether a file is a source for its extension. -/
def accepts (config : Config) (path : Path) : Bool :=
  path.extension?.any config.acceptsExtension

/-! The walk through a directory is left to a library, with this behaviour. It starts with the
directory itself, which is never left out. It takes the entries of a directory in the order of
their names, and all that is below an entry before the next one. A directory that is left out
is not entered. -/

mutual

/-- The source files in a tree that stands at a path. Directories come in the order
of their names, and ignored ones are left out. -/
def sourcesIn (config : Config) (path : Path) : FileTree → List Path
  | .file _ => if accepts config path then [path] else []
  | .directory entries =>
    ((sourcesOf config path entries).mergeSort fun a b => a.1 ≤ b.1).flatMap (·.2)

/-- The source files in the entries of a directory, under the name of each entry. -/
def sourcesOf (config : Config) (path : Path) :
    List (String × FileTree) → List (String × List Path)
  | [] => []
  | (name, tree) :: entries =>
    (name,
      if tree.isDirectory && config.isIgnored name then []
      else sourcesIn config (path.join ⟨name⟩) tree) :: sourcesOf config path entries

end

/-- The source files of a project, by the names on their paths. -/
def sourceFiles (p : Project) (files : Files) : List Path :=
  match files.entry p.scanRoot with
  | .ok tree => sourcesIn p.config p.scanRoot tree
  | .error _ => []

/-- The imports of each source file. Files that cannot be read are left out. -/
def imports (p : Project) (files : Files) : List FileImports :=
  (p.sourceFiles files).filterMap fun path =>
    match files.readModule path true with
    | .ok tree => some ⟨path, tree.imports⟩
    | .error _ => none

/-- The project files that some imports of a file stand for, each once. -/
def importedFiles (p : Project) (files : Files) (importer : Path)
    (records : List ImportRecord) : List Path :=
  let sources := (records.map (·.source)).filter (p.resolver.isProjectImport files)
  (sources.filterMap (p.resolver.resolve? files importer)).foldl FileRelation.addFile []

/-- The relation of a file with some imports. -/
def relationOf (p : Project) (files : Files) (file : FileImports) : FileRelation :=
  ⟨file.file, p.importedFiles files file.file file.records,
    FileRelation.importTable file.records⟩

/-- The relation of each source file. -/
def relations (p : Project) (files : Files) : List FileRelation :=
  (p.imports files).map (p.relationOf files)

/-- The source files that answer a query. Nothing answers the empty query. -/
def find (p : Project) (files : Files) (query : ImportQuery) : List Path :=
  if query.sources.isEmpty then []
  else ((p.relations files).filter query.holds).map (·.target)

/-- Where the manifest of a project is. -/
def manifestPath (p : Project) : Path :=
  p.root.join ⟨"package.json"⟩

/-- The text of the manifest. -/
def manifestText (p : Project) (files : Files) : Except ProjectError String :=
  (Manifest.loadText files p.manifestPath).mapError .manifest

/-- The manifest. -/
def manifest (p : Project) (files : Files) : Except ProjectError Manifest :=
  (Manifest.load files p.manifestPath).mapError .manifest

/-- The package that routes the project's pages, which has to be a dependency. -/
def router (p : Project) (files : Files) : Except ProjectError String := do
  let manifest ← p.manifest files
  if manifest.dependencies.isNone then .error .noDependencies
  else
    match manifest.routerPackage? with
    | some package => return package
    | none => .error .noRouter

/-- The routes of one file, which is given relative to the root. White space
around its path does not count. -/
def routesOf (p : Project) (files : Files) (relative : String) :
    Except ProjectError (List Route) := do
  let relative := Text.trimmed relative
  if relative = "" then .error .emptyRouteFile
  else
    let path := p.resolver.root.join ⟨relative⟩
    if !files.isFile path then .error (.routeFileMissing path)
    else
      let tree ← files.readModule path false
      return tree.routes path p.resolver files

/-- The routes of all source files. Files that cannot be read are left out. -/
def routes (p : Project) (files : Files) : Except ProjectError (List Route) := do
  let _ ← p.router files
  return (p.sourceFiles files).flatMap fun path =>
    match files.readModule path false with
    | .ok tree => tree.routes path p.resolver files
    | .error _ => []

end Project
end ImportAtlas
