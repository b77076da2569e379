import ImportAtlas.Config

/-! From import sources to files. A source stands for a base path; the file is the
first one that exists among the base path itself, the base path with an extension
added, and an index file inside it. -/

namespace ImportAtlas

/-- What is needed to resolve the imports of a project. -/
structure Resolver where
  /-- The project's root directory. -/
  root : Path
  /-- The directory that aliases stand for. -/
  src : Path
  /-- The extensions to try, with their points. -/
  extensions : List String
  deriving DecidableEq, Repr, Inhabited

namespace Resolver

/-- The resolver of a project. -/
def ofProject (root : Path) (config : Config) : Resolver :=
  ⟨root.normalize, root.normalize.join ⟨"src"⟩, config.resolutionExtensions⟩

/-- Whether a text starts with a word. -/
def starts (text word : String) : Bool :=
  word.toList.isPrefixOf text.toList

/-- Whether a text ends with a word. -/
def ends (text word : String) : Bool :=
  word.toList.isSuffixOf text.toList

/-- What follows a word at the start of a text. -/
def after? (text word : String) : Option String :=
  if starts text word then some (String.ofList (text.toList.drop word.length)) else none

/-- Whether a source is relative to the importing file. -/
def isRelative (source : String) : Bool :=
  starts source "./" || starts source "../"

/-- The ends of sources that are style sheets. -/
def styleSuffixes : List String :=
  [".css", ".less", ".scss"]

/-- The path of a source that is not relative: a slash stands for the root, an
alias for the source directory, and everything else lies in the source directory
as well. -/
def fixedPath (r : Resolver) (source : String) : Path :=
  if let some rest := after? source "/" then r.root.join ⟨rest⟩
  else if starts source "src/" then r.root.join ⟨source⟩
  else if let some rest := after? source "@/" then r.src.join ⟨rest⟩
  else if let some rest := after? source "$src/" then r.src.join ⟨rest⟩
  else if let some rest := after? source "@" then
    r.src.join ⟨String.ofList (rest.toList.dropWhile (· == '/'))⟩
  else r.src.join ⟨source⟩

/-- The path of a source that is relative to a file. -/
def relativePath (importer : Path) (source : String) : Path :=
  match importer.parent? with
  | some directory => directory.join ⟨source⟩
  | none => ⟨source⟩

/-- The base path of a source. An empty source has none. -/
def basePath? (r : Resolver) (importer : Path) (source : String) : Option Path :=
  if source = "" then none
  else if isRelative source then some (relativePath importer source).normalize
  else some (r.fixedPath source).normalize

/-- An index file of a directory. -/
def index (directory : Path) (extension : String) : Path :=
  directory.join ⟨"index" ++ extension⟩

/-- The file that a base path stands for: the path itself, the path with an
extension, or an index file if it is a directory. -/
def probe? (r : Resolver) (files : Files) (base : Path) : Option Path :=
  if files.isFile base then some base
  else
    match (r.extensions.map base.addSuffix).find? files.isFile with
    | some found => some found
    | none =>
      if files.isDirectory base then (r.extensions.map (index base)).find? files.isFile else none

/-- The file that a source stands for in an importing file. -/
def resolve? (r : Resolver) (files : Files) (importer : Path) (source : String) : Option Path :=
  (r.basePath? importer source).bind (r.probe? files)

/-- Whether a source belongs to the project. An alias does only if there is a file
for it. -/
def isProjectImport (r : Resolver) (files : Files) (source : String) : Bool :=
  if starts source "@" || starts source "$src" then (r.resolve? files r.src source).isSome
  else
    isRelative source || starts source "/" || starts source "src/" ||
      styleSuffixes.any (ends source)

/-- The path that a source is expected at when there is no file for it. -/
def expected? (r : Resolver) (importer : Path) (source : String) : Option Path := do
  let base ← r.basePath? importer source
  if r.extensions.any (ends source) then return base
  let extension ← r.extensions.head?
  return index base extension

/-- The file of a component, or the path that it is expected at. -/
def component? (r : Resolver) (files : Files) (importer : Path) (source : String) :
    Option Path :=
  match r.resolve? files importer source with
  | some found => some found
  | none => r.expected? importer source

/-- How a file of the project is shown. -/
def display (r : Resolver) (p : Path) : String :=
  Path.relativeTo r.root p

end Resolver
end ImportAtlas
