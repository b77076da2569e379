import ImportAtlas.Config
import ImportAtlas.Table

/-! The manifest of a project: the part of `package.json` that says what the
project is called and what it depends on. -/

namespace ImportAtlas

/-- A project's manifest. -/
structure Manifest where
  name : Option String := none
  version : Option String := none
  dependencies : Option (Table String) := none
  devDependencies : Option (Table String) := none
  deriving DecidableEq, Repr, Inhabited

/-- Why a manifest cannot be used. -/
inductive ManifestError where
  | unreadable (path : Path) (cause : AccessError)
  | unparsable (fault : Json.Fault)
  deriving DecidableEq, Repr, Inhabited

namespace ManifestError

/-- The wording of an error. -/
def message : ManifestError → String
  | unreadable path cause => "Failed to read " ++ path.text ++ ": " ++ cause.message
  | unparsable fault => "Failed to parse package.json: " ++ fault.message

/-- The wordings of what lies behind an error. -/
def causes : ManifestError → List String
  | unreadable _ cause => [cause.message]
  | unparsable fault => [fault.message]

end ManifestError

namespace Manifest

/-- The packages that route pages, in the order in which they are looked for. -/
def routerPackages : List String :=
  ["react-router", "react-router-dom"]

/-- Whether a project depends on a package. -/
def dependsOn (manifest : Manifest) (package : String) : Bool :=
  match manifest.dependencies with
  | some table => table.contains package
  | none => false

/-- The package that routes a project's pages. -/
def routerPackage? (manifest : Manifest) : Option String :=
  routerPackages.find? manifest.dependsOn

/-- Reads a table of texts. Of several values under one name the last stays. -/
def readTable : Json.Reader (Table String) :=
  Json.Reader.object
    (fun table name text => do
      let (_, text) ← Json.Reader.colon text
      let (value, text) ← Json.Reader.string text
      return (table.insert name value, text))
    {}

/-- A manifest read so far: for each field whether it has been read, and its
value. -/
structure Draft where
  name : Option (Option String) := none
  version : Option (Option String) := none
  dependencies : Option (Option (Table String)) := none
  devDependencies : Option (Option (Table String)) := none

/-- The manifest of a draft. -/
def Draft.manifest (draft : Draft) : Manifest :=
  ⟨draft.name.join, draft.version.join, draft.dependencies.join, draft.devDependencies.join⟩

/-- Reads one field of a manifest. Unknown fields are passed over. -/
def readField (draft : Draft) (field : String) : Json.Reader Draft := fun text => do
  if field = "name" then
    let (name, text) ← Config.readOnce draft.name (Json.Reader.optional Json.Reader.string) text
    return ({ draft with name := some name }, text)
  else if field = "version" then
    let (version, text) ←
      Config.readOnce draft.version (Json.Reader.optional Json.Reader.string) text
    return ({ draft with version := some version }, text)
  else if field = "dependencies" then
    let (table, text) ← Config.readOnce draft.dependencies (Json.Reader.optional readTable) text
    return ({ draft with dependencies := some table }, text)
  else if field = "devDependencies" then
    let (table, text) ←
      Config.readOnce draft.devDependencies (Json.Reader.optional readTable) text
    return ({ draft with devDependencies := some table }, text)
  else
    let (_, text) ← Json.Reader.colon text
    let (_, text) ← Json.Reader.ignored text
    return (draft, text)

/-- Reads the next value of a list, which has to be there. -/
def readNext (isFirst : Bool) (read : Json.Reader α) : Json.Reader α := fun text => do
  match ← Config.readNext isFirst read text with
  | (some value, text) => return (value, text)
  | (none, _) => .error .mismatched

/-- Reads a manifest from a list of its four values. -/
def readList : Json.Reader Draft := fun text => do
  let (name, text) ← readNext true (Json.Reader.optional Json.Reader.string) text
  let (version, text) ← readNext false (Json.Reader.optional Json.Reader.string) text
  let (table, text) ← readNext false (Json.Reader.optional readTable) text
  let (devTable, text) ← readNext false (Json.Reader.optional readTable) text
  let (_, text) ← Json.Reader.endList text
  return (⟨some name, some version, some table, some devTable⟩, text)

/-- Reads a manifest from an object, or from a list of its values. -/
def read : Json.Reader Draft := fun text =>
  match Json.Reader.skipSpace text with
  | '[' :: rest => readList rest
  | other => Json.Reader.object readField {} other

/-- The manifest that a text holds. -/
def parse (text : String) : Except ManifestError Manifest :=
  match Json.Reader.whole read text with
  | .error fault => .error (.unparsable fault)
  | .ok draft => .ok draft.manifest

/-- The text of a manifest file. -/
def loadText (files : Files) (path : Path) : Except ManifestError String :=
  match files.read path with
  | .error cause => .error (.unreadable path cause)
  | .ok text => .ok text

/-- The manifest that a file holds. -/
def load (files : Files) (path : Path) : Except ManifestError Manifest := do
  parse (← loadText files path)

end Manifest
end ImportAtlas
