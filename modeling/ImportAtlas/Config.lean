import ImportAtlas.FileTree
import ImportAtlas.Json.Reader
import ImportAtlas.Language

/-! How a project is scanned: its languages, where its sources are, and which
directories are left out. -/

namespace ImportAtlas

/-- The settings of a project. -/
structure Config where
  languages : List Language := [.js, .ts]
  /-- The way from the project's root to its sources. -/
  scanPath : List String := []
  ignoredDirs : List String :=
    ["node_modules", ".git", "dist", "build", ".next", "coverage", ".turbo"]
  deriving DecidableEq, Repr, Inhabited

/-- Why settings cannot be used. -/
inductive ConfigError where
  | unreadable (path : Path) (cause : AccessError)
  | unparsable (fault : Json.Fault)
  | noLanguages
  deriving DecidableEq, Repr, Inhabited

/-- What is said of a text that is not the JSON that it should be. -/
def Json.Fault.message : Json.Fault → String
  | truncated => "the text ends too early"
  | malformed => "the text is not valid JSON"
  | mismatched => "a value is of the wrong kind"

namespace ConfigError

/-- The wording of an error. -/
def message : ConfigError → String
  | unreadable path cause => "Failed to read config " ++ path.text ++ ": " ++ cause.message
  | unparsable fault => "Failed to parse config: " ++ fault.message
  | noLanguages => "Config enables no languages"

/-- The wordings of what lies behind an error. -/
def causes : ConfigError → List String
  | unreadable _ cause => [cause.message]
  | unparsable fault => [fault.message]
  | noLanguages => []

end ConfigError

namespace Config

/-- Fails for settings without a language. -/
def validate (config : Config) : Except ConfigError Unit :=
  if config.languages.isEmpty then .error .noLanguages else .ok ()

/-- Whether a language is enabled. -/
def hasLanguage (config : Config) (language : Language) : Bool :=
  config.languages.contains language

/-- Whether files with an extension are sources, whatever its case. -/
def acceptsExtension (config : Config) (extension : String) : Bool :=
  config.languages.any fun language => language.extensions.contains (Text.lowered extension)

/-- The extensions to try for an import, in the order in which they are tried. -/
def resolutionExtensions (config : Config) : List String :=
  (if config.hasLanguage .ts then [".tsx", ".ts"] else []) ++
  (if config.hasLanguage .js then [".jsx", ".js"] else []) ++ [".mjs", ".cjs"]

/-- Whether a directory is left out for its name. -/
def isIgnored (config : Config) (name : String) : Bool :=
  config.ignoredDirs.contains name

/-- Where the sources of a project are. -/
def scanRoot (config : Config) (root : Path) : Path :=
  if config.scanPath.isEmpty then root.join ⟨"src"⟩
  else config.scanPath.foldl (fun path segment => path.join ⟨segment⟩) root

/-- Reads the name of a language. -/
def readLanguageName : Json.Reader Language := fun text => do
  let (name, rest) ← Json.Reader.string text
  if name = "js" then return (.js, rest)
  else if name = "ts" then return (.ts, rest)
  else .error .mismatched

/-- Reads the name of a language as the name of a field. No other value may stand
there. -/
def readLanguageKey : Json.Reader Language := fun text =>
  match Json.Reader.skipSpace text with
  | [] => .error .truncated
  | c :: rest => if c = '\x22' then readLanguageName (c :: rest) else .error .malformed

/-- Reads a language: its name, or an object with that name before null. -/
def readLanguage : Json.Reader Language := fun text =>
  match Json.Reader.skipSpace text with
  | [] => .error .truncated
  | '{' :: rest => do
    let (language, rest) ← readLanguageKey rest
    let (_, rest) ← Json.Reader.colon rest
    let (_, rest) ← Json.Reader.nothing rest
    let (_, rest) ← Json.Reader.endObject rest
    return (language, rest)
  | '\x22' :: rest => readLanguageName ('\x22' :: rest)
  | _ => .error .malformed

/-- Settings read so far. -/
structure Draft where
  languages : Option (List Language) := none
  scanPath : Option (List String) := none
  ignoredDirs : Option (List String) := none

/-- The settings of a draft. What is missing takes its default. -/
def Draft.config (draft : Draft) : Config :=
  let default : Config := {}
  ⟨draft.languages.getD default.languages, draft.scanPath.getD default.scanPath,
    draft.ignoredDirs.getD default.ignoredDirs⟩

/-- Reads the value of a field that may stand only once. -/
def readOnce (earlier : Option α) (read : Json.Reader α) : Json.Reader α := fun text =>
  if earlier.isSome then .error .mismatched
  else do
    let (_, text) ← Json.Reader.colon text
    read text

/-- Reads one field of the settings. Unknown fields are passed over. -/
def readField (draft : Draft) (name : String) : Json.Reader Draft := fun text => do
  if name = "languages" then
    let (languages, text) ← readOnce draft.languages (Json.Reader.list readLanguage) text
    return ({ draft with languages := some languages }, text)
  else if name = "scan_path" then
    let (scanPath, text) ← readOnce draft.scanPath (Json.Reader.list Json.Reader.string) text
    return ({ draft with scanPath := some scanPath }, text)
  else if name = "ignored_dirs" then
    let (dirs, text) ← readOnce draft.ignoredDirs (Json.Reader.list Json.Reader.string) text
    return ({ draft with ignoredDirs := some dirs }, text)
  else
    let (_, text) ← Json.Reader.colon text
    let (_, text) ← Json.Reader.ignored text
    return (draft, text)

/-- Reads the next value of a list, if there is one. -/
def readNext (isFirst : Bool) (read : Json.Reader α) : Json.Reader (Option α) := fun text => do
  let (more, text) ← Json.Reader.nextItem isFirst text
  if more then
    let (value, text) ← read text
    return (some value, text)
  else return (none, text)

/-- Reads the settings from a list of their values. The last ones may be missing. -/
def readList : Json.Reader Draft := fun text => do
  let (languages, text) ← readNext true (Json.Reader.list readLanguage) text
  let (scanPath, text) ← readNext languages.isNone (Json.Reader.list Json.Reader.string) text
  let (dirs, text) ← readNext scanPath.isNone (Json.Reader.list Json.Reader.string) text
  let (_, text) ← Json.Reader.endList text
  return (⟨languages, scanPath, dirs⟩, text)

/-- Reads settings from an object, or from a list of their values. -/
def read : Json.Reader Draft := fun text =>
  match Json.Reader.skipSpace text with
  | '[' :: rest => readList rest
  | other => Json.Reader.object readField {} other

/-- The settings that a text holds. -/
def parse (text : String) : Except ConfigError Config := do
  match Json.Reader.whole read text with
  | .error fault => .error (.unparsable fault)
  | .ok draft =>
    draft.config.validate
    return draft.config

/-- The settings that a file holds. -/
def load (files : Files) (path : Path) : Except ConfigError Config :=
  match files.read path with
  | .error cause => .error (.unreadable path cause)
  | .ok text => parse text

end Config
end ImportAtlas
