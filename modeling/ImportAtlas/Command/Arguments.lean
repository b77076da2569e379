import ImportAtlas.Command.Basic

/-! Command lines. Options may stand before the name of the command and after it;
what stands after it wins. A value follows its option as a word of its own, after
an equals sign, or right after a letter. Options are taken in order, and the value
of an option that stands as a word of its own is looked at when the next option
comes or when its part of the command line ends. -/

namespace ImportAtlas

/-- What is wrong with a command line. -/
inductive Misuse where
  | noCommand
  | unknownCommand (word : String)
  | unknownOption (word : String)
  | repeatedOption (name : String)
  | missingValue (name : String)
  | needlessValue (name : String)
  | invalidValue (name : String) (value : String)
  | missingArgument
  | unexpectedArgument (word : String)
  deriving DecidableEq, Repr, Inhabited

/-- The wording of a misuse. -/
def Misuse.message : Misuse → String
  | noCommand => "no command given"
  | unknownCommand word => "unknown command: " ++ word
  | unknownOption word => "unknown option: " ++ word
  | repeatedOption name => "option given twice: --" ++ name
  | missingValue name => "option without its value: --" ++ name
  | needlessValue name => "option with a value it does not take: --" ++ name
  | invalidValue name value => "invalid value for " ++ name ++ ": " ++ value
  | missingArgument => "missing argument"
  | unexpectedArgument word => "unexpected argument: " ++ word

/-- Why a command line leads to no command. -/
inductive Stop where
  | help
  | version
  | misuse (cause : Misuse)
  deriving DecidableEq, Repr, Inhabited

/-- The name of a command. -/
inductive CommandName where
  | ast
  | imports
  | objects
  | relations
  | find
  | routes
  deriving DecidableEq, Repr, Inhabited

namespace CommandName

/-- All commands. -/
def all : List CommandName :=
  [ast, imports, objects, relations, find, routes]

/-- The word for a command. -/
def word : CommandName → String
  | ast => "ast"
  | imports => "imports"
  | objects => "objects"
  | relations => "relations"
  | find => "find"
  | routes => "routes"

/-- The command with a word. -/
def ofWord? (word : String) : Option CommandName :=
  all.find? (·.word == word)

/-- Whether a command takes another argument after some number of them. -/
def takes : CommandName → Nat → Bool
  | find, _ => true
  | routes, count => count < 2
  | _, count => count < 1

/-- The command with the given arguments, unless some are missing. -/
def command? (deep : Bool) : CommandName → List String → Option Command
  | ast, file :: _ => some (.tree ⟨file⟩)
  | imports, path :: _ => some (.imports ⟨path⟩)
  | objects, file :: _ => some (.objects ⟨file⟩)
  | relations, project :: _ => some (.relations ⟨project⟩ deep)
  | find, project :: source :: names => some (.find ⟨project⟩ source names)
  | routes, project :: later => some (.routes ⟨project⟩ later.head?)
  | _, _ => none

end CommandName

/-- An option. -/
inductive Switch where
  | format
  | config
  | languages
  | importsOnly
  | verbose
  | help
  | version
  | deep
  deriving DecidableEq, Repr, Inhabited

namespace Switch

/-- The long name of an option, without its dashes. -/
def name : Switch → String
  | format => "format"
  | config => "config"
  | languages => "languages"
  | importsOnly => "import-only"
  | verbose => "verbose"
  | help => "help"
  | version => "version"
  | deep => "deep"

/-- The letter of an option. -/
def letter? : Switch → Option Char
  | format => some 'f'
  | config => some 'c'
  | languages => some 'l'
  | importsOnly => none
  | verbose => some 'v'
  | help => some 'h'
  | version => some 'V'
  | deep => some 'd'

/-- Whether an option comes with a value. -/
def takesValue : Switch → Bool
  | format | config | languages => true
  | _ => false

/-- The options that stand before a command as well as after it. -/
def everywhere : List Switch :=
  [format, config, languages, importsOnly, verbose, help]

/-- The options that may stand before the name of a command, or after it. -/
def allowed : Option CommandName → List Switch
  | none => version :: everywhere
  | some .relations => deep :: everywhere
  | some _ => everywhere

end Switch

/-- What the options in one part of a command line say. -/
structure Settings where
  format : Option ReportFormat := none
  config : Option Path := none
  languages : List Language := []
  importsOnly : Bool := false
  deep : Bool := false
  deriving DecidableEq, Repr, Inhabited

namespace Settings

/-- A text in parts that are divided by commas. -/
def commaParts (text : String) : List String :=
  text.toList.splitOn ',' |>.map String.ofList

/-- Takes the value of an option. -/
def takeValue (s : Settings) (switch : Switch) (value : String) : Except Misuse Settings :=
  match switch with
  | .format =>
    if s.format.isSome then .error (.repeatedOption switch.name)
    else
      match ReportFormat.ofName? value with
      | some format => .ok { s with format := some format }
      | none => .error (.invalidValue switch.name value)
  | .config =>
    if s.config.isSome then .error (.repeatedOption switch.name)
    else if value = "" then .error (.invalidValue switch.name value)
    else .ok { s with config := some ⟨value⟩ }
  | .languages =>
    match (commaParts value).mapM Language.ofName? with
    | some languages => .ok { s with languages := s.languages ++ languages }
    | none => .error (.invalidValue switch.name value)
  | _ => .error (.needlessValue switch.name)

/-- Takes an option without a value. -/
def takeFlag (s : Settings) (switch : Switch) : Except Stop Settings :=
  match switch with
  | .importsOnly =>
    if s.importsOnly then .error (.misuse (.repeatedOption switch.name))
    else .ok { s with importsOnly := true }
  | .deep =>
    if s.deep then .error (.misuse (.repeatedOption switch.name))
    else .ok { s with deep := true }
  | .help => .error .help
  | .version => .error .version
  | .verbose => .ok s
  | _ => .error (.misuse (.missingValue switch.name))

/-- The preferences of the settings before a command and after it. -/
def preferences (before after : Settings) : Preferences :=
  { format := (after.format.or before.format).getD .json
    config := after.config.or before.config
    languages := if after.languages.isEmpty then before.languages else after.languages
    importsOnly := before.importsOnly || after.importsOnly }

end Settings

/-- A word of a command line, by its shape. -/
inductive Word where
  /-- Two dashes, after which no options come. -/
  | divider
  | long (name : String) (value : Option String)
  | letters (letters : List Char)
  | plain (text : String)
  deriving DecidableEq, Repr, Inhabited

/-- The shape of a word. A single dash is a plain word. -/
def Word.ofText (text : String) : Word :=
  match text.toList with
  | ['-', '-'] => divider
  | '-' :: '-' :: rest =>
    long (String.ofList (rest.takeWhile (· ≠ '=')))
      ((rest.dropWhile (· ≠ '=')).tail?.map String.ofList)
  | '-' :: letter :: rest => letters (letter :: rest)
  | _ => plain text

/-- The options of one part of a command line as far as they have been read. -/
structure OptionReading where
  settings : Settings := {}
  /-- An option whose value has not come, or has not been looked at. -/
  pending : Option (Switch × Option String) := none
  deriving DecidableEq, Repr, Inhabited

namespace OptionReading

/-- Looks at the value that has not been looked at. -/
def settle (r : OptionReading) : Except Stop Settings :=
  match r.pending with
  | none => .ok r.settings
  | some (switch, none) => .error (.misuse (.missingValue switch.name))
  | some (switch, some value) => (r.settings.takeValue switch value).mapError .misuse

/-- Whether the next plain word is a value. -/
def awaits (r : OptionReading) : Bool :=
  match r.pending with
  | some (_, none) => true
  | _ => false

/-- Gives the option that waits for it a value. -/
def supply (r : OptionReading) (value : String) : OptionReading :=
  { r with pending := r.pending.map fun (switch, _) => (switch, some value) }

/-- Reads an option with the value that is attached to it, if any. -/
def take (r : OptionReading) (switch : Switch) (value : Option String) :
    Except Stop OptionReading :=
  if switch.takesValue then do
    let settings ← r.settle
    match value with
    | some value => return { settings := ← (settings.takeValue switch value).mapError .misuse }
    | none => return { settings, pending := some (switch, none) }
  else if value.isSome then .error (.misuse (.needlessValue switch.name))
  else do
    return { settings := ← (← r.settle).takeFlag switch }

/-- Reads an option by its long name. -/
def takeLong (allowed : List Switch) (r : OptionReading) (name : String)
    (value : Option String) : Except Stop OptionReading :=
  match allowed.find? (·.name == name) with
  | some switch => r.take switch value
  | none => .error (.misuse (.unknownOption name))

/-- A value without an equals sign before it. -/
def attached : List Char → String
  | '=' :: value => String.ofList value
  | value => String.ofList value

/-- Reads options by their letters. What follows the letter of an option with a
value is that value. -/
def takeLetters (allowed : List Switch) (r : OptionReading) :
    List Char → Except Stop OptionReading
  | [] => .ok r
  | letter :: rest =>
    match allowed.find? (·.letter? == some letter) with
    | none => .error (.misuse (.unknownOption (String.singleton letter)))
    | some switch =>
      if switch.takesValue then r.take switch (if rest.isEmpty then none else some (attached rest))
      else do takeLetters allowed (← r.take switch none) rest

end OptionReading

namespace Invocation

/-- Adds an argument to those of a command. The first one is a path, which is not
empty. -/
def addArgument (name : CommandName) (arguments : List String) (word : String) :
    Except Stop (List String) :=
  if !name.takes arguments.length then .error (.misuse (.unexpectedArgument word))
  else if arguments.isEmpty && word = "" then .error (.misuse (.invalidValue name.word word))
  else .ok (arguments ++ [word])

/-- Reads what follows the name of a command. -/
def readRest (name : CommandName) (r : OptionReading) (arguments : List String) :
    List String → Except Stop (Settings × List String)
  | [] => do return (← r.settle, arguments)
  | word :: words =>
    match Word.ofText word with
    | .divider => do return (← r.settle, ← words.foldlM (addArgument name) arguments)
    | .long option value => do
      readRest name (← r.takeLong (Switch.allowed name) option value) arguments words
    | .letters letters => do
      readRest name (← r.takeLetters (Switch.allowed name) letters) arguments words
    | .plain text =>
      if r.awaits then readRest name (r.supply text) arguments words
      else do readRest name r (← addArgument name arguments text) words

/-- Reads a command from what follows its name and the options before it. -/
def readCommand (name : CommandName) (before : OptionReading) (words : List String) :
    Except Stop Invocation := do
  let (after, arguments) ← readRest name {} [] words
  match name.command? after.deep arguments with
  | none => .error (.misuse .missingArgument)
  | some command => return ⟨command, (← before.settle).preferences after⟩

/-- Reads a request for help, about the program or about one command. -/
def readHelp : List String → Stop
  | [] => .help
  | [word] => if word = "help" ∨ (CommandName.ofWord? word).isSome then .help
    else .misuse (.unknownCommand word)
  | _ :: word :: _ => .misuse (.unknownCommand word)

/-- Reads a command line from the options before the name of a command on. -/
def readFrom (r : OptionReading) : List String → Except Stop Invocation
  | [] => do
    let _ ← r.settle
    .error (.misuse .noCommand)
  | word :: words =>
    match Word.ofText word with
    | .divider => .error (.misuse .noCommand)
    | .long option value => do
      readFrom (← r.takeLong (Switch.allowed none) option value) words
    | .letters letters => do
      readFrom (← r.takeLetters (Switch.allowed none) letters) words
    | .plain text =>
      if r.awaits then readFrom (r.supply text) words
      else if text = "help" then .error (readHelp words)
      else
        match CommandName.ofWord? text with
        | some name => readCommand name r words
        | none => .error (.misuse (.unknownCommand text))

/-- The invocation that the words of a command line ask for. -/
def ofArguments (words : List String) : Except Stop Invocation :=
  readFrom {} words

end Invocation
end ImportAtlas
