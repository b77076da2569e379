import ImportAtlas.Path.Basic
import ImportAtlas.Text.Case

/-! The languages of source files and the extensions that belong to them. -/

namespace ImportAtlas

/-- A language that a project may be written in. -/
inductive Language where
  | js
  | ts
  deriving DecidableEq, Repr, Inhabited

namespace Language

/-- The short name of a language. -/
def name : Language → String
  | js => "js"
  | ts => "ts"

/-- The extensions of a language's files. -/
def extensions : Language → List String
  | js => ["jsx", "js", "mjs", "cjs"]
  | ts => ["tsx", "ts", "mts", "cts"]

/-- The language with a short or long name, in any case. -/
def ofName? (name : String) : Option Language :=
  let word := Text.lowered name
  if word = "js" ∨ word = "javascript" then some js
  else if word = "ts" ∨ word = "typescript" then some ts
  else none

/-- What is said of a name that no language has. -/
def unknownMessage (name : String) : String :=
  "Unknown language: '" ++ name ++ "'. Valid languages: js, ts"

end Language

/-- A language together with whether its files may hold markup. -/
inductive Dialect where
  | javaScript
  | jsx
  | typeScript
  | tsx
  deriving DecidableEq, Repr, Inhabited

namespace Dialect

/-- The name of a dialect. -/
def name : Dialect → String
  | javaScript => "JavaScript"
  | jsx => "Jsx"
  | typeScript => "TypeScript"
  | tsx => "Tsx"

/-- The language of a dialect. -/
def language : Dialect → Language
  | javaScript | jsx => .js
  | typeScript | tsx => .ts

/-- The dialect of files with an extension, in any case. -/
def ofExtension? (extension : String) : Option Dialect :=
  let word := Text.lowered extension
  if word = "js" ∨ word = "mjs" ∨ word = "cjs" then some javaScript
  else if word = "jsx" then some jsx
  else if word = "ts" ∨ word = "mts" ∨ word = "cts" then some typeScript
  else if word = "tsx" then some tsx
  else none

/-- The dialect of a file. -/
def ofPath? (p : Path) : Option Dialect :=
  p.extension?.bind ofExtension?

end Dialect
end ImportAtlas
