import ImportAtlas.Text.Quoted

/-! JSON values and their printed form. Lists and objects that are not empty take
a line for each item, indented by two spaces for each level. -/

namespace ImportAtlas

/-- A JSON value. The fields of an object keep their order. -/
inductive Json where
  | null
  | bool (value : Bool)
  | number (value : Nat)
  | string (value : String)
  | array (items : List Json)
  | object (fields : List (String × Json))
  deriving Inhabited

namespace Json

/-- How one character is written in a JSON string. Only quotes, backslashes and
control characters are escaped. -/
def escaped (c : Char) : String :=
  if c = '\x22' then "\\\""
  else if c = '\\' then "\\\\"
  else if c = '\x08' then "\\b"
  else if c = '\x0c' then "\\f"
  else if c = '\n' then "\\n"
  else if c = '\r' then "\\r"
  else if c = '\t' then "\\t"
  else if c.toNat < 0x10 then "\\u000" ++ Text.hexadecimal c.toNat
  else if c.toNat < 0x20 then "\\u00" ++ Text.hexadecimal c.toNat
  else String.singleton c

/-- A text as a JSON string. -/
def quoted (text : String) : String :=
  "\"" ++ String.join (text.toList.map escaped) ++ "\""

/-- The start of a line at some level. -/
def margin (level : Nat) : String :=
  "\n" ++ String.join (List.replicate level "  ")

mutual

/-- A value as it stands at some level of indentation. -/
def render (level : Nat) : Json → String
  | null => "null"
  | bool value => if value then "true" else "false"
  | number value => toString value
  | string value => quoted value
  | array [] => "[]"
  | array (item :: items) =>
    "[" ++ margin (level + 1) ++ render (level + 1) item ++ renderItems (level + 1) items ++
      margin level ++ "]"
  | object [] => "\x7b\x7d"
  | object (field :: fields) =>
    "\x7b" ++ margin (level + 1) ++ renderField (level + 1) field ++
      renderFields (level + 1) fields ++ margin level ++ "\x7d"

/-- The items of a list after its first. -/
def renderItems (level : Nat) : List Json → String
  | [] => ""
  | item :: items => "," ++ margin level ++ render level item ++ renderItems level items

/-- One field of an object. -/
def renderField (level : Nat) : String × Json → String
  | (name, value) => quoted name ++ ": " ++ render level value

/-- The fields of an object after its first. -/
def renderFields (level : Nat) : List (String × Json) → String
  | [] => ""
  | field :: fields =>
    "," ++ margin level ++ renderField level field ++ renderFields level fields

end

/-- The printed form of a value. -/
def text (value : Json) : String :=
  value.render 0

/-- The value of an option, or null. -/
def ofOption (f : α → Json) : Option α → Json
  | some a => f a
  | none => null

end Json
end ImportAtlas
