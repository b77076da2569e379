import ImportAtlas.Span
import ImportAtlas.Text.Quoted

/-! Tokens of a module's source: their kinds, the reserved words, and the
questions that lexing and reading ask of a single token. -/

namespace ImportAtlas

/-- The lexical category of a token. -/
inductive Token.Kind where
  /-- The end of the source. -/
  | eof
  | keyword
  | identifier
  /-- A string or template literal, its quotes included. -/
  | string
  | number
  | operator
  /-- A lone `>`: greater-than, the end of a tag, or the second half of `=>`. -/
  | ambiguousGt
  | leftBrace
  | rightBrace
  | leftParen
  | rightParen
  | leftBracket
  | rightBracket
  | comma
  | comment
  /-- A regular expression literal, its flags included. -/
  | regex
  deriving DecidableEq, Repr, Inhabited

namespace Token.Kind

/-- Every kind, in the order of their declaration. -/
def all : List Kind :=
  [.eof, .keyword, .identifier, .string, .number, .operator, .ambiguousGt, .leftBrace,
   .rightBrace, .leftParen, .rightParen, .leftBracket, .rightBracket, .comma, .comment, .regex]

/-- The name a kind is shown by. -/
def name : Kind → String
  | eof => "EOF"
  | keyword => "KEYWORD"
  | identifier => "IDENTIFIER"
  | string => "STRING"
  | number => "NUMBER"
  | operator => "OPERATOR"
  | ambiguousGt => "OPERATOR_OR_AMBIGUOUS_GT"
  | leftBrace => "LEFT_BRACE"
  | rightBrace => "RIGHT_BRACE"
  | leftParen => "LEFT_PAREN"
  | rightParen => "RIGHT_PAREN"
  | leftBracket => "LEFT_BRACKET"
  | rightBracket => "RIGHT_BRACKET"
  | comma => "COMMA"
  | comment => "COMMENT"
  | regex => "REGEX"

/-- The kind shown by a name. -/
def ofName? (name : String) : Option Kind :=
  all.find? (·.name == name)

/-- Whether a kind opens a bracket. -/
def isOpen : Kind → Bool
  | leftBrace | leftParen | leftBracket => true
  | _ => false

/-- Whether a kind closes a bracket. -/
def isClose : Kind → Bool
  | rightBrace | rightParen | rightBracket => true
  | _ => false

/-- The kind that closes what a kind opens. -/
def closing? : Kind → Option Kind
  | leftBrace => some rightBrace
  | leftParen => some rightParen
  | leftBracket => some rightBracket
  | _ => none

end Token.Kind

/-- A lexical unit with its exact source text and its place. -/
structure Token where
  kind : Token.Kind
  value : String
  span : Span
  deriving DecidableEq, Repr, Inhabited

namespace Token

/-- The reserved words. -/
def keywords : List String :=
  ["import", "export", "default", "const", "let", "var", "function", "class", "return", "if",
   "else", "for", "while", "do", "switch", "case", "break", "continue", "new", "this", "typeof",
   "instanceof", "in", "void", "delete", "throw", "try", "catch", "finally", "yield", "await",
   "extends", "super", "static", "null", "true", "false", "with", "debugger", "enum"]

/-- The reserved words that may stand inside an expression. -/
def expressionKeywords : List String :=
  ["new", "typeof", "instanceof", "in", "void", "delete", "await", "yield", "this", "super",
   "null", "true", "false", "function", "class", "extends"]

/-- The reserved words that are values, and so may end an expression. -/
def valueKeywords : List String :=
  ["this", "super", "null", "true", "false"]

/-- The operators that may end an expression. -/
def postfixOperators : List String :=
  ["++", "--"]

/-- The empty token at the end of a source. -/
def endOfSource (place : Position) : Token :=
  ⟨.eof, "", ⟨place, place⟩⟩

/-- Whether a token is the end of the source. -/
def isEof (t : Token) : Bool :=
  t.kind == .eof

/-- Whether a token is the given reserved word. -/
def isKeyword (t : Token) (word : String) : Bool :=
  t.kind == .keyword && t.value == word

/-- Whether a token is an identifier with the given spelling. -/
def isIdentifier (t : Token) (word : String) : Bool :=
  t.kind == .identifier && t.value == word

/-- Whether a token is the given operator. -/
def isOperator (t : Token) (operator : String) : Bool :=
  t.kind == .operator && t.value == operator

/-- Whether a token may be the last one of an expression. A slash after such a
token divides, and a word on the line after it may start a statement. -/
def endsExpression (t : Token) : Bool :=
  match t.kind with
  | .identifier | .string | .number | .regex => true
  | .rightBrace | .rightParen | .rightBracket => true
  | .ambiguousGt => true
  | .keyword => valueKeywords.contains t.value
  | .operator => postfixOperators.contains t.value
  | _ => false

/-- A token as its kind, its quoted text and the place where it starts. -/
def display (t : Token) : String :=
  t.kind.name ++ "(" ++ Text.quoted t.value ++ ") at " ++ t.span.start.text

end Token
end ImportAtlas
