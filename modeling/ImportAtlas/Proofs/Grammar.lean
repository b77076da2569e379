import ImportAtlas.Proofs.Writing
import ImportAtlas.Tree.Basic

/-! The grammar of the modelled part of the language. A program is described by its
syntax alone. It determines the pieces it is written with and the tree it stands
for, in which object literals are numbered in the order of their opening braces and
nothing has a place. -/
namespace ImportAtlas

def Identifier.unplaced (name : Identifier) : Identifier :=
  ⟨default, name.name⟩

def PropertyKey.unplaced : PropertyKey → PropertyKey
  | identifier name => .identifier name.unplaced
  | string literal => .string ⟨default, literal.value⟩

mutual

/-- An expression without the places of its nodes. -/
def Expr.unplaced : Expr → Expr
  | .identifier name => .identifier name.unplaced
  | .string literal => .string ⟨default, literal.value⟩
  | .number literal => .number ⟨default, literal.raw⟩
  | .object literal => .object literal.unplaced
  | .array _ elements => .array default (Expr.unplacedAll elements)
  | .call _ callee arguments => .call default callee.unplaced (Expr.unplacedAll arguments)
  | .arrow _ params body isAsync =>
    .arrow default (params.map Identifier.unplaced) (Expr.unplacedOption body) isAsync
  | .dynamicImport _ => .dynamicImport default
  | .member _ object property computed => .member default object.unplaced property.unplaced computed

def Expr.unplacedAll : List Expr → List Expr
  | [] => []
  | expr :: rest => expr.unplaced :: Expr.unplacedAll rest

def Expr.unplacedOption : Option Expr → Option Expr
  | none => none
  | some expr => some expr.unplaced

def ObjectLiteral.unplaced : ObjectLiteral → ObjectLiteral
  | ⟨_, id, properties⟩ => ⟨default, id, Property.unplacedAll properties⟩

def Property.unplaced : Property → Property
  | ⟨_, key, value, shorthand, computed, method⟩ =>
    ⟨default, key.unplaced, Expr.unplacedOption value, shorthand, computed, method⟩

def Property.unplacedAll : List Property → List Property
  | [] => []
  | property :: rest => property.unplaced :: Property.unplacedAll rest

end

def ImportSpecifier.unplaced (specifier : ImportSpecifier) : ImportSpecifier :=
  ⟨default, specifier.kind, specifier.imported.unplaced, specifier.bound.unplaced⟩

def VariableDeclarator.unplaced (declarator : VariableDeclarator) : VariableDeclarator :=
  ⟨default, declarator.name.unplaced, Expr.unplacedOption declarator.init⟩

/-- A statement without the places of its nodes. -/
def Statement.unplaced : Statement → Statement
  | importDeclaration ⟨_, specifiers, source⟩ =>
    .importDeclaration ⟨default, specifiers.map ImportSpecifier.unplaced,
      source.map fun literal => ⟨default, literal.value⟩⟩
  | defaultExport ⟨_, value⟩ => .defaultExport ⟨default, Expr.unplacedOption value⟩
  | variableDeclaration ⟨_, kind, declarators⟩ =>
    .variableDeclaration ⟨default, kind, declarators.map VariableDeclarator.unplaced⟩

end ImportAtlas

namespace ImportAtlas.Grammar
open Writing

/-- What a property or an export goes by: a word, reserved or not, or a literal. -/
inductive Key where
  | word (word : Writing.Word)
  | literal (literal : Literal)

/-- The parameters of an arrow function: one without parentheses, or a list. -/
inductive Params where
  | bare (name : Name)
  | listed (names : List Name)

mutual

/-- An expression. -/
inductive Phrase where
  | object (members : List Member)
  | simple (expr : Simple)

/-- An expression other than an object literal. -/
inductive Simple where
  | chain (chain : Chain)
  | literal (literal : Literal)
  | numeral (numeral : Numeral)
  | array (elements : List Phrase)
  | arrow (isAsync : Bool) (params : Params) (body : Simple)

/-- Member accesses and calls on a name or on a dynamic import. -/
inductive Chain where
  | name (name : Name)
  | dynamicImport (arguments : List Phrase)
  | member (target : Chain) (name : Writing.Word)
  | call (callee : Chain) (arguments : List Phrase)

/-- A property of an object literal. -/
inductive Member where
  | pair (key : Key) (value : Phrase)
  | shorthand (name : Name)
  | method (key : Key)

end

/-- One variable of a declaration. -/
structure Declarator where
  name : Name
  init : Option Phrase

/-- A statement. -/
inductive Sentence where
  | declare (kind : VariableKind) (first : Declarator) (others : List Declarator)
  | exportDefault (value : Phrase)

section Pieces

/-- The reserved word of a declaration. -/
def keyword (kind : VariableKind) : Writing.Word :=
  ⟨kind.keyword, by cases kind <;> decide⟩

def importWord : Writing.Word := ⟨"import", by decide⟩
def exportWord : Writing.Word := ⟨"export", by decide⟩
def defaultWord : Writing.Word := ⟨"default", by decide⟩
def asyncWord : Writing.Word := ⟨"async", by decide⟩

def Key.piece : Key → Piece
  | word w => .word w
  | literal l => .literal l

/-- Names behind the first one, each after a comma. -/
def moreNames (names : List Name) : List Piece :=
  names.flatMap fun name => [.mark .comma, .word name.toWord]

/-- Names with commas between them. -/
def listNames : List Name → List Piece
  | [] => []
  | name :: names => .word name.toWord :: moreNames names

def Params.pieces : Params → List Piece
  | bare name => [.word name.toWord]
  | listed names => .mark .leftParen :: (listNames names ++ [.mark .rightParen])

mutual

/-- The pieces of an expression. -/
def Phrase.pieces : Phrase → List Piece
  | .object members => .mark .leftBrace :: (Member.listPieces members ++ [.mark .rightBrace])
  | .simple expr => expr.pieces

def Simple.pieces : Simple → List Piece
  | .chain chain => chain.pieces
  | .literal literal => [.literal literal]
  | .numeral numeral => [.numeral numeral]
  | .array elements => .mark .leftBracket :: (Phrase.listPieces elements ++ [.mark .rightBracket])
  | .arrow isAsync params body =>
    (if isAsync then [.word asyncWord] else []) ++
      (params.pieces ++ .mark .equals :: .mark .greater :: body.pieces)

def Chain.pieces : Chain → List Piece
  | .name name => [.word name.toWord]
  | .dynamicImport arguments =>
    .word importWord :: .mark .leftParen :: (Phrase.listPieces arguments ++ [.mark .rightParen])
  | .member target name => target.pieces ++ [.mark .dot, .word name]
  | .call callee arguments =>
    callee.pieces ++ .mark .leftParen :: (Phrase.listPieces arguments ++ [.mark .rightParen])

def Member.pieces : Member → List Piece
  | .pair key value => key.piece :: .mark .colon :: value.pieces
  | .shorthand name => [.word name.toWord]
  | .method key => [key.piece, .mark .leftParen, .mark .rightParen, .mark .leftBrace,
      .mark .rightBrace]

/-- Expressions with commas between them. -/
def Phrase.listPieces : List Phrase → List Piece
  | [] => []
  | expr :: rest => expr.pieces ++ Phrase.morePieces rest

def Phrase.morePieces : List Phrase → List Piece
  | [] => []
  | expr :: rest => .mark .comma :: (expr.pieces ++ Phrase.morePieces rest)

/-- Properties with commas between them. -/
def Member.listPieces : List Member → List Piece
  | [] => []
  | member :: rest => member.pieces ++ Member.morePieces rest

def Member.morePieces : List Member → List Piece
  | [] => []
  | member :: rest => .mark .comma :: (member.pieces ++ Member.morePieces rest)

end

def Declarator.pieces (declarator : Declarator) : List Piece :=
  .word declarator.name.toWord ::
    match declarator.init with
    | none => []
    | some value => .mark .equals :: value.pieces

/-- The pieces of a statement, its semicolon included. -/
def Sentence.pieces : Sentence → List Piece
  | declare kind first others =>
    .word (keyword kind) :: (first.pieces ++
      (others.flatMap (fun other => .mark .comma :: other.pieces) ++ [.mark .semicolon]))
  | exportDefault value =>
    .word exportWord :: .word defaultWord :: (value.pieces ++ [.mark .semicolon])

end Pieces

section Trees

def Key.tree : Key → PropertyKey
  | word w => .identifier ⟨default, w.text⟩
  | literal l => .string ⟨default, l.text⟩

def Params.tree : Params → List Identifier
  | bare name => [⟨default, name.text⟩]
  | listed names => names.map fun name => ⟨default, name.text⟩

mutual

/-- How many object literals an expression has. -/
def Phrase.count : Phrase → Nat
  | .object members => 1 + Member.countAll members
  | .simple expr => expr.count

def Simple.count : Simple → Nat
  | .chain chain => chain.count
  | .literal _ => 0
  | .numeral _ => 0
  | .array elements => Phrase.countAll elements
  | .arrow _ _ body => body.count

def Chain.count : Chain → Nat
  | .name _ => 0
  | .dynamicImport arguments => Phrase.countAll arguments
  | .member target _ => target.count
  | .call callee arguments => callee.count + Phrase.countAll arguments

def Member.count : Member → Nat
  | .pair _ value => value.count
  | .shorthand _ => 0
  | .method _ => 0

def Phrase.countAll : List Phrase → Nat
  | [] => 0
  | expr :: rest => expr.count + Phrase.countAll rest

def Member.countAll : List Member → Nat
  | [] => 0
  | member :: rest => member.count + Member.countAll rest

end

mutual

/-- The tree of an expression whose first object literal has the given number. -/
def Phrase.tree : Phrase → Nat → Expr
  | .object members, n => .object ⟨default, n, Member.trees members (n + 1)⟩
  | .simple expr, n => expr.tree n

def Simple.tree : Simple → Nat → Expr
  | .chain chain, n => chain.tree n
  | .literal literal, _ => .string ⟨default, literal.text⟩
  | .numeral numeral, _ => .number ⟨default, numeral.text⟩
  | .array elements, n => .array default (Phrase.trees elements n)
  | .arrow isAsync params body, n => .arrow default params.tree (some (body.tree n)) isAsync

def Chain.tree : Chain → Nat → Expr
  | .name name, _ => .identifier ⟨default, name.text⟩
  | .dynamicImport arguments, n => .call default (.dynamicImport default) (Phrase.trees arguments n)
  | .member target name, n => .member default (target.tree n) ⟨default, name.text⟩ false
  | .call callee arguments, n =>
    .call default (callee.tree n) (Phrase.trees arguments (n + callee.count))

def Member.tree : Member → Nat → Property
  | .pair key value, n => ⟨default, key.tree, some (value.tree n), false, false, false⟩
  | .shorthand name, _ =>
    ⟨default, .identifier ⟨default, name.text⟩, some (.identifier ⟨default, name.text⟩), true,
      false, false⟩
  | .method key, _ => ⟨default, key.tree, none, false, false, true⟩

def Phrase.trees : List Phrase → Nat → List Expr
  | [], _ => []
  | expr :: rest, n => expr.tree n :: Phrase.trees rest (n + expr.count)

def Member.trees : List Member → Nat → List Property
  | [], _ => []
  | member :: rest, n => member.tree n :: Member.trees rest (n + member.count)

end

def Declarator.count (declarator : Declarator) : Nat :=
  match declarator.init with
  | none => 0
  | some value => value.count

def Declarator.tree (declarator : Declarator) (n : Nat) : VariableDeclarator :=
  ⟨default, ⟨default, declarator.name.text⟩, declarator.init.map (·.tree n)⟩

def Declarator.countAll : List Declarator → Nat
  | [] => 0
  | declarator :: rest => declarator.count + Declarator.countAll rest

def Declarator.trees : List Declarator → Nat → List VariableDeclarator
  | [], _ => []
  | declarator :: rest, n => declarator.tree n :: Declarator.trees rest (n + declarator.count)

def Sentence.count : Sentence → Nat
  | declare _ first others => Declarator.countAll (first :: others)
  | exportDefault value => value.count

def Sentence.countAll : List Sentence → Nat
  | [] => 0
  | sentence :: rest => sentence.count + Sentence.countAll rest

def Sentence.tree : Sentence → Nat → Statement
  | declare kind first others, n =>
    .variableDeclaration ⟨default, kind, Declarator.trees (first :: others) n⟩
  | exportDefault value, n => .defaultExport ⟨default, some (value.tree n)⟩

/-- The statements of a program. -/
def Sentence.trees : List Sentence → Nat → List Statement
  | [], _ => []
  | sentence :: rest, n => sentence.tree n :: Sentence.trees rest (n + sentence.count)

end Trees

/-- The source is the program, with any white space between its pieces. -/
def IsSource (program : List Sentence) (source : String) : Prop :=
  ∃ gap text, (∀ c ∈ gap, Text.isGap c = true) ∧ source.toList = gap ++ text ∧
    Written (program.flatMap Sentence.pieces) text

/-- Every program has a source, with any white space one likes. -/
theorem isSource_spaced (program : List Sentence) (gap : List Char)
    (blank : ∀ c ∈ gap, Text.isGap c = true) (filled : gap ≠ []) :
    IsSource program (String.ofList (spaced gap (program.flatMap Sentence.pieces))) :=
  isText_spaced _ gap blank filled

end ImportAtlas.Grammar
