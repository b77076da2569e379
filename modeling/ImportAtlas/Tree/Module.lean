import ImportAtlas.Token.Lexer
import ImportAtlas.Tree.Expression
import ImportAtlas.Tree.Import

/-! Reading whole modules. Declarations that are not modelled are stepped over
token by token, so reading never fails and always reaches the end of the source.
A reading that is interested in imports only stops at the first other statement
keyword. -/

namespace ImportAtlas

namespace DefaultExport

/-- Moves past the names of an export clause whose first token, a brace or a
star, has been consumed. -/
def skipNames (first : Token) (rest : List Token) : Cursor :=
  if first.kind = .leftBrace then Cursor.skipBalanced ⟨first, rest⟩
  else Cursor.skipExpression ⟨first, rest⟩

theorem length_skipNames_le (first : Token) (rest : List Token) :
    (skipNames first rest).rest.length ≤ rest.length := by
  unfold skipNames
  split
  · exact Cursor.length_skipBalanced_le _
  · exact Cursor.length_skipExpression_le _

/-- Moves past the word `from` and a source after it. -/
def skipSource (c : Cursor) : Cursor :=
  if c.nextIs (·.isIdentifier "from") then
    (c.skipIf (·.isIdentifier "from")).skipIf (·.kind == .string)
  else c

theorem length_skipSource_le (c : Cursor) : (skipSource c).rest.length ≤ c.rest.length := by
  unfold skipSource
  split
  · exact Nat.le_trans (Cursor.length_skipIf_le ..) (Cursor.length_skipIf_le ..)
  · exact Nat.le_refl _

/-- Moves past an export clause: the names, the source and the semicolon. -/
def skipClause (first : Token) (rest : List Token) : Cursor :=
  (skipSource (skipNames first rest)).skipTerminator

theorem length_skipClause_le (first : Token) (rest : List Token) :
    (skipClause first rest).rest.length ≤ rest.length :=
  Nat.le_trans (Cursor.length_skipTerminator_le _)
    (Nat.le_trans (length_skipSource_le _) (length_skipNames_le first rest))

/-- Reads the export whose keyword has been consumed. Only a default export is
kept; of any other, the export clause is skipped and a declaration is left in
place. -/
def read (keyword : Token) (rest : List Token) (nextId : Nat) :
    Reading (Option DefaultExport) rest.length :=
  match rest with
  | [] => .stay none ⟨keyword, []⟩ nextId
  | t :: later =>
    if t.isKeyword "default" then
      match Expr.readValue t later nextId with
      | ⟨value, after, ids, fits⟩ =>
        let stop := after.skipTerminator
        ⟨some ⟨keyword.through stop.last, value⟩, stop, ids,
          Nat.le_trans (Cursor.length_skipTerminator_le _) (Nat.le_succ_of_le fits)⟩
    else if t.kind == .leftBrace || t.isOperator "*" then
      ⟨none, skipClause t later, nextId, Nat.le_succ_of_le (length_skipClause_le t later)⟩
    else .stay none ⟨keyword, t :: later⟩ nextId

end DefaultExport

namespace VariableDeclaration

/-- Reads an initial value, if there is one. -/
def readInit (last : Token) (rest : List Token) (nextId : Nat) :
    Reading (Option Expr) rest.length :=
  match rest with
  | [] => .stay none ⟨last, []⟩ nextId
  | t :: later =>
    if t.isOperator "=" then (Expr.readValue t later nextId).behind t
    else .stay none ⟨last, t :: later⟩ nextId

/-- Reads the declarator that starts with a name, or reads past the one that
starts with a pattern. The initial value of a pattern is read, so that the object
literals inside it get their numbers, and is not kept. -/
def readDeclarator (first : Token) (rest : List Token) (nextId : Nat) :
    Reading (Option VariableDeclarator) rest.length :=
  if first.kind = .identifier then
    match readInit first rest nextId with
    | ⟨init, after, ids, fits⟩ =>
      ⟨some ⟨first.through after.last, first.identifier, init⟩, after, ids, fits⟩
  else
    match Expr.skipBracket first rest nextId with
    | ⟨_, pattern, ids, fits⟩ =>
      ((readInit pattern.last pattern.rest ids).map fun _ => none).widen fits

/-- Whether a token ends a list of declarators. -/
def endsList (t : Token) : Bool :=
  t.isEof || t.kind == .keyword || t.kind == .comma || t.kind.isClose || t.isOperator ";"

/-- Reads declarators as long as commas separate them. A token that can neither
start nor end a declarator is passed over. -/
def readDeclarators (last : Token) (rest : List Token) (nextId : Nat) :
    Reading (List VariableDeclarator) rest.length :=
  match rest with
  | [] => ⟨[], ⟨last, []⟩, nextId, Nat.le_refl _⟩
  | t :: later =>
    if t.kind = .identifier ∨ t.kind = .leftBrace ∨ t.kind = .leftBracket then
      match readDeclarator t later nextId with
      | ⟨declarator, ⟨last, []⟩, ids, fits⟩ =>
        ⟨declarator.toList, ⟨last, []⟩, ids, Nat.le_succ_of_le fits⟩
      | ⟨declarator, ⟨last, comma :: after⟩, ids, fits⟩ =>
        have fits : after.length + 1 ≤ later.length := fits
        if comma.kind = .comma then
          ((readDeclarators comma after ids).map (declarator.toList ++ ·)).widen
            (Nat.le_succ_of_le (Nat.le_of_succ_le fits))
        else ⟨declarator.toList, ⟨last, comma :: after⟩, ids, Nat.le_succ_of_le fits⟩
    else if endsList t then ⟨[], ⟨last, t :: later⟩, nextId, Nat.le_refl _⟩
    else (readDeclarators t later nextId).widen (Nat.le_succ _)
termination_by rest.length

/-- Reads the declaration whose keyword has been consumed. -/
def read (keyword : Token) (rest : List Token) (nextId : Nat) :
    Reading VariableDeclaration rest.length :=
  match readDeclarators keyword rest nextId with
  | ⟨declarators, after, ids, fits⟩ =>
    let stop := after.skipTerminator
    let kind := (VariableKind.ofKeyword? keyword.value).getD .var
    ⟨⟨keyword.through stop.last, kind, declarators⟩, stop, ids,
      Nat.le_trans (Cursor.length_skipTerminator_le _) fits⟩

end VariableDeclaration

namespace Module

/-- Reads statements up to and including the end of the source, or up to the
first statement that is no import. Yields the statements and the tokens left. -/
def readBody (importsOnly : Bool) (tokens : List Token) (nextId : Nat) :
    List Statement × List Token :=
  match tokens with
  | [] => ([], [])
  | t :: later =>
    if t.isEof then ([], later)
    else if t.kind != .keyword then readBody importsOnly later nextId
    else if t.value = "import" then
      let declaration := ImportDeclaration.read t later
      let more := readBody importsOnly declaration.2.rest nextId
      (declaration.1.toList.map .importDeclaration ++ more.1, more.2)
    else if t.value = "export" then
      let declaration := DefaultExport.read t later nextId
      let statements := declaration.value.toList.map Statement.defaultExport
      if importsOnly then (statements, declaration.cursor.rest)
      else
        let more := readBody importsOnly declaration.cursor.rest declaration.nextId
        (statements ++ more.1, more.2)
    else if importsOnly then ([], later)
    else if (VariableKind.ofKeyword? t.value).isSome then
      let declaration := VariableDeclaration.read t later nextId
      let more := readBody importsOnly declaration.cursor.rest declaration.nextId
      (.variableDeclaration declaration.value :: more.1, more.2)
    else readBody importsOnly later nextId
termination_by tokens.length
decreasing_by
  · exact Nat.lt_succ_self _
  · exact Nat.lt_succ_of_le (ImportDeclaration.length_read_le t later)
  · exact Nat.lt_succ_of_le (DefaultExport.read t later nextId).fits
  · exact Nat.lt_succ_of_le (VariableDeclaration.read t later nextId).fits
  · exact Nat.lt_succ_self _

/-- The tokens that reading works on: the comments are dropped, and the end of
the source is added where it is missing. -/
def significant (tokens : List Token) : List Token :=
  let kept := tokens.filter (·.kind != .comment)
  match kept.getLast? with
  | none => [.endOfSource .origin]
  | some last => if last.isEof then kept else kept ++ [.endOfSource last.span.stop]

/-- The place where the last token stops. -/
def stopOf (tokens : List Token) : Position :=
  match tokens.getLast? with
  | some last => last.span.stop
  | none => .origin

/-- The module that some tokens spell. -/
def ofTokens (tokens : List Token) (importsOnly : Bool) : Module :=
  let stream := significant tokens
  ⟨⟨.origin, stopOf stream⟩, (readBody importsOnly stream 0).1⟩

/-- How many significant tokens are consumed by reading a module. -/
def consumed (tokens : List Token) (importsOnly : Bool) : Nat :=
  let stream := significant tokens
  stream.length - (readBody importsOnly stream 0).2.length

/-- The module of a source. -/
def ofSource (source : String) (importsOnly : Bool) : Module :=
  ofTokens (Token.ofSource source) importsOnly

end Module
end ImportAtlas
