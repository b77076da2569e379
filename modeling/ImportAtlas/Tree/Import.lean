import ImportAtlas.Token.Cursor
import ImportAtlas.Tree.Expression

/-! Reading import declarations. A declaration is read as far as it goes: a
missing source or an unclosed list of names ends it before the first token that
cannot belong to it, so that the statement after it is left alone. -/

namespace ImportAtlas

/-- The name that a specifier imports. A literal name loses its quotes. -/
def Token.importedName (t : Token) : Identifier :=
  ⟨t.span, Text.unquoted t.value⟩

/-- Whether a token is a name other than the word `from`. -/
def Token.isBindingName (t : Token) : Bool :=
  t.kind == .identifier && !t.isIdentifier "from"

namespace ImportSpecifier

/-- Moves past the word `type` in front of the name that it marks. -/
def skipTypeWord (first : Token) (rest : List Token) : Cursor :=
  if first.isIdentifier "type" then
    Cursor.skipIf (fun t => t.kind == .identifier && !t.isIdentifier "as") ⟨first, rest⟩
  else ⟨first, rest⟩

theorem length_skipTypeWord_le (first : Token) (rest : List Token) :
    (skipTypeWord first rest).rest.length ≤ rest.length := by
  unfold skipTypeWord
  split
  · exact Cursor.length_skipIf_le ..
  · exact Nat.le_refl _

/-- Reads one named specifier whose first token has been consumed. A renaming
without a new name is bound to the word `as` itself. -/
def readNamed (first : Token) (rest : List Token) : ImportSpecifier × Cursor :=
  let imported := skipTypeWord first rest
  let name := imported.last.importedName
  if imported.nextIs (·.isIdentifier "as") then
    let renamed := imported.skipIf (·.isIdentifier "as")
    let bound := renamed.skipIf fun t => t.kind == .identifier || t.kind == .keyword
    (⟨imported.last.through bound.last, .named, name, bound.last.identifier⟩, bound)
  else (⟨imported.last.span, .named, name, name⟩, imported)

theorem length_readNamed_le (first : Token) (rest : List Token) :
    (readNamed first rest).2.rest.length ≤ rest.length := by
  have imported := length_skipTypeWord_le first rest
  unfold readNamed
  simp only
  split
  · exact Nat.le_trans (Cursor.length_skipIf_le ..)
      (Nat.le_trans (Cursor.length_skipIf_le ..) imported)
  · exact imported

/-- Whether a token starts a named specifier. A reserved word does so only when
it is renamed. -/
def startsNamed (t : Token) (rest : List Token) : Bool :=
  t.kind == .identifier || t.kind == .string ||
  (t.kind == .keyword && Cursor.nextIs (·.isIdentifier "as") ⟨t, rest⟩)

/-- Reads the named specifiers of a list whose opening brace has been consumed. -/
def readList (last : Token) (rest : List Token) : List ImportSpecifier × Cursor :=
  match rest with
  | [] => ([], ⟨last, []⟩)
  | t :: later =>
    if t.kind = .rightBrace then ([], ⟨t, later⟩)
    else if t.kind = .comma then readList t later
    else if startsNamed t later then
      let named := readNamed t later
      let more := readList named.2.last named.2.rest
      (named.1 :: more.1, more.2)
    else ([], ⟨last, t :: later⟩)
termination_by rest.length
decreasing_by
  · exact Nat.lt_succ_self _
  · exact Nat.lt_succ_of_le (length_readNamed_le t later)

theorem length_readList_le (last : Token) (rest : List Token) :
    (readList last rest).2.rest.length ≤ rest.length := by
  fun_induction readList last rest with
  | case1 => exact Nat.le_refl _
  | case2 => exact Nat.le_succ _
  | case3 last t later _ _ ih => exact Nat.le_succ_of_le ih
  | case4 last t later _ _ _ named more ih =>
    exact Nat.le_succ_of_le (Nat.le_trans ih (length_readNamed_le t later))
  | case5 => exact Nat.le_refl _

/-- Reads the name after `*` of a specifier that binds all exports. -/
def readStar (star : Token) (rest : List Token) : List ImportSpecifier × Cursor :=
  let named := Cursor.skipIf (·.isIdentifier "as") ⟨star, rest⟩
  if named.nextIs Token.isBindingName then
    let bound := named.skipIf Token.isBindingName
    let name := bound.last.identifier
    ([⟨star.through bound.last, .star, name, name⟩], bound)
  else ([], named)

theorem length_readStar_le (star : Token) (rest : List Token) :
    (readStar star rest).2.rest.length ≤ rest.length := by
  have named := Cursor.length_skipIf_le (·.isIdentifier "as") ⟨star, rest⟩
  unfold readStar
  simp only
  split
  · exact Nat.le_trans (Cursor.length_skipIf_le ..) named
  · exact named

/-- Reads the specifier of the default export and the comma after it. -/
def readDefault (c : Cursor) : List ImportSpecifier × Cursor :=
  if c.nextIs Token.isBindingName then
    let bound := c.skipIf Token.isBindingName
    let name := bound.last.identifier
    ([⟨name.span, .default, name, name⟩], bound.skipIf (·.kind == .comma))
  else ([], c)

theorem length_readDefault_le (c : Cursor) :
    (readDefault c).2.rest.length ≤ c.rest.length := by
  unfold readDefault
  split
  · exact Nat.le_trans (Cursor.length_skipIf_le ..) (Cursor.length_skipIf_le ..)
  · exact Nat.le_refl _

/-- Reads a specifier for all exports or a list of named ones. -/
def readRest (c : Cursor) : List ImportSpecifier × Cursor :=
  match c.rest with
  | [] => ([], c)
  | t :: later =>
    if t.isOperator "*" then readStar t later
    else if t.kind = .leftBrace then readList t later
    else ([], c)

theorem length_readRest_le (c : Cursor) : (readRest c).2.rest.length ≤ c.rest.length := by
  obtain ⟨last, _ | ⟨t, later⟩⟩ := c
  · exact Nat.le_refl _
  · simp only [readRest]
    split
    · exact Nat.le_succ_of_le (length_readStar_le t later)
    split
    · exact Nat.le_succ_of_le (length_readList_le t later)
    · exact Nat.le_refl _

end ImportSpecifier

namespace ImportDeclaration

/-- Whether `type` at the start of the tokens marks a declaration that imports
types only, and is not itself a name. -/
def startsTypeOnly : List Token → Bool
  | word :: t :: _ =>
    word.isIdentifier "type" && (t.kind == .leftBrace || t.isOperator "*" || t.isBindingName)
  | _ => false

/-- What stands between the keyword and the source of a declaration. -/
structure Clause where
  specifiers : List ImportSpecifier
  /-- Whether a source has to follow. -/
  expectsSource : Bool
  /-- The place after the clause. -/
  stop : Cursor

/-- Reads everything up to the source, the word `from` included. -/
def readClause (c : Cursor) : Clause :=
  if c.nextIs (·.kind == .string) then ⟨[], true, c⟩
  else
    let start := if startsTypeOnly c.rest then c.skipIf fun _ => true else c
    let main := ImportSpecifier.readDefault start
    let others := ImportSpecifier.readRest main.2
    ⟨main.1 ++ others.1, others.2.nextIs (·.isIdentifier "from"),
      others.2.skipIf (·.isIdentifier "from")⟩

theorem length_readClause_le (c : Cursor) : (readClause c).stop.rest.length ≤ c.rest.length := by
  unfold readClause
  split
  · exact Nat.le_refl _
  · refine Nat.le_trans (Cursor.length_skipIf_le ..) ?_
    refine Nat.le_trans (ImportSpecifier.length_readRest_le _) ?_
    refine Nat.le_trans (ImportSpecifier.length_readDefault_le _) ?_
    split
    · exact Cursor.length_skipIf_le ..
    · exact Nat.le_refl _

/-- Reads the source of a declaration, if there is one. -/
def readSource (clause : Clause) : Option StringLiteral × Cursor :=
  if clause.expectsSource && clause.stop.nextIs (·.kind == .string) then
    let source := clause.stop.skipIf fun _ => true
    (some source.last.stringLiteral, source)
  else (none, clause.stop)

theorem length_readSource_le (clause : Clause) :
    (readSource clause).2.rest.length ≤ clause.stop.rest.length := by
  unfold readSource
  split
  · exact Cursor.length_skipIf_le ..
  · exact Nat.le_refl _

/-- Reads the declaration whose keyword has been consumed. A call of `import` and
`import.meta` are statements of their own kind and yield none. -/
def read (keyword : Token) (rest : List Token) : Option ImportDeclaration × Cursor :=
  if Cursor.nextIs (fun t => t.kind == .leftParen || t.isOperator ".") ⟨keyword, rest⟩ then
    (none, (Cursor.skipExpression ⟨keyword, rest⟩).skipTerminator)
  else
    let clause := readClause ⟨keyword, rest⟩
    let source := readSource clause
    let stop := source.2.skipTerminator
    (some ⟨keyword.through stop.last, clause.specifiers, source.1⟩, stop)

theorem length_read_le (keyword : Token) (rest : List Token) :
    (read keyword rest).2.rest.length ≤ rest.length := by
  unfold read
  split
  · exact Nat.le_trans (Cursor.length_skipTerminator_le _) (Cursor.length_skipExpression_le _)
  · exact Nat.le_trans (Cursor.length_skipTerminator_le _)
      (Nat.le_trans (length_readSource_le _) (length_readClause_le _))

end ImportDeclaration
end ImportAtlas
