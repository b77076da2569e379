import ImportAtlas.Proofs.Layout
import ImportAtlas.Proofs.Nesting

/-! No statement is lost. Whatever stands before a statement keyword outside all
brackets, reading comes back to that keyword: every routine that reads an expression
or a declaration stops before it. -/
namespace ImportAtlas.Recovery
open ImportAtlas.Expr Nesting

variable {k : Token} {after : List Token}

mutual

/-- Reading an expression closes what its first token opens, and goes no further
than a landmark. -/
theorem rests_read (first : Token) (rest : List Token) (n : Nat)
    (awaits : Awaits k after (opened first.kind stack) ⟨first, rest⟩) :
    Rests k after stack (read first rest n).outcome.2.1 := by
  have primary := rests_readPrimary first rest n awaits
  rw [outcome_read]
  dsimp only
  split
  · exact primary
  · exact primary.skipExpression
termination_by 4 * rest.length + 3

theorem rests_readPrimary (first : Token) (rest : List Token) (n : Nat)
    (awaits : Awaits k after (opened first.kind stack) ⟨first, rest⟩) :
    Rests k after stack (readPrimary first rest n).outcome.2.1 := by
  have skipped := rests_skipExpression awaits
  rw [outcome_readPrimary]
  split
  · rename_i kind
    rw [kind] at awaits
    exact ⟨awaits, by rw [kind]; rfl⟩
  · rename_i kind
    rw [kind] at awaits
    exact ⟨awaits, by rw [kind]; rfl⟩
  · rename_i kind
    rw [kind] at awaits
    exact rests_readName first rest n ⟨awaits, by rw [kind]; rfl⟩
  · rename_i kind
    rw [kind] at awaits
    exact rests_readMembers first rest (n + 1) awaits
  · rename_i kind
    rw [kind] at awaits
    exact rests_readItems .rightBracket first rest n rfl awaits
  · rename_i kind
    split
    · rw [kind] at awaits
      exact rests_readParenArrow first false first rest n awaits
    · exact rests_skipBalanced awaits
  · rename_i kind
    split
    · rw [kind] at awaits
      exact rests_skipFunction ⟨awaits, by rw [kind]; rfl⟩
    split
    · rw [kind] at awaits
      exact rests_readChain first _ first rest n ⟨awaits, by rw [kind]; rfl⟩
    · exact skipped
  · exact skipped
termination_by 4 * rest.length + 2

theorem rests_readName (first : Token) (rest : List Token) (n : Nat)
    (rests : Rests k after stack ⟨first, rest⟩) :
    Rests k after stack (readName first rest n).outcome.2.1 := by
  rw [outcome_readName]
  split
  · rename_i param next found
    have shorter : next.rest.length < rest.length := length_lt_of_asyncParam? found
    exact rests_readArrowBody first _ true next.last next.rest n
      (rests_of_asyncParam? found rests.awaits)
  split
  · rename_i paren found
    have shorter := length_lt_of_asyncParens? found
    exact rests_readParenArrow first true paren.last paren.rest n
      (awaits_of_asyncParens? found rests.awaits)
  split
  · rename_i next found
    have shorter := Cursor.length_lt_of_arrow? found
    exact rests_readArrowBody first _ false next.last next.rest n
      (rests_of_arrow? found rests.awaits)
  · exact rests_readChain first _ first rest n rests
termination_by 4 * rest.length + 1

theorem rests_readChain (start : Token) (expr : Expr) (last : Token) (rest : List Token) (n : Nat) :
    Rests k after stack ⟨last, rest⟩ →
      Rests k after stack (readChain start expr last rest n).outcome.2.1 := by
  rw [outcome_readChain]
  split
  · rename_i name found
    have shorter := length_lt_of_member? found
    intro rests
    exact rests_readChain start _ name.last name.rest n (rests_of_member? found rests.awaits)
  obtain _ | ⟨paren, later⟩ := rest
  · exact id
  intro rests
  dsimp only
  split
  · rename_i opens
    have shorter := (readItems .rightParen paren later n).fits
    have items := rests_readItems .rightParen paren later n rfl
      (rests.awaits.passOpen (by rw [opens]; rfl))
    exact rests_readChain start _ _ (readItems .rightParen paren later n).cursor.rest _ items
  · exact rests
termination_by 4 * rest.length + 0

/-- A list is read through the bracket that closes it. -/
theorem rests_readItems (closing : Token.Kind) (last : Token) (rest : List Token) (n : Nat)
    (closes : closing.isClose = true) :
    Awaits k after (closing :: stack) ⟨last, rest⟩ →
      Rests k after stack (readItems closing last rest n).outcome.2.1 := by
  rw [outcome_readItems]
  obtain _ | ⟨t, later⟩ := rest
  · exact fun awaits => absurd rfl awaits.nonempty
  intro awaits
  obtain ⟨inside, below, nests, more⟩ := awaits.passInner
  simp only [inside, Bool.false_eq_true, ↓reduceIte]
  split
  · rename_i same
    cases nest_of_close (same ▸ closes) nests
    exact ⟨more, not_isOpen_of_isClose (same ▸ closes)⟩
  rename_i differs
  split
  · rename_i comma
    have passed := awaits.passPlain (by rw [comma]; exact ⟨rfl, rfl⟩)
    exact rests_readItems closing t later n closes passed.awaits
  · have shorter := (read t later n).fits
    rcases nest_cases nests with ⟨-, rfl⟩ | ⟨-, top⟩
    · have item := rests_read t later n more
      exact rests_readItems closing _ (read t later n).cursor.rest _ closes item.awaits
    · exact absurd (List.cons.inj top).1.symm differs
termination_by 4 * rest.length + 0

theorem rests_readParenArrow (start : Token) (isAsync : Bool) (paren : Token) (rest : List Token)
    (n : Nat) (awaits : Awaits k after (.rightParen :: stack) ⟨paren, rest⟩) :
    Rests k after stack (readParenArrow start isAsync paren rest n).outcome.2.1 := by
  have fits := length_arrowParams_le 0 paren rest
  have close := rests_arrowParams 0 paren rest [] rfl awaits
  rw [outcome_readParenArrow]
  dsimp only
  split
  · rename_i next found
    have shorter := Cursor.length_lt_of_arrow? found
    exact rests_readArrowBody start _ isAsync next.last next.rest n
      (rests_of_arrow? found close.awaits)
  · exact rests_readArrowBody start _ isAsync _ (arrowParams 0 paren rest).2.rest n close
termination_by 4 * rest.length + 1

theorem rests_readArrowBody (start : Token) (params : List Identifier) (isAsync : Bool)
    (arrow : Token) (rest : List Token) (n : Nat) :
    Rests k after stack ⟨arrow, rest⟩ →
      Rests k after stack (readArrowBody start params isAsync arrow rest n).outcome.2.1 := by
  rw [outcome_readArrowBody]
  obtain _ | ⟨t, later⟩ := rest
  · exact id
  intro rests
  dsimp only
  split
  · rename_i opens
    have inside := rests.awaits.passOpen (by rw [opens]; rfl)
    refine rests_skipBalanced ?_
    rw [opens]
    exact inside
  split
  · exact rests
  · rename_i goes
    exact rests_read t later n (rests.awaits.passGoes goes)
termination_by 4 * rest.length + 0

/-- An object literal is read through the brace that closes it. -/
theorem rests_readMembers (last : Token) (rest : List Token) (n : Nat) :
    Awaits k after (.rightBrace :: stack) ⟨last, rest⟩ →
      Rests k after stack (readMembers last rest n).outcome.2.1 := by
  rw [outcome_readMembers]
  obtain _ | ⟨t, later⟩ := rest
  · exact fun awaits => absurd rfl awaits.nonempty
  intro awaits
  obtain ⟨inside, below, nests, more⟩ := awaits.passInner
  have shorter := (readProperty t later n).fits
  -- What stands before a member is not the closing brace, so no bracket is closed.
  have property (notOpen : t.kind.isOpen = false) (notClose : t.kind.isClose = false) :
      Rests k after stack (readMembers (readProperty t later n).cursor.last
        (readProperty t later n).cursor.rest (readProperty t later n).nextId).outcome.2.1 := by
    rw [nest_of_not_close notClose, opened_of_not_open notOpen] at nests
    cases nests
    exact rests_readMembers _ (readProperty t later n).cursor.rest _
      (rests_readProperty t later n ⟨more, notOpen⟩).awaits
  dsimp only
  split
  · rename_i kind
    simp [Token.isEof, kind] at inside
  · rename_i kind
    rw [kind] at nests
    cases nest_of_close rfl nests
    exact ⟨more, by rw [kind]; rfl⟩
  · rename_i kind
    have passed := awaits.passPlain (by rw [kind]; exact ⟨rfl, rfl⟩)
    exact rests_readMembers t later n passed.awaits
  · rename_i kind
    exact property (by rw [kind]; rfl) (by rw [kind]; rfl)
  · rename_i kind
    exact property (by rw [kind]; rfl) (by rw [kind]; rfl)
  · rename_i kind
    exact property (by rw [kind]; rfl) (by rw [kind]; rfl)
  · rename_i kind
    have shorter := (readComputed t later n).fits
    rw [nest_of_not_close (by rw [kind]; rfl)] at nests
    cases nests
    exact rests_readMembers _ (readComputed t later n).cursor.rest _
      (rests_readComputed t later n more).awaits
  · rename_i notBrace _ _ _ _ _
    have shorter : (Cursor.skipExpression ⟨t, later⟩).rest.length ≤ later.length :=
      Cursor.length_skipExpression_le _
    rcases nest_cases nests with ⟨-, rfl⟩ | ⟨-, top⟩
    · exact rests_readMembers _ (Cursor.skipExpression ⟨t, later⟩).rest n
        (rests_skipExpression more).awaits
    · exact absurd (List.cons.inj top).1.symm notBrace
termination_by 4 * rest.length + 0

theorem rests_readProperty (key : Token) (rest : List Token) (n : Nat) :
    Rests k after stack ⟨key, rest⟩ →
      Rests k after stack (readProperty key rest n).outcome.2.1 := by
  rw [outcome_readProperty]
  split
  · exact fun rests => rests.skipExpression
  obtain _ | ⟨t, later⟩ := rest
  · exact id
  intro rests
  dsimp only
  split
  · rename_i colon
    exact rests_readValue t later n (rests.awaits.passPlain (plain_of_isOperator colon))
  split
  · exact rests
  · exact rests
  · exact rests
  · exact rests_skipMethod rests
  · exact rests.skipExpression
termination_by 4 * rest.length + 0

theorem rests_readValue (colon : Token) (rest : List Token) (n : Nat) :
    Rests k after stack ⟨colon, rest⟩ →
      Rests k after stack (readValue colon rest n).outcome.2.1 := by
  rw [outcome_readValue]
  obtain _ | ⟨t, later⟩ := rest
  · exact id
  intro rests
  dsimp only
  split
  · exact rests
  · rename_i goes
    exact rests_read t later n (rests.awaits.passGoes goes)
termination_by 4 * rest.length + 0

theorem rests_readComputed (bracket : Token) (rest : List Token) (n : Nat)
    (awaits : Awaits k after (opened bracket.kind stack) ⟨bracket, rest⟩) :
    Rests k after stack (readComputed bracket rest n).outcome.2.1 := by
  have fits := Cursor.length_skipBalanced_le ⟨bracket, rest⟩
  have rests := rests_skipBalanced awaits
  rw [outcome_readComputed]
  split
  · rename_i ends
    exact ends ▸ rests
  · rename_i last t later ends
    rw [ends] at fits rests
    have fits : later.length + 1 ≤ rest.length := fits
    split
    · rename_i colon
      exact rests_readValue t later n (rests.awaits.passPlain (plain_of_isOperator colon))
    split
    · exact rests_skipMethod rests
    · exact rests
termination_by 4 * rest.length + 0

end

/-- A landmark is awaited, whatever brackets are open. A declaration that breaks off
leaves its own ones open. -/
def Returns (k : Token) (after : List Token) (c : Cursor) : Prop :=
  ∃ stack, Awaits k after stack c

theorem Returns.skipIf {p : Token → Bool} (plain : ∀ t, p t = true → Plain t.kind)
    (returns : Returns k after c) : Returns k after (c.skipIf p) := by
  obtain ⟨stack, awaits⟩ := returns
  exact ⟨stack, awaits_skipIf plain awaits⟩

/-- Inside brackets any word is passed. -/
private theorem awaits_passWord (awaits : Awaits k after (closing :: stack) ⟨last, t :: rest⟩)
    (notOpen : t.kind.isOpen = false) (notClose : t.kind.isClose = false) :
    Awaits k after (closing :: stack) ⟨t, rest⟩ := by
  obtain ⟨-, below, nests, more⟩ := awaits.passInner
  rw [nest_of_not_close notClose, opened_of_not_open notOpen] at nests
  cases nests
  exact more

private theorem awaits_readNamed (first : Token) (rest : List Token)
    (awaits : Awaits k after (closing :: stack) ⟨first, rest⟩) :
    Awaits k after (closing :: stack) (ImportSpecifier.readNamed first rest).2 := by
  have imported : Awaits k after (closing :: stack) (ImportSpecifier.skipTypeWord first rest) := by
    unfold ImportSpecifier.skipTypeWord
    split
    · refine awaits_skipIf (fun t accepted => ?_) awaits
      simp only [Bool.and_eq_true, beq_iff_eq] at accepted
      exact plain_of_identifier accepted.1
    · exact awaits
  unfold ImportSpecifier.readNamed
  dsimp only
  split
  · have renamed := awaits_skipIf (p := (·.isIdentifier "as")) (fun _ => plain_of_isIdentifier) imported
    generalize (ImportSpecifier.skipTypeWord first rest).skipIf (·.isIdentifier "as") = c at renamed ⊢
    obtain ⟨last, _ | ⟨t, rest⟩⟩ := c
    · exact renamed
    · simp only [Cursor.skipIf]
      split
      · rename_i word
        simp only [Bool.or_eq_true, beq_iff_eq] at word
        rcases word with kind | kind
        · exact awaits_passWord renamed (by rw [kind]; rfl) (by rw [kind]; rfl)
        · exact awaits_passWord renamed (by rw [kind]; rfl) (by rw [kind]; rfl)
      · exact renamed
  · exact imported

/-- A list of specifiers is read through its closing brace, or it breaks off inside. -/
theorem returns_readList (last : Token) (rest : List Token)
    (awaits : Awaits k after (.rightBrace :: stack) ⟨last, rest⟩) :
    Returns k after (ImportSpecifier.readList last rest).2 := by
  fun_induction ImportSpecifier.readList last rest with
  | case1 last => exact ⟨_, awaits⟩
  | case2 last t later closes =>
    obtain ⟨-, below, -, more⟩ := awaits.passInner
    exact ⟨below, more⟩
  | case3 last t later _ comma ih =>
    exact ih (awaits_passWord awaits (by rw [comma]; rfl) (by rw [comma]; rfl))
  | case4 last t later _ _ starts named more ih =>
    refine ih (awaits_readNamed t later ?_)
    simp only [ImportSpecifier.startsNamed, Bool.or_eq_true, Bool.and_eq_true, beq_iff_eq] at starts
    rcases starts with (kind | kind) | ⟨kind, -⟩
    · exact awaits_passWord awaits (by rw [kind]; rfl) (by rw [kind]; rfl)
    · exact awaits_passWord awaits (by rw [kind]; rfl) (by rw [kind]; rfl)
    · exact awaits_passWord awaits (by rw [kind]; rfl) (by rw [kind]; rfl)
  | case5 last t later => exact ⟨_, awaits⟩

private theorem plain_of_isBindingName {t : Token} (named : t.isBindingName = true) : Plain t.kind := by
  simp only [Token.isBindingName, Bool.and_eq_true, beq_iff_eq] at named
  exact plain_of_identifier named.1

private theorem awaits_readDefault (awaits : Awaits k after stack c) :
    Awaits k after stack (ImportSpecifier.readDefault c).2 := by
  unfold ImportSpecifier.readDefault
  split
  · refine awaits_skipIf (fun t comma => ?_) (awaits_skipIf (fun _ => plain_of_isBindingName) awaits)
    rw [beq_iff_eq.mp comma]
    exact ⟨rfl, rfl⟩
  · exact awaits

theorem returns_readRest {c : Cursor} (awaits : Awaits k after stack c) :
    Returns k after (ImportSpecifier.readRest c).2 := by
  obtain ⟨last, _ | ⟨t, later⟩⟩ := c
  · exact ⟨stack, awaits⟩
  simp only [ImportSpecifier.readRest]
  split
  · rename_i star
    have passed := awaits.passPlain (plain_of_isOperator star)
    have named := awaits_skipIf (p := (·.isIdentifier "as")) (fun _ => plain_of_isIdentifier)
      passed.awaits
    unfold ImportSpecifier.readStar
    dsimp only
    split
    · exact ⟨stack, awaits_skipIf (fun _ => plain_of_isBindingName) named⟩
    · exact ⟨stack, named⟩
  split
  · rename_i opens
    exact returns_readList t later (awaits.passOpen (by rw [opens]; rfl))
  · exact ⟨stack, awaits⟩

theorem returns_readClause {c : Cursor} (awaits : Awaits k after stack c) :
    Returns k after (ImportDeclaration.readClause c).stop := by
  unfold ImportDeclaration.readClause
  split
  · exact ⟨stack, awaits⟩
  · refine Returns.skipIf (fun _ => plain_of_isIdentifier) ?_
    have typeWord : Awaits k after stack
        (if ImportDeclaration.startsTypeOnly c.rest then c.skipIf fun _ => true else c) := by
      split
      · rename_i starts
        obtain ⟨last, _ | ⟨word, _ | ⟨t, later⟩⟩⟩ := c
        · simp [ImportDeclaration.startsTypeOnly] at starts
        · simp [ImportDeclaration.startsTypeOnly] at starts
        · simp only [ImportDeclaration.startsTypeOnly, Bool.and_eq_true] at starts
          exact (awaits.passPlain (plain_of_isIdentifier starts.1)).awaits
      · exact awaits
    exact returns_readRest (awaits_readDefault typeWord)

theorem returns_readSource {clause : ImportDeclaration.Clause}
    (returns : Returns k after clause.stop) :
    Returns k after (ImportDeclaration.readSource clause).2 := by
  unfold ImportDeclaration.readSource
  split
  · rename_i both
    simp only [Bool.and_eq_true] at both
    obtain ⟨stack, awaits⟩ := returns
    obtain ⟨-, expected⟩ := both
    generalize clause.stop = c at awaits expected ⊢
    obtain ⟨last, _ | ⟨t, later⟩⟩ := c
    · simp [Cursor.nextIs] at expected
    · have literal : t.kind = .string := by simpa [Cursor.nextIs] using expected
      exact ⟨stack, (awaits.passPlain (by rw [literal]; exact ⟨rfl, rfl⟩)).awaits⟩
  · exact returns

theorem returns_readImport (keyword : Token) (rest : List Token)
    (rests : Rests k after stack ⟨keyword, rest⟩) :
    Returns k after (ImportDeclaration.read keyword rest).2 := by
  unfold ImportDeclaration.read
  split
  · exact ⟨stack, awaits_skipTerminator rests.skipExpression.awaits⟩
  · exact (returns_readSource (returns_readClause rests.awaits)).skipIf
      fun _ => plain_of_isOperator

theorem awaits_skipClause (first : Token) (rest : List Token)
    (awaits : Awaits k after (opened first.kind stack) ⟨first, rest⟩) :
    Awaits k after stack (DefaultExport.skipClause first rest) := by
  have names : Awaits k after stack (DefaultExport.skipNames first rest) := by
    unfold DefaultExport.skipNames
    split
    · exact (rests_skipBalanced awaits).awaits
    · exact (rests_skipExpression awaits).awaits
  refine awaits_skipTerminator ?_
  unfold DefaultExport.skipSource
  split
  · refine awaits_skipIf (fun t literal => ?_) (awaits_skipIf (fun _ => plain_of_isIdentifier) names)
    rw [beq_iff_eq.mp literal]
    exact ⟨rfl, rfl⟩
  · exact names

/-- The word `default` is no landmark. -/
theorem rests_default (word : t.isKeyword "default" = true)
    (awaits : Awaits k after stack ⟨last, t :: rest⟩) : Rests k after stack ⟨t, rest⟩ := by
  have kind : t.kind = .keyword := by
    simp only [Token.isKeyword, Bool.and_eq_true, beq_iff_eq] at word
    exact word.1
  rcases awaits.next with ⟨rfl, mark, -, -⟩ | ⟨-, below, nests, more⟩
  · rw [mark.notDefault] at word
    cases word
  · rw [kind] at nests
    cases nests
    exact ⟨more, by rw [kind]; rfl⟩

theorem awaits_readExport (keyword : Token) (rest : List Token) (n : Nat)
    (awaits : Awaits k after stack ⟨keyword, rest⟩) :
    Awaits k after stack (DefaultExport.read keyword rest n).cursor := by
  obtain _ | ⟨t, later⟩ := rest
  · exact awaits
  unfold DefaultExport.read
  dsimp only
  split
  · rename_i word
    exact awaits_skipTerminator (rests_readValue t later n (rests_default word awaits)).awaits
  split
  · rename_i opens
    refine awaits_skipClause t later ?_
    simp only [Bool.or_eq_true, beq_iff_eq] at opens
    rcases opens with brace | star
    · rw [brace]
      exact awaits.passOpen (by rw [brace]; rfl)
    · rw [opened_of_not_open (plain_of_isOperator star).notOpen]
      exact (awaits.passPlain (plain_of_isOperator star)).awaits
  · exact awaits

theorem rests_readInit (last : Token) (rest : List Token) (n : Nat)
    (rests : Rests k after stack ⟨last, rest⟩) :
    Rests k after stack (VariableDeclaration.readInit last rest n).cursor := by
  obtain _ | ⟨t, later⟩ := rest
  · exact rests
  unfold VariableDeclaration.readInit
  dsimp only
  split
  · rename_i equals
    exact rests_readValue t later n (rests.awaits.passPlain (plain_of_isOperator equals))
  · exact rests

theorem rests_readDeclarator (first : Token) (rest : List Token) (n : Nat)
    (awaits : Awaits k after (opened first.kind stack) ⟨first, rest⟩) :
    Rests k after stack (VariableDeclaration.readDeclarator first rest n).cursor := by
  unfold VariableDeclaration.readDeclarator
  split
  · rename_i kind
    rw [kind] at awaits
    exact rests_readInit first rest n ⟨awaits, by rw [kind]; rfl⟩
  · exact rests_readInit _ _ n (rests_skipBalanced awaits)

/-- The first token of a declarator opens what it opens. -/
theorem awaits_declarator
    (starts : t.kind = .identifier ∨ t.kind = .leftBrace ∨ t.kind = .leftBracket)
    (awaits : Awaits k after stack ⟨last, t :: rest⟩) :
    Awaits k after (opened t.kind stack) ⟨t, rest⟩ := by
  rcases starts with kind | kind | kind
  · rw [kind]
    exact (awaits.passPlain (plain_of_identifier kind)).awaits
  · rw [kind]
    exact awaits.passOpen (by rw [kind]; rfl)
  · rw [kind]
    exact awaits.passOpen (by rw [kind]; rfl)

/-- A token that does not end the declarators is no landmark. -/
theorem returns_passed (goes : ¬VariableDeclaration.endsList t = true)
    (awaits : Awaits k after stack ⟨last, t :: rest⟩) : Returns k after ⟨t, rest⟩ := by
  have notMark : isMark t.kind = false := by
    simp only [VariableDeclaration.endsList, Token.isEof, Bool.or_eq_true, not_or] at goes
    simp [isMark, goes]
  obtain ⟨below, -, more⟩ := awaits.pass notMark
  exact ⟨below, more⟩

/-- Declarators may break off inside a bracket that they passed over. -/
theorem returns_readDeclarators (last : Token) (rest : List Token) (n : Nat) :
    Returns k after ⟨last, rest⟩ →
      Returns k after (VariableDeclaration.readDeclarators last rest n).outcome.2.1 := by
  rw [VariableDeclaration.outcome_readDeclarators]
  obtain _ | ⟨t, later⟩ := rest
  · exact id
  rintro ⟨stack, awaits⟩
  dsimp only
  split
  · rename_i starts
    have fits := (VariableDeclaration.readDeclarator t later n).fits
    have rests := rests_readDeclarator t later n (awaits_declarator starts awaits)
    split
    · rename_i ends
      exact ⟨stack, ends ▸ rests.awaits⟩
    · rename_i last comma next ends
      rw [ends] at fits rests
      have fits : next.length + 1 ≤ later.length := fits
      split
      · rename_i separates
        have passed := rests.awaits.passPlain (by rw [separates]; exact ⟨rfl, rfl⟩)
        exact returns_readDeclarators comma next _ ⟨stack, passed.awaits⟩
      · exact ⟨stack, rests.awaits⟩
  split
  · exact ⟨stack, awaits⟩
  · rename_i goes
    exact returns_readDeclarators t later n (returns_passed goes awaits)
termination_by rest.length

theorem returns_readVariables (keyword : Token) (rest : List Token) (n : Nat)
    (awaits : Awaits k after stack ⟨keyword, rest⟩) :
    Returns k after (VariableDeclaration.read keyword rest n).cursor :=
  (returns_readDeclarators keyword rest n ⟨stack, awaits⟩).skipIf fun _ => plain_of_isOperator

/-- Reading a module comes back to a landmark, and goes on from there as it would
have started there. -/
theorem readBody_returns (tokens : List Token) (n : Nat) (last : Token) :
    Returns k after ⟨last, tokens⟩ →
      ∃ before m, (Module.readBody false tokens n).1 =
        before ++ (Module.readBody false (k :: after) m).1 := by
  obtain _ | ⟨t, rest⟩ := tokens
  · rintro ⟨stack, awaits⟩
    exact absurd rfl awaits.nonempty
  rintro ⟨stack, awaits⟩
  cases awaits with
  | here => exact ⟨[], n, rfl⟩
  | step inside nests more =>
    have passed (m : Nat) := readBody_returns rest m t ⟨_, more⟩
    rw [Module.readBody]
    simp only [inside, Bool.false_eq_true, ↓reduceIte]
    split
    · exact passed n
    rename_i word
    have kind : t.kind = .keyword := by simpa using word
    have rests : Rests k after _ ⟨t, rest⟩ := ⟨more, by rw [kind]; rfl⟩
    split
    · have shorter := ImportDeclaration.length_read_le t rest
      obtain ⟨before, m, same⟩ := readBody_returns (ImportDeclaration.read t rest).2.rest n _
        (returns_readImport t rest rests)
      exact ⟨_ ++ before, m, by rw [same, List.append_assoc]⟩
    split
    · have shorter := (DefaultExport.read t rest n).fits
      obtain ⟨before, m, same⟩ := readBody_returns (DefaultExport.read t rest n).cursor.rest
        (DefaultExport.read t rest n).nextId _ ⟨_, awaits_readExport t rest n more⟩
      exact ⟨_ ++ before, m, by rw [same, List.append_assoc]⟩
    split
    · have shorter := (VariableDeclaration.read t rest n).fits
      obtain ⟨before, m, same⟩ := readBody_returns (VariableDeclaration.read t rest n).cursor.rest
        (VariableDeclaration.read t rest n).nextId _ (returns_readVariables t rest n more)
      exact ⟨_ :: before, m, by rw [same, List.cons_append]⟩
    · exact passed n
termination_by tokens.length

/-- Tokens that close what is open lead to a landmark. -/
theorem awaits_of_nestAll (mark : Landmark k after) (before : List Token)
    (inside : ∀ t ∈ before, t.isEof = false) (closed : nestAll stack before = some [])
    (last : Token) (free : k.kind = .keyword → isAccess (before.getLastD last) = false) :
    Awaits k after stack ⟨last, before ++ k :: after⟩ := by
  induction before generalizing stack last with
  | nil =>
    cases closed
    exact .here mark free
  | cons t before ih =>
    obtain ⟨below, nests, closed⟩ := Option.bind_eq_some_iff.mp closed
    rw [List.getLastD_cons] at free
    exact .step (inside t (by simp)) nests
      (ih (fun u member => inside u (List.mem_cons_of_mem t member)) closed t free)

private theorem keyword_of_spells (spelled : Spelling.SpellsStatement t used n s m) :
    t.kind = .keyword := by
  cases spelled with
  | importDeclaration word => exact word
  | defaultExport word => exact word
  | variableDeclaration word => exact word

/-- The statement stands somewhere before the other. -/
def StartsBefore (a b : Statement) : Prop :=
  a.span.start.offset < b.span.start.offset

/-- Statements start one after the other, since keywords have characters. -/
private theorem startsBefore_of_spells (placed : Tiling.Placed source run)
    (spelled : Spelling.SpellsAll Spelling.SpellsStatement run n body m) :
    body.Pairwise StartsBefore ∧ ∀ s ∈ body, ∃ t ∈ run, s.span.start = t.span.start := by
  induction spelled with
  | nil => exact ⟨.nil, by simp⟩
  | skip _ _ ih =>
    obtain ⟨ordered, starts⟩ := ih (placed.sublist (List.sublist_cons_self ..))
    refine ⟨ordered, fun s member => ?_⟩
    obtain ⟨t, among, same⟩ := starts s member
    exact ⟨t, List.mem_cons_of_mem _ among, same⟩
  | @cons t used n x k later xs m first _ ih =>
    obtain ⟨ordered, starts⟩ :=
      ih (placed.sublist (List.sublist_append_right (t :: used) later))
    have inside : t.isEof = false := by simp [Token.isEof, keyword_of_spells first]
    have filled := placed.filled t (List.mem_cons_self ..) inside
    refine ⟨List.pairwise_cons.mpr ⟨?_, ordered⟩, List.forall_mem_cons.mpr ⟨?_, ?_⟩⟩
    · intro s member
      obtain ⟨u, among, same⟩ := starts s member
      have apart := (List.pairwise_cons.mp placed.apart).1 u (List.mem_append_right _ among)
      rw [StartsBefore, Spelling.start_of_spells first, same]
      omega
    · exact ⟨t, List.mem_cons_self .., Spelling.start_of_spells first⟩
    · intro s member
      obtain ⟨u, among, same⟩ := starts s member
      exact ⟨u, List.mem_cons_of_mem _ (List.mem_append_right _ among), same⟩

/-- Among statements that start one after the other only one starts in its place. -/
private theorem filter_start_eq {before more : List Statement}
    (ordered : (before ++ s :: more).Pairwise StartsBefore) :
    (before ++ s :: more).filter (·.span.start = s.span.start) = [s] := by
  obtain ⟨-, later, earlier⟩ := List.pairwise_append.mp ordered
  have none (list : List Statement) (differs : ∀ x ∈ list, x.span.start ≠ s.span.start) :
      list.filter (·.span.start = s.span.start) = [] := by
    simpa using differs
  rw [List.filter_append, List.filter_cons_of_pos (by simp), none before, none more]
  · rfl
  · intro x member same
    have apart := (List.pairwise_cons.mp later).1 x member
    rw [StartsBefore, same] at apart
    omega
  · intro x member same
    have apart := earlier x member s (List.mem_cons_self ..)
    rw [StartsBefore, same] at apart
    omega

theorem landmark_of_keyword (word : k.kind = .keyword)
    (statement : Token.expressionKeywords.contains k.value = false)
    (static : Cursor.startsDynamicImport (k :: after) = false) (other : k.value ≠ "default") :
    Landmark k after where
  kind := by simp [isMark, word]
  boundary := by
    intro last
    simp only [Cursor.atBoundary, word, static, statement]
    simp
  notDefault := by simp [Token.isKeyword, other]

/-- The tokens of a source that stand outside all brackets before a landmark lead to
the statement that is read from the landmark on. -/
theorem body_returns (source : String)
    (stream : Module.significant (Token.ofSource source) = before ++ k :: after)
    (mark : Landmark k after) (outside : nestAll [] before = some [])
    (free : ∀ t, before.getLast? = some t → isAccess t = false) :
    ∃ earlier m, (Module.ofSource source false).body =
      earlier ++ (Module.readBody false (k :: after) m).1 := by
  have inside : ∀ t ∈ before, t.isEof = false := by
    obtain ⟨below, ends, notEnd⟩ := Tiling.ends_significant source
    have same : below = before ++ (k :: after).dropLast := by
      rw [← List.dropLast_append_of_ne_nil (by simp), ← stream, ends, List.dropLast_concat]
    exact fun t member => notEnd t (same ▸ List.mem_append_left _ member)
  have awaits := awaits_of_nestAll mark before inside outside (.endOfSource .origin) (by
    intro _
    rw [List.getLastD_eq_getLast?]
    cases last : before.getLast? with
    | none => rfl
    | some t => exact free t last)
  have returned := readBody_returns _ 0 _ ⟨_, awaits⟩
  rwa [← stream] at returned

/-- If reading from a landmark on starts with a statement there, no other statement
of the module starts there. -/
theorem filter_start_of_landmark {statement : α → Statement} (source : String)
    (stream : Module.significant (Token.ofSource source) = before ++ k :: after)
    (mark : Landmark k after) (outside : nestAll [] before = some [])
    (free : ∀ t, before.getLast? = some t → isAccess t = false)
    (read : ∀ m, ∃ d more, (Module.readBody false (k :: after) m).1 = statement d :: more ∧
      (statement d).span.start = k.span.start) :
    ∃ d, (Module.ofSource source false).body.filter (·.span.start = k.span.start) =
      [statement d] := by
  obtain ⟨earlier, m, same⟩ := body_returns source stream mark outside free
  obtain ⟨d, more, first, start⟩ := read m
  obtain ⟨used, _, whole, spelled⟩ :=
    Spelling.readBody_spells false (Module.significant (Token.ofSource source)) 0
  have among : used.Sublist (Module.significant (Token.ofSource source)) := by
    rw [whole]
    exact List.sublist_append_left ..
  have placed := (Tiling.placed_significant source).sublist among
  have ordered : (Module.ofSource source false).body.Pairwise StartsBefore :=
    (startsBefore_of_spells placed spelled).1
  rw [same, first] at ordered ⊢
  rw [← start]
  exact ⟨d, filter_start_eq ordered⟩

private theorem readBody_import (word : k.kind = .keyword) (spelling : k.value = "import")
    (plain : Cursor.nextIs (fun t => t.kind == .leftParen || t.isOperator ".") ⟨k, after⟩ = false)
    (m : Nat) : ∃ d more, (Module.readBody false (k :: after) m).1 =
      Statement.importDeclaration d :: more ∧
        (Statement.importDeclaration d).span.start = k.span.start := by
  rw [Module.readBody]
  simp only [Token.isEof, word, spelling, ImportDeclaration.read, plain]
  exact ⟨_, _, rfl, rfl⟩

private theorem readBody_export (word : k.kind = .keyword) (spelling : k.value = "export")
    (default : Cursor.nextIs (·.isKeyword "default") ⟨k, after⟩ = true) (m : Nat) :
    ∃ d more, (Module.readBody false (k :: after) m).1 = Statement.defaultExport d :: more ∧
      (Statement.defaultExport d).span.start = k.span.start := by
  obtain _ | ⟨t, later⟩ := after
  · cases default
  · have default : t.isKeyword "default" = true := default
    rw [Module.readBody]
    simp only [Token.isEof, word, spelling, DefaultExport.read, default]
    exact ⟨_, _, rfl, rfl⟩

private theorem readBody_variable (word : k.kind = .keyword) (spelling : k.value ∈ ["const", "let", "var"])
    (m : Nat) :
    ∃ d more, (Module.readBody false (k :: after) m).1 = Statement.variableDeclaration d :: more ∧
      (Statement.variableDeclaration d).span.start = k.span.start := by
  have all : ∀ word ∈ ["const", "let", "var"], word ≠ "import" ∧ word ≠ "export" ∧
      (VariableKind.ofKeyword? word).isSome = true := by decide
  obtain ⟨notImport, notExport, isVariable⟩ := all k.value spelling
  rw [Module.readBody]
  simp only [Token.isEof, word, notImport, notExport, isVariable]
  exact ⟨_, _, rfl, rfl⟩

/-- No statement is lost. A keyword outside all brackets, which no dot makes a name
of, starts a statement of its own, and it is the only one that starts there: a
variable declaration, a default export, or an import unless the keyword is called or
followed by a dot. What stands around it may be anything. -/
theorem statements_kept (source : String) (before : List Token) (k : Token) (after : List Token)
    (stream : Module.significant (Token.ofSource source) = before ++ k :: after)
    (outside : nestAll [] before = some []) (word : k.kind = .keyword)
    (free : ∀ t, before.getLast? = some t → isAccess t = false) :
    (k.value = "import" →
        Cursor.nextIs (fun t => t.kind == .leftParen || t.isOperator ".") ⟨k, after⟩ = false →
      ∃ d, (Module.ofSource source false).body.filter (·.span.start = k.span.start) =
        [.importDeclaration d]) ∧
    (k.value ∈ ["const", "let", "var"] →
      ∃ d, (Module.ofSource source false).body.filter (·.span.start = k.span.start) =
        [.variableDeclaration d]) ∧
    (k.value = "export" → Cursor.nextIs (·.isKeyword "default") ⟨k, after⟩ = true →
      ∃ d, (Module.ofSource source false).body.filter (·.span.start = k.span.start) =
        [.defaultExport d]) := by
  have mark (listed : k.value ∈ ["import", "const", "let", "var", "export"])
      (static : Cursor.startsDynamicImport (k :: after) = false) : Landmark k after := by
    have all : ∀ word ∈ ["import", "const", "let", "var", "export"],
        Token.expressionKeywords.contains word = false ∧ word ≠ "default" := by decide
    exact landmark_of_keyword word (all k.value listed).1 static (all k.value listed).2
  have notDynamic (differs : k.value ≠ "import") :
      Cursor.startsDynamicImport (k :: after) = false := by
    cases after with
    | nil => rfl
    | cons t later => simp [Cursor.startsDynamicImport, Token.isKeyword, differs]
  refine ⟨?_, ?_, ?_⟩
  · intro spelling plain
    have static : Cursor.startsDynamicImport (k :: after) = false := by
      cases after with
      | nil => rfl
      | cons t later =>
        have plain : (t.kind == .leftParen || t.isOperator ".") = false := plain
        simp only [Cursor.startsDynamicImport, plain, Bool.and_false]
    exact filter_start_of_landmark source stream (mark (by simp [spelling]) static) outside free
      (readBody_import word spelling plain)
  · intro spelling
    have all : ∀ word ∈ ["const", "let", "var"], word ≠ "import" ∧
        word ∈ ["import", "const", "let", "var", "export"] := by decide
    obtain ⟨notImport, listed⟩ := all k.value spelling
    exact filter_start_of_landmark source stream (mark listed (notDynamic notImport)) outside free
      (readBody_variable word spelling)
  · intro spelling default
    have static := notDynamic (by simp [spelling])
    exact filter_start_of_landmark source stream (mark (by simp [spelling]) static) outside free
      (readBody_export word spelling default)

/-- An import behind a call of which a member is accessed. -/
theorem statements_kept_behind_call :
    ∃ d, (Module.ofSource "f().g\nimport a" false).body.filter (·.span.start = ⟨2, 0, 6⟩) =
      [.importDeclaration d] := by
  let before : List Token := [⟨.identifier, "f", ⟨⟨1, 0, 0⟩, ⟨1, 1, 1⟩⟩⟩,
    ⟨.leftParen, "(", ⟨⟨1, 1, 1⟩, ⟨1, 2, 2⟩⟩⟩, ⟨.rightParen, ")", ⟨⟨1, 2, 2⟩, ⟨1, 3, 3⟩⟩⟩,
    ⟨.operator, ".", ⟨⟨1, 3, 3⟩, ⟨1, 4, 4⟩⟩⟩, ⟨.identifier, "g", ⟨⟨1, 4, 4⟩, ⟨1, 5, 5⟩⟩⟩]
  let k : Token := ⟨.keyword, "import", ⟨⟨2, 0, 6⟩, ⟨2, 6, 12⟩⟩⟩
  let after : List Token := [⟨.identifier, "a", ⟨⟨2, 7, 13⟩, ⟨2, 8, 14⟩⟩⟩, .endOfSource ⟨2, 8, 14⟩]
  have stream : Module.significant (Token.ofSource "f().g\nimport a") = before ++ k :: after := by
    decide +kernel
  have free : ∀ t, before.getLast? = some t → isAccess t = false := by
    intro t last
    cases last
    rfl
  exact (statements_kept "f().g\nimport a" before k after stream rfl rfl free).1 rfl rfl

end ImportAtlas.Recovery
