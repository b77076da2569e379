import ImportAtlas.Proofs.Lookahead

/-! Expressions are read back. A run of tokens that shows an expression of the grammar
is read as the tree of that expression, wherever its line breaks are and whatever ends
it: nothing is dropped, and the object literals are numbered from the number given.
There is one lemma for each way to build an expression, and the induction over the
grammar only puts them together. -/
namespace ImportAtlas.ReadBack
open Writing Grammar Lookahead ImportAtlas.Expr

/-- The first token of an expression is no boundary, whatever line it stands on. -/
structure Begins (first : Token) (rest : List Token) : Prop where
  goes : Cursor.isTerminator first = false
  word : first.kind = .keyword → Cursor.startsDynamicImport (first :: rest) = true

private theorem atBoundary_of_ends (last : Token) (ends : Ends more) :
    Cursor.atBoundary ⟨last, more⟩ = true := by
  obtain ⟨t, later, rfl, terminator⟩ := ends
  simp [Cursor.atBoundary, terminator]

theorem begins_of_starts (starts : first.kind ∈ startKinds) (rest : List Token) :
    Begins first rest := by
  refine ⟨isTerminator_of_starts starts, fun word => ?_⟩
  rw [word] at starts
  simp [startKinds] at starts

/-- A line break does not end an expression that has not started. -/
private theorem goes_of_begins (begins : Begins first rest)
    (before : last.endsExpression = false ∨ last.kind = .ambiguousGt) :
    ¬Cursor.atBoundary ⟨last, first :: rest⟩ = true := by
  have noLine : (last.endsExpression && last.kind != .ambiguousGt) = false := by
    rcases before with ends | kind
    · simp [ends]
    · simp [kind]
  have noWord : (first.kind == .keyword && !Cursor.startsDynamicImport (first :: rest)) = false := by
    by_cases word : first.kind = .keyword
    · simp [begins.word word]
    · simp [word]
  simp only [Cursor.atBoundary, begins.goes]
  grind

/-- What is read is the tree once its places are dropped, and the tokens after it are
left. -/
structure Reads (unplaced : α → β) (result : α × Cursor × Nat) (tree : β) (more : List Token)
    (m : Nat) : Prop where
  value : unplaced result.1 = tree
  rest : result.2.1.rest = more
  next : result.2.2 = m

/-- The expression read is kept, and it is the tree. -/
def ReadsExpr (result : Option Expr × Cursor × Nat) (tree : Expr) : List Token → Nat → Prop :=
  Reads (Option.map Expr.unplaced) result (some tree)

/-- An expression that is over where another one has to end is kept. -/
theorem reads_of_primary (ends : Ends more)
    (primary : ReadsExpr (readPrimary first rest n).outcome tree more m) :
    ReadsExpr (read first rest n).outcome tree more m := by
  rw [outcome_read]
  have boundary := atBoundary_of_ends (readPrimary first rest n).cursor.last ends
  have left : (readPrimary first rest n).cursor.rest = more := primary.rest
  rw [← left] at boundary
  dsimp only
  rw [if_pos boundary]
  exact primary

/-- Every run that shows the pieces is read as the tree, if something ends it. -/
def ReadsBack (pieces : List Piece) (tree : Nat → Expr) (count : Nat) : Prop :=
  ∀ run, Shows run pieces → ∃ first rest, run = first :: rest ∧ ∀ more, Ends more →
    Begins first (rest ++ more) ∧
      ∀ n, ReadsExpr (read first (rest ++ more) n).outcome (tree n) more (n + count)

/-- Every run that shows the pieces is read as a list of the trees, up to the bracket
that closes the list. -/
def ListsBack (pieces : List Piece) (trees : Nat → List Expr) (count : Nat) : Prop :=
  ∀ run, Shows run pieces → ∀ close : Token, close.kind.isClose = true → ∀ last more n,
    Reads Expr.unplacedAll (readItems close.kind last (run ++ close :: more) n).outcome (trees n)
      more (n + count)

/-- Every run that shows the pieces is read as the property, if a comma or a brace
follows. -/
def MemberBack (pieces : List Piece) (tree : Nat → Property) (count : Nat) : Prop :=
  ∀ run, Shows run pieces → ∃ key rest, run = key :: rest ∧
    (key.kind = .identifier ∨ key.kind = .keyword ∨ key.kind = .string) ∧
    ∀ t later n, (t.kind = .comma ∨ t.kind = .rightBrace) →
      Reads (Option.map Property.unplaced) (readProperty key (rest ++ t :: later) n).outcome
        (some (tree n)) (t :: later) (n + count)

/-- Every run that shows the pieces is read as the properties, up to the brace that
closes the object literal. -/
def MembersBack (pieces : List Piece) (trees : Nat → List Property) (count : Nat) : Prop :=
  ∀ run, Shows run pieces → ∀ close : Token, close.kind = .rightBrace → ∀ last more n,
    Reads Property.unplacedAll (readMembers last (run ++ close :: more) n).outcome (trees n)
      more (n + count)

theorem ends_of_comma (kind : t.kind = .comma) (later : List Token) : Ends (t :: later) :=
  ⟨t, later, rfl, by simp [Cursor.isTerminator, kind]⟩

theorem ends_of_close (kind : t.kind.isClose = true) (later : List Token) : Ends (t :: later) :=
  ⟨t, later, rfl, by simp [Cursor.isTerminator, kind]⟩

section Items

private theorem items_nil : ListsBack [] (fun _ => []) 0 := by
  rintro run ⟨⟩ close closes last more n
  have inside : close.isEof = false := by
    cases kind : close.kind with
    | eof => simp [kind, Token.Kind.isClose] at closes
    | _ => simp [Token.isEof, kind]
  rw [outcome_readItems]
  simp only [List.nil_append, inside, Bool.false_eq_true, ↓reduceIte]
  exact ⟨rfl, rfl, rfl⟩

private theorem items_comma (items : ListsBack pieces trees count) :
    ListsBack (.mark .comma :: pieces) trees count := by
  intro run shows close closes last more n
  obtain ⟨comma, later, rfl, separates, shows⟩ := shows.mark
  have kind : comma.kind = .comma := separates.kind
  have other : ¬Token.Kind.comma = close.kind := by
    intro same
    rw [← same] at closes
    cases closes
  have read := items later shows close closes comma more n
  rw [List.cons_append, outcome_readItems]
  simpa [Token.isEof, kind, other] using read

/-- What follows an expression of a list is a comma or the end of the list. -/
def Continues (pieces : List Piece) : Prop :=
  pieces = [] ∨ ∃ more, pieces = .mark .comma :: more

private theorem next_of_continues (continues : Continues pieces) (shows : Shows run pieces)
    (close : Token) (more : List Token) :
    ∃ t later, run ++ close :: more = t :: later ∧ (t.kind = .comma ∨ t = close) := by
  rcases continues with rfl | ⟨pieces, rfl⟩
  · cases shows
    exact ⟨close, more, rfl, .inr rfl⟩
  · obtain ⟨comma, later, rfl, separates, -⟩ := shows.mark
    exact ⟨comma, _, rfl, .inl separates.kind⟩

private theorem ends_of_continues (continues : Continues pieces) (shows : Shows run pieces)
    (closes : close.kind.isClose = true) (more : List Token) : Ends (run ++ close :: more) := by
  obtain ⟨t, later, same, comma | rfl⟩ := next_of_continues continues shows close more
  · rw [same]
    exact ends_of_comma comma later
  · rw [same]
    exact ends_of_close closes later

private theorem items_cons (first : ReadsBack before tree k) (continues : Continues after)
    (rest : ListsBack after trees m) :
    ListsBack (before ++ after) (fun n => tree n :: trees (n + k)) (k + m) := by
  intro run shows close closes last more n
  obtain ⟨run, others, rfl, showsFirst, showsRest⟩ := shows.split
  obtain ⟨t, later, rfl, reads⟩ := first run showsFirst
  obtain ⟨begins, reads⟩ := reads (others ++ close :: more)
    (ends_of_continues continues showsRest closes more)
  have item := reads n
  have goes := begins.goes
  simp only [Cursor.isTerminator, Bool.or_eq_false_iff, beq_eq_false_iff_ne] at goes
  obtain ⟨⟨⟨inside, notComma⟩, notClose⟩, -⟩ := goes
  have other : ¬t.kind = close.kind := by
    intro same
    rw [same, closes] at notClose
    cases notClose
  rw [outcome_readItems]
  simp only [List.cons_append, List.append_assoc, inside, other, notComma, Bool.false_eq_true,
    ↓reduceIte]
  generalize read t (later ++ (others ++ close :: more)) n = reading at item
  obtain ⟨value, ⟨last, _⟩, next, fits⟩ := reading
  obtain ⟨value, rfl, rfl⟩ := item
  obtain ⟨values, left, next⟩ := rest others showsRest close closes last more (n + k)
  dsimp only [Reading.outcome] at value values left next ⊢
  obtain ⟨e, rfl, same⟩ := Option.map_eq_some_iff.mp value
  refine ⟨?_, left, next.trans (Nat.add_assoc n k m)⟩
  rw [Option.toList_some, List.singleton_append, Expr.unplacedAll, same, values]

end Items

section Members

private theorem members_nil : MembersBack [] (fun _ => []) 0 := by
  rintro run ⟨⟩ close closes last more n
  rw [outcome_readMembers]
  simp only [List.nil_append, closes]
  exact ⟨rfl, rfl, rfl⟩

private theorem members_comma (members : MembersBack pieces trees count) :
    MembersBack (.mark .comma :: pieces) trees count := by
  intro run shows close closes last more n
  obtain ⟨comma, later, rfl, separates, shows⟩ := shows.mark
  have kind : comma.kind = .comma := separates.kind
  rw [List.cons_append, outcome_readMembers]
  simp only [kind]
  exact members later shows close closes comma more n

private theorem members_cons (first : MemberBack before tree k) (continues : Continues after)
    (rest : MembersBack after trees m) :
    MembersBack (before ++ after) (fun n => tree n :: trees (n + k)) (k + m) := by
  intro run shows close closes last more n
  obtain ⟨run, others, rfl, showsFirst, showsRest⟩ := shows.split
  obtain ⟨key, later, rfl, isKey, reads⟩ := first run showsFirst
  obtain ⟨t, after, next, follows⟩ := next_of_continues continues showsRest close more
  have follows : t.kind = .comma ∨ t.kind = .rightBrace := by
    rcases follows with comma | rfl
    · exact .inl comma
    · exact .inr closes
  have property := reads t after n follows
  rw [← next] at property
  have step : (readMembers last (key :: (later ++ (others ++ close :: more))) n).outcome =
      let property := readProperty key (later ++ (others ++ close :: more)) n
      let more := readMembers property.cursor.last property.cursor.rest property.nextId
      (property.value.toList ++ more.value, more.cursor, more.nextId) := by
    rw [outcome_readMembers]
    rcases isKey with kind | kind | kind
    · simp only [kind]
    · simp only [kind]
    · simp only [kind]
  rw [List.append_assoc, List.cons_append, step]
  generalize readProperty key (later ++ (others ++ close :: more)) n = reading at property
  obtain ⟨value, ⟨last, _⟩, next, fits⟩ := reading
  obtain ⟨value, rfl, rfl⟩ := property
  obtain ⟨values, left, next⟩ := rest others showsRest close closes last more (n + k)
  dsimp only [Reading.outcome] at value values left next ⊢
  obtain ⟨p, rfl, same⟩ := Option.map_eq_some_iff.mp value
  refine ⟨?_, left, next.trans (Nat.add_assoc n k m)⟩
  rw [Option.toList_some, List.singleton_append, Property.unplacedAll, same, values]

/-- The token of a key. -/
private theorem key_of_shows {key : Key} (shows : Shows run (key.piece :: pieces)) :
    ∃ t later, run = t :: later ∧ Shows later pieces ∧ t.propertyKey.unplaced = key.tree ∧
      (t.kind = .identifier ∨ t.kind = .keyword ∨ t.kind = .string) := by
  obtain ⟨t, later, rfl, kind, value, shows⟩ := shows.uncons
  refine ⟨t, later, rfl, shows, ?_⟩
  cases key with
  | word word =>
    have value : t.value = word.text := value
    rcases kind_word word with isName | isKeyword
    · have kind : t.kind = .identifier := kind.trans isName
      simp [Token.propertyKey, kind, PropertyKey.unplaced, Identifier.unplaced, Token.identifier,
        value, Key.tree]
    · have kind : t.kind = .keyword := kind.trans isKeyword
      simp [Token.propertyKey, kind, PropertyKey.unplaced, Identifier.unplaced, Token.identifier,
        value, Key.tree]
  | literal literal =>
    have value : t.value = literal.text := value
    have kind : t.kind = .string := kind
    simp [Token.propertyKey, kind, PropertyKey.unplaced, Token.stringLiteral, value, Key.tree]

/-- The words `get`, `set` and `async` only modify a key that follows them. -/
private theorem isModifier_cons (key : Token) (kind : t.kind = .operator ∨ t.kind = .leftParen ∨
    t.kind = .comma ∨ t.kind = .rightBrace) (later : List Token) :
    isModifier key (t :: later) = false := by
  rcases kind with kind | kind | kind | kind
  · simp [isModifier, Cursor.nextIs, kind]
  · simp [isModifier, Cursor.nextIs, kind]
  · simp [isModifier, Cursor.nextIs, kind]
  · simp [isModifier, Cursor.nextIs, kind]

theorem not_endsExpression_of_marks (marks : Marks t m) (operator : m.kind = .operator) :
    t.endsExpression = false := by
  have plain : Token.postfixOperators.contains (String.ofList [m.char]) = false := by
    cases m with
    | _ => decide
  simp only [Token.endsExpression, marks.kind, operator, marks.value, plain]

/-- A value is read behind the token that announces it, such as the colon of a property. -/
theorem reads_value (reads : ReadsBack pieces tree count) (shows : Shows run pieces)
    (quiet : mark.endsExpression = false) (ends : Ends more) (n : Nat) :
    ReadsExpr (readValue mark (run ++ more) n).outcome (tree n) more (n + count) := by
  obtain ⟨first, rest, rfl, reads⟩ := reads run shows
  obtain ⟨begins, reads⟩ := reads more ends
  rw [List.cons_append, outcome_readValue]
  dsimp only
  rw [if_neg (goes_of_begins begins (.inl quiet))]
  exact reads n

private theorem member_pair (key : Key) (value : ReadsBack pieces tree count) :
    MemberBack (key.piece :: .mark .colon :: pieces)
      (fun n => ⟨default, key.tree, some (tree n), false, false, false⟩) count := by
  intro run shows
  obtain ⟨t, later, rfl, shows, isKey, kind⟩ := key_of_shows shows
  obtain ⟨colon, later, rfl, separates, shows⟩ := shows.mark
  refine ⟨t, colon :: later, rfl, kind, fun next more n follows => ?_⟩
  have ends : Ends (next :: more) := by
    rcases follows with comma | close
    · exact ends_of_comma comma more
    · exact ends_of_close (by simp [close, Token.Kind.isClose]) more
  have quiet : colon.endsExpression = false := not_endsExpression_of_marks separates rfl
  have isColon : colon.isOperator ":" = true := isOperator_of_marks separates rfl (by decide)
  obtain ⟨read, rest, next⟩ := reads_value value shows quiet ends n
  rw [List.cons_append, outcome_readProperty, isModifier_cons t (.inl separates.kind)]
  simp only [isColon, Bool.false_eq_true, ↓reduceIte]
  refine ⟨?_, rest, next⟩
  obtain ⟨e, found, same⟩ := Option.map_eq_some_iff.mp read
  have found : (readValue colon (later ++ _) n).value = some e := found
  simp [found, Property.unplaced, isKey, Expr.unplacedOption, same]

private theorem member_shorthand (name : Name) :
    MemberBack [.word name.toWord]
      (fun _ => ⟨default, .identifier ⟨default, name.text⟩,
        some (.identifier ⟨default, name.text⟩), true, false, false⟩) 0 := by
  intro run shows
  obtain ⟨t, later, rfl, names, shows⟩ := shows.name
  cases shows
  refine ⟨t, [], rfl, .inl names.kind, fun next more n follows => ?_⟩
  have kind : next.kind = .operator ∨ next.kind = .leftParen ∨ next.kind = .comma ∨
    next.kind = .rightBrace := .inr (.inr follows)
  have same : t.identifier.unplaced = ⟨default, name.text⟩ := unplaced_of_names names
  have key : t.propertyKey = .identifier t.identifier := by simp [Token.propertyKey, names.kind]
  rw [List.nil_append, outcome_readProperty, isModifier_cons t kind]
  rcases follows with comma | brace
  · simp only [Token.isOperator, comma, key, shorthandValue]
    refine ⟨?_, rfl, rfl⟩
    simp [Property.unplaced, PropertyKey.unplaced, Expr.unplacedOption, Expr.unplaced, same]
  · simp only [Token.isOperator, brace, key, shorthandValue]
    refine ⟨?_, rfl, rfl⟩
    simp [Property.unplaced, PropertyKey.unplaced, Expr.unplacedOption, Expr.unplaced, same]

/-- A method is passed over through its closing brace. -/
private theorem skipMethod_empty (key : Token) (opensParams : Marks a .leftParen)
    (closesParams : Marks b .rightParen) (opensBody : Marks c .leftBrace)
    (closesBody : Marks d .rightBrace) (more : List Token) :
    Cursor.skipMethod ⟨key, a :: b :: c :: d :: more⟩ = ⟨d, more⟩ := by
  have opensParams : a.kind = .leftParen := opensParams.kind
  have closesParams : b.kind = .rightParen := closesParams.kind
  have opensBody : c.kind = .leftBrace := opensBody.kind
  have closesBody : d.kind = .rightBrace := closesBody.kind
  simp [Cursor.skipMethod, Cursor.skipBracket, Cursor.skipBalanced, Cursor.toClosing,
    Token.Kind.closing?, Token.isEof, opensParams, closesParams, opensBody, closesBody]

private theorem member_method (key : Key) :
    MemberBack (Member.method key).pieces (Member.method key).tree 0 := by
  intro run shows
  obtain ⟨t, later, rfl, shows, isKey, kind⟩ := key_of_shows shows
  obtain ⟨a, later, rfl, opensParams, shows⟩ := shows.mark
  obtain ⟨b, later, rfl, closesParams, shows⟩ := shows.mark
  obtain ⟨c, later, rfl, opensBody, shows⟩ := shows.mark
  obtain ⟨d, later, rfl, closesBody, shows⟩ := shows.mark
  cases shows
  refine ⟨t, [a, b, c, d], rfl, kind, fun next more n _ => ?_⟩
  have isParen : a.kind = .leftParen := opensParams.kind
  rw [List.cons_append, outcome_readProperty, isModifier_cons t (.inr (.inl isParen))]
  simp only [Token.isOperator, isParen, List.cons_append, List.nil_append,
    skipMethod_empty t opensParams closesParams opensBody closesBody]
  refine ⟨?_, rfl, rfl⟩
  simp [Property.unplaced, isKey, Expr.unplacedOption, Member.tree]

end Members

section Chains

/-- The first token of a chain is a name or the keyword of a dynamic import. -/
private theorem begins_chain (chain : Chain) (shows : Shows (first :: rest) chain.pieces)
    (more : List Token) : Begins first (rest ++ more) := by
  cases named : isNamed chain with
  | true =>
    have quiet : Quiet first [] := ⟨rfl, rfl, rfl⟩
    have kind := (chain_named chain named shows quiet).1
    exact begins_of_starts (by simp [kind, startKinds]) _
  | false =>
    obtain ⟨kind, value, paren, later, rfl, opens⟩ := chain_import chain named shows
    constructor
    · simp [Cursor.isTerminator, Token.isEof, Token.isOperator, kind, Token.Kind.isClose]
    · simp [Cursor.startsDynamicImport, Token.isKeyword, kind, value, opens]

/-- Reading a chain extends what it is built on by all of its accesses and calls. -/
def ChainsBack (chain : Chain) : Prop :=
  ∀ {first rest}, Shows (first :: rest) chain.pieces → ∀ more n, ∃ expr last,
    expr.unplaced = chain.tree n ∧
      (readChain first (base chain first) first (rest ++ more) n).outcome =
        (readChain first expr last more (n + chain.count)).outcome

private theorem chain_name (name : Name) : ChainsBack (.name name) := by
  intro first rest shows more n
  obtain ⟨t, later, same, names, nothing⟩ := shows.name
  obtain ⟨rfl, rfl⟩ := List.cons.inj same
  cases nothing
  refine ⟨.identifier first.identifier, first, ?_, rfl⟩
  rw [Expr.unplaced, unplaced_of_names names, Chain.tree]

private theorem chain_member {target : Chain} (back : ChainsBack target) (name : Writing.Word) :
    ChainsBack (.member target name) := by
  intro first rest shows more n
  obtain ⟨before, after, rfl, showsTarget, shows⟩ := split_chain shows
  obtain ⟨dot, later, rfl, marks, shows⟩ := shows.mark
  obtain ⟨t, later, rfl, words, shows⟩ := shows.word
  cases shows
  obtain ⟨expr, last, same, read⟩ := back showsTarget (dot :: t :: more) n
  have isDot : dot.isOperator "." = true := isOperator_of_marks marks rfl (by decide)
  have found : member? (dot :: t :: more) = some ⟨t, more⟩ := by
    rcases words.kind with kind | kind
    · simp [member?, isDot, kind]
    · simp [member?, isDot, kind]
  refine ⟨.member (first.through t) expr t.identifier false, t, ?_, ?_⟩
  · simp [Expr.unplaced, same, Identifier.unplaced, Token.identifier, words.value, Chain.tree]
  · rw [List.append_assoc]
    refine read.trans ?_
    rw [outcome_readChain]
    simp only [found, Chain.count]

/-- The arguments of a call are read through the closing parenthesis. -/
private theorem chain_arguments (arguments : ListsBack pieces trees count)
    (shows : Shows run (.mark .leftParen :: (pieces ++ [Piece.mark .rightParen])))
    (first last : Token) (expr : Expr) (more : List Token) (n : Nat) :
    ∃ span items stop, Expr.unplacedAll items = trees n ∧
      (readChain first expr last (run ++ more) n).outcome =
        (readChain first (.call span expr items) stop more (n + count)).outcome := by
  obtain ⟨paren, later, rfl, opens, shows⟩ := shows.mark
  obtain ⟨between, close, rfl, closes, shows⟩ := shows.splitMark
  have opens : paren.kind = .leftParen := opens.kind
  have closes : close.kind = .rightParen := closes.kind
  have noMember : member? (paren :: (between ++ close :: more)) = none := by
    unfold member?
    split
    · rename_i same
      obtain ⟨rfl, -⟩ := List.cons.inj same
      simp [Token.isOperator, opens]
    · rfl
  have items := arguments between shows close (by rw [closes]; rfl) paren more n
  rw [closes] at items
  rw [List.cons_append, List.append_assoc, List.singleton_append, outcome_readChain]
  simp only [noMember, opens, ↓reduceIte]
  generalize readItems .rightParen paren (between ++ close :: more) n = reading at items
  obtain ⟨value, ⟨stop, rest⟩, next, fits⟩ := reading
  obtain ⟨same, left, counted⟩ := items
  dsimp only [Reading.outcome] at same left counted ⊢
  rw [left, counted]
  exact ⟨_, value, stop, same, rfl⟩

private theorem chain_call {callee : Chain} (back : ChainsBack callee)
    (backArguments : ListsBack (Phrase.listPieces arguments) (Phrase.trees arguments)
      (Phrase.countAll arguments)) : ChainsBack (.call callee arguments) := by
  intro first rest shows more n
  obtain ⟨before, after, rfl, showsCallee, shows⟩ := split_chain shows
  obtain ⟨expr, last, same, read⟩ := back showsCallee (after ++ more) n
  obtain ⟨span, items, close, sameItems, readMore⟩ :=
    chain_arguments backArguments shows first last expr more (n + callee.count)
  refine ⟨.call span expr items, close, ?_, ?_⟩
  · rw [Expr.unplaced, same, sameItems, Chain.tree]
  · rw [List.append_assoc, Chain.count, ← Nat.add_assoc]
    exact read.trans readMore

private theorem chain_dynamicImport (back : ListsBack (Phrase.listPieces arguments)
    (Phrase.trees arguments) (Phrase.countAll arguments)) :
    ChainsBack (.dynamicImport arguments) := by
  intro first rest shows more n
  obtain ⟨t, later, same, -, -, shows⟩ := shows.uncons
  obtain ⟨rfl, rfl⟩ := List.cons.inj same
  obtain ⟨span, items, close, sameItems, read⟩ :=
    chain_arguments back shows first first (.dynamicImport first.span) more n
  refine ⟨.call span (.dynamicImport first.span) items, close, ?_, ?_⟩
  · rw [Expr.unplaced, Expr.unplaced, sameItems, Chain.tree]
  · rw [Chain.count]
    exact read

/-- Nothing is added to a chain behind its end. -/
private theorem chain_stops (ends : Ends more) (first : Token) (expr : Expr) (last : Token) (n : Nat) :
    (readChain first expr last more n).outcome = (expr, ⟨last, more⟩, n) := by
  obtain ⟨t, later, rfl, terminator⟩ := ends
  have noCall : ¬t.kind = .leftParen := by
    intro kind
    exact not_starts_of_isTerminator terminator (by simp [kind, startKinds])
  have noMember : member? (t :: later) = none := by
    unfold member?
    split
    · rename_i same
      obtain ⟨rfl, -⟩ := List.cons.inj same
      simp [isOperator_of_isTerminator terminator]
    · rfl
  rw [outcome_readChain]
  simp only [noMember, noCall, ↓reduceIte]

/-- A chain is read as such, since nothing behind it makes an arrow function of it. -/
private theorem primary_chain (chain : Chain) (shows : Shows (first :: rest) chain.pieces)
    (ends : Ends more) (n : Nat) :
    (readPrimary first (rest ++ more) n).outcome =
      let result := readChain first (base chain first) first (rest ++ more) n
      (some result.value, result.cursor, result.nextId) := by
  cases named : isNamed chain with
  | true =>
    obtain ⟨kind, quiet⟩ := chain_named chain named shows (quiet_of_ends first ends)
    rw [outcome_readPrimary]
    simp only [kind]
    rw [outcome_readName]
    simp only [quiet.param, quiet.parens, quiet.arrow, base, named, ↓reduceIte]
  | false =>
    obtain ⟨kind, value, paren, later, rfl, opens⟩ := chain_import chain named shows
    have calls : Cursor.nextIs (·.kind == .leftParen) ⟨first, paren :: later ++ more⟩ = true := by
      simp [Cursor.nextIs, opens]
    have other : ¬"import" = "function" := by decide
    rw [outcome_readPrimary]
    simp only [kind, value, other, calls, base, named, and_self, Bool.false_eq_true, ↓reduceIte]

/-- A whole chain is read where something ends it. -/
theorem reads_chain {chain : Chain} (back : ChainsBack chain) :
    ReadsBack chain.pieces chain.tree chain.count := by
  intro run shows
  obtain ⟨first, rest, rfl⟩ : ∃ first rest, run = first :: rest := by
    cases run with
    | nil => exact absurd shows.eq_nil (chain_pieces_ne_nil chain)
    | cons first rest => exact ⟨first, rest, rfl⟩
  refine ⟨first, rest, rfl, fun more ends => ⟨begins_chain chain shows more, fun n => ?_⟩⟩
  apply reads_of_primary ends
  -- Nothing is left of the chain where the tokens behind it start.
  obtain ⟨expr, last, same, read⟩ := back shows more n
  rw [chain_stops ends] at read
  rw [primary_chain chain shows ends]
  generalize readChain first (base chain first) first (rest ++ more) n = result at read
  obtain ⟨value, cursor, next, fits⟩ := result
  cases read
  exact ⟨congrArg some same, rfl, rfl⟩

end Chains

section Expressions

private theorem reads_literal (literal : Literal) :
    ReadsBack [.literal literal] (fun _ => .string ⟨default, literal.text⟩) 0 := by
  intro run shows
  obtain ⟨t, later, rfl, kind, value, shows⟩ := shows.uncons
  cases shows
  have kind : t.kind = .string := kind
  have value : t.value = literal.text := value
  refine ⟨t, [], rfl, fun more ends => ⟨begins_of_starts ?_ _, fun n => reads_of_primary ends ?_⟩⟩
  · simp [kind, startKinds]
  · rw [outcome_readPrimary]
    simp only [kind]
    refine ⟨?_, rfl, rfl⟩
    simp [Expr.unplaced, Token.stringLiteral, value]

private theorem reads_numeral (numeral : Numeral) :
    ReadsBack [.numeral numeral] (fun _ => .number ⟨default, numeral.text⟩) 0 := by
  intro run shows
  obtain ⟨t, later, rfl, kind, value, shows⟩ := shows.uncons
  cases shows
  have kind : t.kind = .number := kind
  have value : t.value = numeral.text := value
  refine ⟨t, [], rfl, fun more ends => ⟨begins_of_starts ?_ _, fun n => reads_of_primary ends ?_⟩⟩
  · simp [kind, startKinds]
  · rw [outcome_readPrimary]
    simp only [kind]
    refine ⟨?_, rfl, rfl⟩
    simp [Expr.unplaced, value]

private theorem reads_array (elements : ListsBack pieces trees count) :
    ReadsBack (.mark .leftBracket :: (pieces ++ [Piece.mark .rightBracket]))
      (fun n => .array default (trees n)) count := by
  intro run shows
  obtain ⟨bracket, later, rfl, opens, shows⟩ := shows.mark
  obtain ⟨between, close, rfl, closes, shows⟩ := shows.splitMark
  have kind : bracket.kind = .leftBracket := opens.kind
  have closes : close.kind = .rightBracket := closes.kind
  refine ⟨bracket, between ++ [close], rfl,
    fun more ends => ⟨begins_of_starts ?_ _, fun n => reads_of_primary ends ?_⟩⟩
  · simp [kind, startKinds]
  · have items := elements between shows close (by rw [closes]; rfl) bracket more n
    rw [closes] at items
    rw [outcome_readPrimary, List.append_assoc, List.singleton_append]
    simp only [kind]
    obtain ⟨same, rest, next⟩ := items
    dsimp only [Reading.outcome] at same rest next
    refine ⟨?_, rest, next⟩
    simp [Expr.unplaced, same]

private theorem reads_object (members : MembersBack pieces trees count) :
    ReadsBack (.mark .leftBrace :: (pieces ++ [Piece.mark .rightBrace]))
      (fun n => .object ⟨default, n, trees (n + 1)⟩) (1 + count) := by
  intro run shows
  obtain ⟨brace, later, rfl, opens, shows⟩ := shows.mark
  obtain ⟨between, close, rfl, closes, shows⟩ := shows.splitMark
  have kind : brace.kind = .leftBrace := opens.kind
  refine ⟨brace, between ++ [close], rfl,
    fun more ends => ⟨begins_of_starts ?_ _, fun n => reads_of_primary ends ?_⟩⟩
  · simp [kind, startKinds]
  · have items := members between shows close closes.kind brace more (n + 1)
    rw [outcome_readPrimary, List.append_assoc, List.singleton_append]
    simp only [kind]
    obtain ⟨same, rest, next⟩ := items
    dsimp only [Reading.outcome] at same rest next
    refine ⟨?_, rest, next.trans (Nat.add_assoc n 1 count)⟩
    simp [Expr.unplaced, ObjectLiteral.unplaced, same]

/-- An expression other than an object literal does not start with a brace. -/
private theorem simple_first (expr : Simple) (shows : Shows (first :: rest) expr.pieces) :
    first.kind ≠ .leftBrace := by
  intro kind
  cases expr with
  | chain chain =>
    cases named : isNamed chain with
    | true =>
      have quiet : Quiet first [] := ⟨rfl, rfl, rfl⟩
      have name := (chain_named chain named shows quiet).1
      rw [kind] at name
      cases name
    | false =>
      obtain ⟨word, -⟩ := chain_import chain named shows
      rw [kind] at word
      cases word
  | literal | numeral | array =>
    obtain ⟨t, later, same, other, -⟩ := shows.uncons
    cases same
    rw [kind] at other
    cases other
  | arrow isAsync params body =>
    obtain ⟨t, later, body, same, -, other, -⟩ := leads_arrow isAsync params shows
    cases same
    rw [kind] at other
    rcases other with other | other
    · cases other
    · cases other

private theorem reads_arrow (isAsync : Bool) (params : Params) {body : Simple}
    (back : ReadsBack body.pieces body.tree body.count) :
    ReadsBack (Simple.arrow isAsync params body).pieces (Simple.arrow isAsync params body).tree
      body.count := by
  intro run shows
  obtain ⟨first, rest, tail, rfl, showsBody, kind, leads⟩ := leads_arrow isAsync params shows
  refine ⟨first, rest, rfl,
    fun more ends => ⟨begins_of_starts ?_ _, fun n => reads_of_primary ends ?_⟩⟩
  · rcases kind with kind | kind
    · simp [kind, startKinds]
    · simp [kind, startKinds]
  · -- The second half of an arrow would end an expression, but not at a line break.
    obtain ⟨names, greater, same, isGreater, read⟩ := leads more n
    obtain ⟨t, later, rfl, reads⟩ := back tail showsBody
    obtain ⟨begins, reads⟩ := reads more ends
    obtain ⟨value, cursor, next⟩ := reads n
    rw [read, List.cons_append, outcome_readArrowBody]
    dsimp only
    rw [if_neg (simple_first body showsBody), if_neg (goes_of_begins begins (.inr isGreater))]
    obtain ⟨e, found, sameBody⟩ := Option.map_eq_some_iff.mp value
    have found : (Expr.read t (later ++ more) n).value = some e := found
    refine ⟨?_, cursor, next⟩
    simp [found, Expr.unplaced, same, Expr.unplacedOption, sameBody, Simple.tree]

private theorem continues_morePieces (list : List Phrase) : Continues (Phrase.morePieces list) := by
  cases list with
  | nil => exact .inl rfl
  | cons expr rest => exact .inr ⟨_, rfl⟩

private theorem continues_moreMembers (list : List Member) : Continues (Member.morePieces list) := by
  cases list with
  | nil => exact .inl rfl
  | cons member rest => exact .inr ⟨_, rfl⟩

mutual

/-- Every expression is read back. -/
theorem reads_phrase : (expr : Phrase) → ReadsBack expr.pieces expr.tree expr.count
  | .object members => reads_object (reads_members members)
  | .simple expr => reads_simple expr

theorem reads_simple : (expr : Simple) → ReadsBack expr.pieces expr.tree expr.count
  | .chain chain => reads_chain (chain_back chain)
  | .literal literal => reads_literal literal
  | .numeral numeral => reads_numeral numeral
  | .array elements => reads_array (reads_list elements)
  | .arrow isAsync params body => reads_arrow isAsync params (reads_simple body)

theorem chain_back : (chain : Chain) → ChainsBack chain
  | .name name => chain_name name
  | .dynamicImport arguments => chain_dynamicImport (reads_list arguments)
  | .member target name => chain_member (chain_back target) name
  | .call callee arguments => chain_call (chain_back callee) (reads_list arguments)

theorem reads_member : (member : Member) → MemberBack member.pieces member.tree member.count
  | .pair key value => member_pair key (reads_phrase value)
  | .shorthand name => member_shorthand name
  | .method key => member_method key

theorem reads_list : (list : List Phrase) →
    ListsBack (Phrase.listPieces list) (Phrase.trees list) (Phrase.countAll list)
  | [] => items_nil
  | expr :: rest => items_cons (reads_phrase expr) (continues_morePieces rest) (reads_more rest)

theorem reads_more : (list : List Phrase) →
    ListsBack (Phrase.morePieces list) (Phrase.trees list) (Phrase.countAll list)
  | [] => items_nil
  | expr :: rest =>
    items_comma (items_cons (reads_phrase expr) (continues_morePieces rest) (reads_more rest))

theorem reads_members : (list : List Member) →
    MembersBack (Member.listPieces list) (Member.trees list) (Member.countAll list)
  | [] => members_nil
  | property :: rest =>
    members_cons (reads_member property) (continues_moreMembers rest) (reads_moreMembers rest)

theorem reads_moreMembers : (list : List Member) →
    MembersBack (Member.morePieces list) (Member.trees list) (Member.countAll list)
  | [] => members_nil
  | property :: rest =>
    members_comma
      (members_cons (reads_member property) (continues_moreMembers rest) (reads_moreMembers rest))

end

end Expressions

end ImportAtlas.ReadBack
