import ImportAtlas.Proofs.Grammar
import ImportAtlas.Proofs.Outcome

/-! How reading tells expressions apart that start alike. A parenthesis may open the
parameters of an arrow function, and a name may be one of them, the word `async` or
the start of a chain. Which it is shows only in the tokens behind it, and for every
expression of the grammar these tell the truth. -/
namespace ImportAtlas.Lookahead
open Writing Grammar

/-- Looking for an arrow passes over a run and comes back to the depth it had. -/
def Balanced (pieces : List Piece) : Prop :=
  ∀ run, Shows run pieces → ∀ depth more,
    Cursor.arrowFollows depth (run ++ more) = Cursor.arrowFollows depth more

private theorem balanced_nil : Balanced [] := by
  rintro run ⟨⟩ depth more
  rfl

theorem balanced_append (first : Balanced before) (second : Balanced after) :
    Balanced (before ++ after) := by
  intro run shows depth more
  obtain ⟨a, b, rfl, showsFirst, showsSecond⟩ := shows.split
  rw [List.append_assoc, first a showsFirst, second b showsSecond]

/-- Whether a piece has no part in the nesting of parentheses. -/
def isFlat (p : Piece) : Bool :=
  p.kind != .leftParen && p.kind != .rightParen && p.kind != .eof

theorem balanced_cons (flat : isFlat p = true) (rest : Balanced pieces) :
    Balanced (p :: pieces) := by
  intro run shows depth more
  obtain ⟨t, later, rfl, kind, -, shows⟩ := shows.uncons
  simp only [isFlat, ← kind, Bool.and_eq_true, bne_iff_ne] at flat
  obtain ⟨⟨notOpen, notClose⟩, notEof⟩ := flat
  rw [List.cons_append, ← rest later shows depth more, Cursor.arrowFollows.eq_def]
  dsimp only
  split
  · rename_i opens
    exact absurd opens notOpen
  · rename_i closes
    exact absurd closes notClose
  · rename_i ends
    exact absurd ends notEof
  · rfl

/-- Parentheses around a balanced run balance each other. -/
theorem balanced_parens (inner : Balanced pieces) :
    Balanced (.mark .leftParen :: (pieces ++ [Piece.mark .rightParen])) := by
  intro run shows depth more
  obtain ⟨paren, later, rfl, opens, shows⟩ := shows.mark
  obtain ⟨between, close, rfl, closes, shows⟩ := shows.splitMark
  have opens : paren.kind = .leftParen := opens.kind
  have closes : close.kind = .rightParen := closes.kind
  rw [List.cons_append, List.append_assoc, Cursor.arrowFollows.eq_def]
  simp only [opens]
  rw [inner between shows, List.singleton_append, Cursor.arrowFollows.eq_def]
  simp only [closes]

private theorem isFlat_word (word : Writing.Word) : isFlat (.word word) = true := by
  rcases kind_word word with kind | kind
  · simp [isFlat, kind]
  · simp [isFlat, kind]

private theorem isFlat_key (key : Key) : isFlat key.piece = true := by
  cases key with
  | word word => exact isFlat_word word
  | literal literal => rfl

theorem balanced_names (names : List Name) : Balanced (listNames names) := by
  have more (names : List Name) : Balanced (moreNames names) := by
    induction names with
    | nil => exact balanced_nil
    | cons name names ih => exact balanced_cons rfl (balanced_cons (isFlat_word _) ih)
  cases names with
  | nil => exact balanced_nil
  | cons name names => exact balanced_cons (isFlat_word _) (more names)

theorem balanced_params (params : Params) : Balanced params.pieces := by
  cases params with
  | bare name => exact balanced_cons (isFlat_word _) balanced_nil
  | listed names => exact balanced_parens (balanced_names names)

mutual

/-- No expression leaves a parenthesis open. -/
theorem balanced_phrase : (expr : Phrase) → Balanced expr.pieces
  | .object members =>
    balanced_cons rfl (balanced_append (balanced_members members) (balanced_cons rfl balanced_nil))
  | .simple expr => balanced_simple expr

theorem balanced_simple : (expr : Simple) → Balanced expr.pieces
  | .chain chain => balanced_chain chain
  | .literal _ => balanced_cons rfl balanced_nil
  | .numeral _ => balanced_cons rfl balanced_nil
  | .array elements =>
    balanced_cons rfl (balanced_append (balanced_list elements) (balanced_cons rfl balanced_nil))
  | .arrow isAsync params body => by
    have rest := balanced_append (balanced_params params)
      (balanced_cons rfl (balanced_cons rfl (balanced_simple body)) : Balanced
        (.mark .equals :: .mark .greater :: body.pieces))
    cases isAsync with
    | false => exact rest
    | true => exact balanced_cons (isFlat_word _) rest

theorem balanced_chain : (chain : Chain) → Balanced chain.pieces
  | .name _ => balanced_cons (isFlat_word _) balanced_nil
  | .dynamicImport arguments =>
    balanced_cons (isFlat_word _) (balanced_parens (balanced_list arguments))
  | .member target _ =>
    balanced_append (balanced_chain target) (balanced_cons rfl (balanced_cons (isFlat_word _) balanced_nil))
  | .call callee arguments =>
    balanced_append (balanced_chain callee) (balanced_parens (balanced_list arguments))

theorem balanced_member : (member : Member) → Balanced member.pieces
  | .pair key value => balanced_cons (isFlat_key key) (balanced_cons rfl (balanced_phrase value))
  | .shorthand _ => balanced_cons (isFlat_word _) balanced_nil
  | .method key =>
    balanced_cons (isFlat_key key) (balanced_append (balanced_parens balanced_nil)
      (balanced_cons rfl (balanced_cons rfl balanced_nil)))

theorem balanced_list : (list : List Phrase) → Balanced (Phrase.listPieces list)
  | [] => balanced_nil
  | expr :: rest => balanced_append (balanced_phrase expr) (balanced_more rest)

theorem balanced_more : (list : List Phrase) → Balanced (Phrase.morePieces list)
  | [] => balanced_nil
  | expr :: rest => balanced_cons rfl (balanced_append (balanced_phrase expr) (balanced_more rest))

theorem balanced_members : (list : List Member) → Balanced (Member.listPieces list)
  | [] => balanced_nil
  | member :: rest => balanced_append (balanced_member member) (balanced_moreMembers rest)

theorem balanced_moreMembers : (list : List Member) → Balanced (Member.morePieces list)
  | [] => balanced_nil
  | member :: rest =>
    balanced_cons rfl (balanced_append (balanced_member member) (balanced_moreMembers rest))

end

open ImportAtlas.Expr

/-- A token that ends any expression before it comes next. -/
def Ends (more : List Token) : Prop :=
  ∃ t later, more = t :: later ∧ Cursor.isTerminator t = true

/-- The kinds of tokens that may start an expression, keywords aside. -/
def startKinds : List Token.Kind :=
  [.identifier, .string, .number, .leftBrace, .leftBracket, .leftParen]

theorem isTerminator_of_starts (starts : t.kind ∈ startKinds) : Cursor.isTerminator t = false := by
  have all : ∀ kind ∈ startKinds, kind ≠ .eof ∧ kind ≠ .comma ∧ kind.isClose = false ∧
      kind ≠ .operator := by decide
  obtain ⟨notEof, notComma, notClose, notOperator⟩ := all t.kind starts
  simp [Cursor.isTerminator, Token.isEof, Token.isOperator, notEof, notComma, notClose, notOperator]

/-- What ends an expression does not start one. -/
theorem not_starts_of_isTerminator (terminator : Cursor.isTerminator t = true) :
    t.kind ∉ startKinds := by
  intro starts
  rw [isTerminator_of_starts starts] at terminator
  cases terminator

/-- A name goes on neither as an arrow function nor as the word `async` of one. -/
structure Quiet (first : Token) (more : List Token) : Prop where
  param : asyncParam? first more = none
  parens : asyncParens? first more = none
  arrow : Cursor.arrow? more = none

private theorem quiet_cons (first : Token) (notName : t.kind ≠ .identifier)
    (notEquals : t.isOperator "=" = false)
    (notArrow : t.kind = .leftParen → Cursor.arrowFollows 0 later = false) :
    Quiet first (t :: later) where
  param := by simp [asyncParam?, notName]
  parens := by
    simp only [asyncParens?]
    split
    · rename_i both
      rw [notArrow both.2.1] at both
      cases both.2.2
    · rfl
  arrow := by
    unfold Cursor.arrow?
    split
    · rename_i same
      obtain ⟨rfl, -⟩ := List.cons.inj same
      simp [notEquals]
    · rfl

theorem isOperator_of_isTerminator (terminator : Cursor.isTerminator t = true)
    (other : ¬text = ";") : t.isOperator text = false := by
  cases operator : t.isOperator text with
  | false => rfl
  | true =>
    simp only [Token.isOperator, Bool.and_eq_true, beq_iff_eq] at operator
    simp [Cursor.isTerminator, Token.isEof, Token.isOperator, operator.1, operator.2, other,
      Token.Kind.isClose] at terminator

theorem quiet_of_ends (first : Token) (ends : Ends more) : Quiet first more := by
  obtain ⟨t, later, rfl, terminator⟩ := ends
  have notStart := not_starts_of_isTerminator terminator
  refine quiet_cons first ?_ (isOperator_of_isTerminator terminator (by decide)) ?_
  · intro kind
    exact absurd (by simp [kind, startKinds]) notStart
  · intro kind
    exact absurd (by simp [kind, startKinds]) notStart

theorem isOperator_of_marks (marks : Marks t m) (operator : m.kind = .operator)
    (same : String.ofList [m.char] = text) : t.isOperator text = true := by
  simp [Token.isOperator, marks.kind, marks.value, operator, same]

/-- Whether a chain starts with a name, and not with a dynamic import. -/
def isNamed : Chain → Bool
  | .name _ => true
  | .dynamicImport _ => false
  | .member target _ => isNamed target
  | .call callee _ => isNamed callee

/-- What a chain is built on. -/
def base (chain : Chain) (first : Token) : Expr :=
  if isNamed chain then .identifier first.identifier else .dynamicImport first.span

theorem chain_pieces_ne_nil (chain : Chain) : chain.pieces ≠ [] := by
  cases chain with
  | name | dynamicImport => simp [Chain.pieces]
  | member | call => simp [Chain.pieces]

/-- Pieces of a longer run that starts with a chain. -/
theorem split_chain {chain : Chain} (shows : Shows (first :: rest) (chain.pieces ++ pieces)) :
    ∃ before after, rest = before ++ after ∧ Shows (first :: before) chain.pieces ∧
      Shows after pieces := by
  obtain ⟨before, after, same, showsChain, showsRest⟩ := shows.split
  obtain _ | ⟨t, before⟩ := before
  · have empty := chain_pieces_ne_nil chain
    cases chainPieces : chain.pieces with
    | nil => exact absurd chainPieces empty
    | cons p list =>
      rw [chainPieces] at showsChain
      cases showsChain
  · obtain ⟨rfl, rfl⟩ := List.cons.inj same
    exact ⟨before, after, rfl, showsChain, showsRest⟩

/-- A chain on a name goes on by dots and calls only. The word `async` in front of a
call does not make it an arrow function, since no arrow follows the call. -/
theorem chain_named : (chain : Chain) → isNamed chain = true → ∀ {rest more},
    Shows (first :: rest) chain.pieces → Quiet first more →
      first.kind = .identifier ∧ Quiet first (rest ++ more)
  | .name _, _, _, _, shows, quiet => by
    obtain ⟨t, later, same, names, nothing⟩ := shows.name
    obtain ⟨rfl, rfl⟩ := List.cons.inj same
    cases nothing
    exact ⟨names.kind, quiet⟩
  | .dynamicImport _, named, _, _, _, _ => nomatch named
  | .member target _, named, _, more, shows, _ => by
    obtain ⟨before, after, rfl, showsTarget, shows⟩ := split_chain shows
    obtain ⟨dot, later, rfl, marks, -⟩ := shows.mark
    rw [List.append_assoc]
    refine chain_named target named showsTarget (quiet_cons first ?_ ?_ ?_)
    · simp [marks.kind, Mark.kind]
    · simp [Token.isOperator, marks.value, Mark.char]
    · simp [marks.kind, Mark.kind]
  | .call callee arguments, named, _, more, shows, quiet => by
    obtain ⟨before, after, rfl, showsCallee, shows⟩ := split_chain shows
    obtain ⟨paren, later, rfl, opens, shows⟩ := shows.mark
    obtain ⟨between, close, rfl, closes, shows⟩ := shows.splitMark
    rw [List.append_assoc, List.cons_append]
    refine chain_named callee named showsCallee (quiet_cons first ?_ ?_ fun _ => ?_)
    · simp [opens.kind, Mark.kind]
    · simp [Token.isOperator, opens.kind, Mark.kind]
    · -- The lookahead stops at the parenthesis that ends the arguments.
      have kind : close.kind = .rightParen := closes.kind
      rw [List.append_assoc, balanced_list arguments between shows, List.singleton_append,
        Cursor.arrowFollows.eq_def]
      simp only [kind, quiet.arrow]
      rfl

/-- A chain on a dynamic import starts with its keyword and a parenthesis. -/
theorem chain_import : (chain : Chain) → isNamed chain = false → ∀ {rest},
    Shows (first :: rest) chain.pieces →
      first.kind = .keyword ∧ first.value = "import" ∧
        ∃ paren later, rest = paren :: later ∧ paren.kind = .leftParen
  | .name _, named, _, _ => nomatch named
  | .dynamicImport _, _, _, shows => by
    obtain ⟨t, later, same, kind, value, shows⟩ := shows.uncons
    obtain ⟨rfl, rfl⟩ := List.cons.inj same
    obtain ⟨paren, later, rfl, opens, -⟩ := shows.mark
    exact ⟨kind.trans (by decide), value, paren, later, rfl, opens.kind⟩
  | .member target _, named, _, shows => by
    obtain ⟨before, after, rfl, showsTarget, -⟩ := split_chain shows
    obtain ⟨kind, value, paren, later, rfl, opens⟩ := chain_import target named showsTarget
    exact ⟨kind, value, paren, _, rfl, opens⟩
  | .call callee _, named, _, shows => by
    obtain ⟨before, after, rfl, showsCallee, -⟩ := split_chain shows
    obtain ⟨kind, value, paren, later, rfl, opens⟩ := chain_import callee named showsCallee
    exact ⟨kind, value, paren, _, rfl, opens⟩

section Params

private theorem arrowParams_name (kind : t.kind = .identifier) (precedes : precedesParam last = true)
    (rest : List Token) :
    arrowParams 0 last (t :: rest) =
      (t.identifier :: (arrowParams 0 t rest).1, (arrowParams 0 t rest).2) := by
  simp [arrowParams, Token.isEof, kind, precedes, Token.Kind.isOpen, Token.Kind.isClose]

private theorem arrowParams_comma (kind : t.kind = .comma) (last : Token) (rest : List Token) :
    arrowParams 0 last (t :: rest) = arrowParams 0 t rest := by
  simp [arrowParams, Token.isEof, kind, Token.Kind.isOpen, Token.Kind.isClose]

private theorem arrowParams_close (kind : t.kind = .rightParen) (last : Token) (rest : List Token) :
    arrowParams 0 last (t :: rest) = ([], ⟨t, rest⟩) := by
  simp [arrowParams, Token.isEof, kind, Token.Kind.isOpen, Token.Kind.isClose]

theorem unplaced_of_names (names : Names t name) :
    t.identifier.unplaced = ⟨default, name.text⟩ := by
  simp [Token.identifier, Identifier.unplaced, names.value]

/-- The names behind the first one are the parameters behind the first one. -/
private theorem arrowParams_more (list : List Name) (shows : Shows run (moreNames list))
    (closes : close.kind = .rightParen) (last : Token) (more : List Token) :
    ∃ params, arrowParams 0 last (run ++ close :: more) = (params, ⟨close, more⟩) ∧
      params.map Identifier.unplaced = list.map fun name => ⟨default, name.text⟩ := by
  induction list generalizing run last with
  | nil =>
    cases shows
    exact ⟨[], arrowParams_close closes last more, rfl⟩
  | cons name list ih =>
    obtain ⟨comma, later, rfl, separates, shows⟩ := Shows.mark shows
    obtain ⟨t, later, rfl, names, shows⟩ := shows.name
    obtain ⟨params, read, same⟩ := ih shows t
    refine ⟨t.identifier :: params, ?_, ?_⟩
    · have precedes : precedesParam comma = true := by
        simp [precedesParam, separates.kind, Mark.kind]
      rw [List.cons_append, arrowParams_comma separates.kind, List.cons_append,
        arrowParams_name names.kind precedes, read]
    · rw [List.map_cons, unplaced_of_names names, same, List.map_cons]

/-- A parameter list is read through its closing parenthesis, and an arrow follows
where one follows that parenthesis. -/
theorem arrowParams_listed (list : List Name)
    (shows : Shows (paren :: run) (Params.listed list).pieces) (more : List Token) :
    paren.kind = .leftParen ∧ Cursor.arrowFollows 0 (run ++ more) = (Cursor.arrow? more).isSome ∧
      ∃ params close, arrowParams 0 paren (run ++ more) = (params, ⟨close, more⟩) ∧
        params.map Identifier.unplaced = list.map fun name => ⟨default, name.text⟩ := by
  obtain ⟨t, later, same, opens, shows⟩ := Shows.mark shows
  obtain ⟨rfl, rfl⟩ := List.cons.inj same
  obtain ⟨between, close, rfl, closes, shows⟩ := shows.splitMark
  have closes : close.kind = .rightParen := closes.kind
  rw [List.append_assoc, List.singleton_append]
  refine ⟨opens.kind, ?_, ?_⟩
  · rw [balanced_names list between shows, Cursor.arrowFollows.eq_def]
    simp only [closes]
  · cases list with
    | nil =>
      cases shows
      exact ⟨[], close, arrowParams_close closes paren more, rfl⟩
    | cons name list =>
      obtain ⟨t, later, rfl, names, shows⟩ := Shows.name shows
      obtain ⟨params, read, same⟩ := arrowParams_more list shows closes t more
      refine ⟨t.identifier :: params, close, ?_, ?_⟩
      · have precedes : precedesParam paren = true := by
          simp [precedesParam, opens.kind, Mark.kind]
        rw [List.cons_append, arrowParams_name names.kind precedes, read]
      · rw [List.map_cons, unplaced_of_names names, same, List.map_cons]

end Params

section Arrows

private theorem arrow?_of_marks (first : Marks equals .equals) (second : Marks greater .greater)
    (rest : List Token) : Cursor.arrow? (equals :: greater :: rest) = some ⟨greater, rest⟩ := by
  have isEquals : equals.isOperator "=" = true := isOperator_of_marks first rfl (by decide)
  have isGreater : greater.kind = .ambiguousGt := second.kind
  simp [Cursor.arrow?, isEquals, isGreater]

/-- Tokens that show the head of an arrow function lead to its body. -/
def LeadsToBody (first : Token) (rest : List Token) (params : Params) (isAsync : Bool)
    (body : List Token) : Prop :=
  (first.kind = .identifier ∨ first.kind = .leftParen) ∧ ∀ more n, ∃ names greater,
    names.map Identifier.unplaced = params.tree ∧ greater.kind = .ambiguousGt ∧
      (readPrimary first (rest ++ more) n).outcome =
        (readArrowBody first names isAsync greater (body ++ more) n).outcome

private theorem leads_bare (names : Names t name) (isEquals : Marks equals .equals)
    (isGreater : Marks greater .greater) :
    LeadsToBody t (equals :: greater :: body) (.bare name) false body := by
  refine ⟨.inl names.kind, fun more n => ⟨[t.identifier], greater, ?_, isGreater.kind, ?_⟩⟩
  · rw [List.map_singleton, unplaced_of_names names, Params.tree]
  · have noParam : asyncParam? t (equals :: greater :: (body ++ more)) = none := by
      simp [asyncParam?, isEquals.kind, Mark.kind]
    have noParens : asyncParens? t (equals :: greater :: (body ++ more)) = none := by
      simp [asyncParens?, isEquals.kind, Mark.kind]
    rw [outcome_readPrimary]
    simp only [names.kind, List.cons_append]
    rw [outcome_readName]
    simp only [noParam, noParens, arrow?_of_marks isEquals isGreater]

private theorem leads_asyncBare (isAsync : Names a ⟨asyncWord, by decide⟩) (names : Names t name)
    (isEquals : Marks equals .equals) (isGreater : Marks greater .greater) :
    LeadsToBody a (t :: equals :: greater :: body) (.bare name) true body := by
  refine ⟨.inl isAsync.kind, fun more n => ⟨[t.identifier], greater, ?_, isGreater.kind, ?_⟩⟩
  · rw [List.map_singleton, unplaced_of_names names, Params.tree]
  · have word : a.value = "async" := isAsync.value
    have param : asyncParam? a (t :: equals :: greater :: (body ++ more)) =
        some (t, ⟨greater, body ++ more⟩) := by
      simp [asyncParam?, word, names.kind, arrow?_of_marks isEquals isGreater]
    rw [outcome_readPrimary]
    simp only [isAsync.kind, List.cons_append]
    rw [outcome_readName]
    simp only [param]

private theorem leads_listed (shows : Shows (paren :: run) (Params.listed list).pieces)
    (isEquals : Marks equals .equals) (isGreater : Marks greater .greater) :
    LeadsToBody paren (run ++ equals :: greater :: body) (.listed list) false body := by
  refine ⟨.inr (arrowParams_listed list shows []).1, fun more n => ?_⟩
  obtain ⟨opens, follows, names, close, read, same⟩ :=
    arrowParams_listed list shows (equals :: greater :: (body ++ more))
  rw [arrow?_of_marks isEquals isGreater] at follows
  refine ⟨names, greater, same, isGreater.kind, ?_⟩
  rw [outcome_readPrimary, List.append_assoc]
  simp only [opens, List.cons_append, follows, Option.isSome_some, ↓reduceIte]
  rw [outcome_readParenArrow]
  simp only [read, arrow?_of_marks isEquals isGreater]

private theorem leads_asyncListed (isAsync : Names a ⟨asyncWord, by decide⟩)
    (shows : Shows (paren :: run) (Params.listed list).pieces)
    (isEquals : Marks equals .equals) (isGreater : Marks greater .greater) :
    LeadsToBody a (paren :: (run ++ equals :: greater :: body)) (.listed list) true body := by
  refine ⟨.inl isAsync.kind, fun more n => ?_⟩
  obtain ⟨opens, follows, names, close, read, same⟩ :=
    arrowParams_listed list shows (equals :: greater :: (body ++ more))
  rw [arrow?_of_marks isEquals isGreater] at follows
  refine ⟨names, greater, same, isGreater.kind, ?_⟩
  have word : a.value = "async" := isAsync.value
  have noParam (rest : List Token) : asyncParam? a (paren :: rest) = none := by
    simp [asyncParam?, opens]
  have parens : asyncParens? a (paren :: (run ++ equals :: greater :: (body ++ more))) =
      some ⟨paren, run ++ equals :: greater :: (body ++ more)⟩ := by
    simp [asyncParens?, word, opens, follows]
  rw [outcome_readPrimary, List.cons_append, List.append_assoc]
  simp only [isAsync.kind, List.cons_append]
  rw [outcome_readName]
  simp only [noParam, parens]
  rw [outcome_readParenArrow]
  simp only [read, arrow?_of_marks isEquals isGreater]

/-- The head and the body of an arrow function. -/
private theorem split_arrow {params : Params}
    (shows : Shows run (params.pieces ++ .mark .equals :: .mark .greater :: pieces)) :
    ∃ head equals greater body, run = head ++ equals :: greater :: body ∧
      Shows head params.pieces ∧ Marks equals .equals ∧ Marks greater .greater ∧
      Shows body pieces := by
  obtain ⟨head, tail, rfl, showsHead, shows⟩ := shows.split
  obtain ⟨equals, tail, rfl, isEquals, shows⟩ := shows.mark
  obtain ⟨greater, body, rfl, isGreater, shows⟩ := shows.mark
  exact ⟨head, equals, greater, body, rfl, showsHead, isEquals, isGreater, shows⟩

/-- The head of every arrow function leads to its body. -/
theorem leads_arrow (isAsync : Bool) (params : Params)
    (shows : Shows run ((if isAsync then [Piece.word asyncWord] else []) ++
      (params.pieces ++ Piece.mark .equals :: Piece.mark .greater :: pieces))) :
    ∃ first rest body, run = first :: rest ∧ Shows body pieces ∧
      LeadsToBody first rest params isAsync body := by
  cases isAsync with
  | false =>
    obtain ⟨head, equals, greater, body, rfl, showsHead, isEquals, isGreater, showsBody⟩ :=
      split_arrow shows
    cases params with
    | bare name =>
      obtain ⟨t, nothing, rfl, names, shows⟩ := Shows.name showsHead
      cases shows
      exact ⟨t, _, body, rfl, showsBody, leads_bare names isEquals isGreater⟩
    | listed list =>
      obtain ⟨paren, head, rfl, -, -⟩ := Shows.mark showsHead
      exact ⟨paren, _, body, rfl, showsBody, leads_listed showsHead isEquals isGreater⟩
  | true =>
    have shows : Shows run (.word (⟨asyncWord, by decide⟩ : Name).toWord ::
      (params.pieces ++ .mark .equals :: .mark .greater :: pieces)) := shows
    obtain ⟨a, run, rfl, isAsync, shows⟩ := shows.name
    obtain ⟨head, equals, greater, body, rfl, showsHead, isEquals, isGreater, showsBody⟩ :=
      split_arrow shows
    cases params with
    | bare name =>
      obtain ⟨t, nothing, rfl, names, shows⟩ := Shows.name showsHead
      cases shows
      exact ⟨a, _, body, rfl, showsBody, leads_asyncBare isAsync names isEquals isGreater⟩
    | listed list =>
      obtain ⟨paren, head, rfl, -, -⟩ := Shows.mark showsHead
      exact ⟨a, _, body, rfl, showsBody, leads_asyncListed isAsync showsHead isEquals isGreater⟩

end Arrows

end ImportAtlas.Lookahead
