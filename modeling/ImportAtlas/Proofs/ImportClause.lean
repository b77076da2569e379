import ImportAtlas.Proofs.RoundTrip
import ImportAtlas.Tree.ImportRecord

/-! Import declarations are read back. The words `from`, `as` and `type` are names as
well as syntax, and a reading decides which by the tokens next to them. A sequence of
declarations that is written down with any white space between its pieces is read as
these declarations, whichever of these words they use as names. -/
namespace ImportAtlas.ImportClause
open Writing Grammar Lookahead RoundTrip

section Grammar

/-- A name that is bound without a list: any but the word `from`. -/
structure Binding extends Name where
  other : text ≠ "from"

/-- One name of a list. A reserved word or a literal has to be renamed. -/
inductive Item where
  | plain (name : Name)
  | renamed (exported : Key) (bound : Writing.Word)

/-- What is imported besides the default export: all exports under one name, or a list
of them. -/
inductive Others where
  | star (bound : Binding)
  | list (items : List Item)

/-- An import declaration. One without any names is there for its side effects. -/
structure Sentence where
  main : Option Binding
  others : Option Others
  source : Literal
  terminated : Bool

end Grammar

section Pieces

def asName : Name := ⟨⟨"as", by decide⟩, by decide⟩
def fromName : Name := ⟨⟨"from", by decide⟩, by decide⟩

def Item.pieces : Item → List Piece
  | plain name => [.word name.toWord]
  | renamed exported bound => [exported.piece, .word asName.toWord, .word bound]

/-- Names behind the first one, each after a comma. -/
def Item.morePieces (items : List Item) : List Piece :=
  items.flatMap fun item => .mark .comma :: item.pieces

/-- Names with commas between them. -/
def Item.listPieces : List Item → List Piece
  | [] => []
  | item :: items => item.pieces ++ Item.morePieces items

def Others.pieces : Others → List Piece
  | star bound => [.mark .star, .word asName.toWord, .word bound.toWord]
  | list items => .mark .leftBrace :: (Item.listPieces items ++ [.mark .rightBrace])

/-- Everything between the keyword and the source. -/
def clausePieces : Option Binding → Option Others → List Piece
  | none, none => []
  | some main, none => [.word main.toWord, .word fromName.toWord]
  | none, some others => others.pieces ++ [.word fromName.toWord]
  | some main, some others =>
    .word main.toWord :: .mark .comma :: (others.pieces ++ [.word fromName.toWord])

/-- The pieces of a declaration, its semicolon included if it has one. -/
def Sentence.pieces (sentence : Sentence) : List Piece :=
  .word importWord :: (clausePieces sentence.main sentence.others ++
    .literal sentence.source :: if sentence.terminated then [.mark .semicolon] else [])

end Pieces

section Trees

/-- The text between the quotes. -/
def content (literal : Literal) : String :=
  String.ofList literal.text.toList.tail.dropLast

/-- The name of an export. -/
def exportedName : Key → String
  | .word w => w.text
  | .literal l => content l

def Item.specifier : Item → ImportSpecifier
  | plain name => ⟨default, .named, ⟨default, name.text⟩, ⟨default, name.text⟩⟩
  | renamed exported bound =>
    ⟨default, .named, ⟨default, exportedName exported⟩, ⟨default, bound.text⟩⟩

def Others.specifiers : Others → List ImportSpecifier
  | star bound => [⟨default, .star, ⟨default, bound.text⟩, ⟨default, bound.text⟩⟩]
  | list items => items.map Item.specifier

/-- The specifier of the default export. -/
def Binding.specifier (bound : Binding) : ImportSpecifier :=
  ⟨default, .default, ⟨default, bound.text⟩, ⟨default, bound.text⟩⟩

/-- The specifiers of a declaration in their order. -/
def Sentence.specifiers (sentence : Sentence) : List ImportSpecifier :=
  sentence.main.toList.map Binding.specifier ++ sentence.others.toList.flatMap Others.specifiers

def Sentence.tree (sentence : Sentence) : Statement :=
  .importDeclaration ⟨default, sentence.specifiers, some ⟨default, sentence.source.text⟩⟩

/-- The record of a declaration: its source without quotes, and the names that it
imports. -/
def Sentence.record (sentence : Sentence) : ImportRecord :=
  ⟨content sentence.source, sentence.specifiers.map (·.imported.name)⟩

end Trees

section Quotes
open Extent

/-- A literal loses its two quotes and nothing else. -/
theorem unquoted_literal (literal : Literal) : Text.unquoted literal.text = content literal := by
  obtain ⟨text, shape⟩ := literal
  have enclosed : ∃ quote body, text.toList = quote :: body ∧ quote ∈ Text.quotes ∧
      body.getLast? = some quote := by
    generalize text.toList = whole at shape
    cases shape with
    | quoted isQuote rest =>
      refine ⟨_, _, rfl, ?_, rest.getLast?_eq⟩
      rcases isQuote with rfl | rfl
      · decide
      · decide
    | template rest => exact ⟨_, _, rfl, by decide, rest.getLast?_eq⟩
  obtain ⟨quote, body, same, isQuote, last⟩ := enclosed
  simp [Text.unquoted, content, same, Text.inner, isQuote, last]

/-- A word has no quotes to lose. -/
theorem unquoted_word (word : Writing.Word) : Text.unquoted word.text = word.text := by
  obtain ⟨text, shape⟩ := word
  have kept : Text.inner text.toList = text.toList := by
    generalize text.toList = whole at shape
    cases whole with
    | nil => cases shape
    | cons c rest =>
      have other : c ∉ Text.quotes := by
        intro isQuote
        simp only [isWord, Bool.and_eq_true] at shape
        simp only [Text.quotes, List.mem_cons, List.not_mem_nil, or_false] at isQuote
        rcases isQuote with rfl | rfl | rfl
        · exact absurd shape.1 (by decide)
        · exact absurd shape.1 (by decide)
        · exact absurd shape.1 (by decide)
      simp [Text.inner, other]
  simp [Text.unquoted, kept]

end Quotes

section Names

private theorem isIdentifier_of_names (names : Names t name) (word : String) :
    t.isIdentifier word = (name.text == word) := by
  simp [Token.isIdentifier, names.kind, names.value]

private theorem isBindingName_of_names {bound : Binding} (names : Names t bound.toName) :
    t.isBindingName = true := by
  simp [Token.isBindingName, isIdentifier_of_names names, names.kind, bound.other]

/-- A token of another kind than a word is no word of the syntax. -/
private theorem isIdentifier_of_kind {t : Token} (other : t.kind ≠ .identifier) (word : String) :
    t.isIdentifier word = false := by
  simp [Token.isIdentifier, other]

private theorem isBindingName_of_kind {t : Token} (other : t.kind ≠ .identifier) :
    t.isBindingName = false := by
  simp [Token.isBindingName, other]

/-- The token of an exported name. -/
private theorem exported_of_shows {exported : Key}
    (shows : Shows run (exported.piece :: pieces)) :
    ∃ t later, run = t :: later ∧ Text.unquoted t.value = exportedName exported ∧
      (t.kind = .identifier ∨ t.kind = .keyword ∨ t.kind = .string) ∧ Shows later pieces := by
  obtain ⟨t, later, rfl, kind, value, others⟩ := shows.uncons
  cases exported with
  | word word =>
    have spelled : Text.unquoted t.value = word.text := by
      rw [value]
      exact unquoted_word word
    refine ⟨t, later, rfl, spelled, ?_, others⟩
    rcases kind_word word with isName | isKeyword
    · exact .inl (kind.trans isName)
    · exact .inr (.inl (kind.trans isKeyword))
  | literal literal =>
    have spelled : Text.unquoted t.value = content literal := by
      rw [value]
      exact unquoted_literal literal
    exact ⟨t, later, rfl, spelled, .inr (.inr kind), others⟩

end Names

section Lists
open ImportSpecifier

/-- The specifiers are the given ones, up to their places, and some tokens are left. -/
structure Yields (result : List ImportSpecifier × Cursor) (specifiers : List ImportSpecifier)
    (more : List Token) : Prop where
  specifiers : result.1.map ImportSpecifier.unplaced = specifiers
  left : result.2.rest = more

/-- The word `type` is a name where no other name or the word `as` follows. -/
private theorem skipTypeWord_name (first : Token)
    (follows : next.kind ≠ .identifier ∨ next.isIdentifier "as" = true) (rest : List Token) :
    skipTypeWord first (next :: rest) = ⟨first, next :: rest⟩ := by
  have stays : (next.kind == .identifier && !next.isIdentifier "as") = false := by
    rcases follows with other | isAs
    · simp [other]
    · simp [isAs]
  simp [skipTypeWord, Cursor.skipIf, stays]

/-- One name of a list is read up to the comma or the brace behind it. -/
theorem reads_item (item : Item) {run : List Token} (shows : Shows run item.pieces)
    (follows : next.kind = .comma ∨ next.kind = .rightBrace) (more : List Token) :
    ∃ t later, run = t :: later ∧ t.kind ≠ .rightBrace ∧ t.kind ≠ .comma ∧
      startsNamed t (later ++ next :: more) = true ∧
      (readNamed t (later ++ next :: more)).1.unplaced = item.specifier ∧
      (readNamed t (later ++ next :: more)).2.rest = next :: more := by
  cases item with
  | plain name =>
    obtain ⟨t, later, rfl, names, nothing⟩ := Shows.name shows
    cases nothing
    have other : next.kind ≠ .identifier := by
      rcases follows with kind | kind
      · simp [kind]
      · simp [kind]
    have spelled : Text.unquoted t.value = name.text := by
      rw [names.value]
      exact unquoted_word name.toWord
    refine ⟨t, [], rfl, by simp [names.kind], by simp [names.kind], ?_⟩
    simp [startsNamed, names.kind, readNamed, skipTypeWord_name t (.inl other), Cursor.nextIs,
      isIdentifier_of_kind other, unplaced, Token.importedName, Identifier.unplaced, spelled,
      Item.specifier]
  | renamed exported bound =>
    obtain ⟨t, later, rfl, spelled, kind, shows⟩ := exported_of_shows shows
    obtain ⟨as, later, rfl, isAs, shows⟩ := Shows.name shows
    obtain ⟨b, later, rfl, words, nothing⟩ := Shows.word shows
    cases nothing
    have isAs : as.isIdentifier "as" = true := isIdentifier_of_names isAs "as"
    have bindable : (b.kind == .identifier || b.kind == .keyword) = true := by
      rcases words.kind with kind | kind
      · simp [kind]
      · simp [kind]
    have starts : startsNamed t ([as, b] ++ next :: more) = true := by
      rcases kind with kind | kind | kind
      · simp [startsNamed, kind]
      · simp [startsNamed, kind, Cursor.nextIs, isAs]
      · simp [startsNamed, kind]
    refine ⟨t, [as, b], rfl, ?_, ?_, starts, ?_⟩
    · rintro closes
      simp [closes] at kind
    · rintro separates
      simp [separates] at kind
    · simp [readNamed, skipTypeWord_name t (.inr isAs), Cursor.nextIs, Cursor.skipIf, isAs,
        bindable, unplaced, Token.importedName, Token.identifier, Identifier.unplaced, spelled,
        words.value, Item.specifier]

/-- One name of a list, and what is read behind it. -/
private theorem yields_item (item : Item) {run : List Token} (shows : Shows run item.pieces)
    (follows : next.kind = .comma ∨ next.kind = .rightBrace)
    (others : ∀ last, Yields (readList last (next :: more)) specifiers rest) (last : Token) :
    Yields (readList last (run ++ next :: more)) (item.specifier :: specifiers) rest := by
  obtain ⟨t, later, rfl, notClose, notComma, starts, same, left⟩ :=
    reads_item item shows follows more
  rw [List.cons_append, readList]
  simp only [notClose, notComma, starts, ↓reduceIte, left]
  obtain ⟨values, left⟩ := others (readNamed t (later ++ next :: more)).2.last
  exact ⟨congrArg₂ List.cons same values, left⟩

/-- Behind a name of a list stands a comma or the closing brace. -/
private theorem next_of_more (items : List Item) {run : List Token}
    (shows : Shows run (Item.morePieces items)) (closes : close.kind = .rightBrace)
    (more : List Token) :
    ∃ next rest, run ++ close :: more = next :: rest ∧
      (next.kind = .comma ∨ next.kind = .rightBrace) := by
  cases items with
  | nil =>
    cases shows
    exact ⟨close, more, rfl, .inr closes⟩
  | cons item items =>
    obtain ⟨comma, run, rfl, separates, -⟩ := Shows.mark shows
    exact ⟨comma, run ++ close :: more, rfl, .inl separates.kind⟩

/-- The first name of a list and those behind it. -/
private theorem yields_cons (item : Item) (items : List Item) {run : List Token}
    (shows : Shows run (item.pieces ++ Item.morePieces items)) (closes : close.kind = .rightBrace)
    (others : ∀ {later}, Shows later (Item.morePieces items) → ∀ last,
      Yields (readList last (later ++ close :: more)) (items.map Item.specifier) more)
    (last : Token) :
    Yields (readList last (run ++ close :: more)) ((item :: items).map Item.specifier) more := by
  obtain ⟨first, later, rfl, showsFirst, showsOthers⟩ := shows.split
  obtain ⟨next, rest, same, follows⟩ := next_of_more items showsOthers closes more
  have others := others showsOthers
  rw [List.append_assoc]
  rw [same] at others ⊢
  exact yields_item item showsFirst follows others last

/-- The names behind the first one are read through the closing brace. -/
private theorem yields_more (items : List Item) {run : List Token}
    (shows : Shows run (Item.morePieces items)) (closes : close.kind = .rightBrace)
    (more : List Token) (last : Token) :
    Yields (readList last (run ++ close :: more)) (items.map Item.specifier) more := by
  induction items generalizing run last with
  | nil =>
    cases shows
    rw [List.nil_append, readList]
    simp only [closes, ↓reduceIte]
    exact ⟨rfl, rfl⟩
  | cons item items ih =>
    obtain ⟨comma, run, rfl, separates, shows⟩ := Shows.mark shows
    have separates : comma.kind = .comma := separates.kind
    rw [List.cons_append, readList]
    simp only [separates, reduceCtorEq, ↓reduceIte]
    exact yields_cons item items shows closes (fun shows => ih shows) comma

/-- A list of names is read through its closing brace. -/
theorem yields_list (items : List Item) {run : List Token}
    (shows : Shows run (Item.listPieces items)) (closes : close.kind = .rightBrace)
    (more : List Token) (last : Token) :
    Yields (readList last (run ++ close :: more)) (items.map Item.specifier) more := by
  cases items with
  | nil => exact yields_more [] shows closes more last
  | cons item items =>
    exact yields_cons item items shows closes
      (fun shows => yields_more items shows closes more) last

end Lists

section Clauses
open ImportSpecifier ImportDeclaration

/-- All exports under one name are read up to the word behind the name. -/
private theorem yields_star (bound : Binding) {star : Token} {run : List Token}
    (shows : Shows run [.word asName.toWord, .word bound.toWord]) (more : List Token) :
    Yields (readStar star (run ++ more)) (Others.star bound).specifiers more := by
  obtain ⟨as, run, rfl, isAs, shows⟩ := Shows.name shows
  obtain ⟨b, run, rfl, names, nothing⟩ := Shows.name shows
  cases nothing
  have isAs : as.isIdentifier "as" = true := isIdentifier_of_names isAs "as"
  have isBound : b.isBindingName = true := isBindingName_of_names names
  have spelled : b.identifier.unplaced = ⟨default, bound.text⟩ := unplaced_of_names names
  simp only [readStar, List.cons_append, List.nil_append, Cursor.skipIf, Cursor.nextIs, isAs,
    isBound, ↓reduceIte]
  refine ⟨?_, rfl⟩
  simp [unplaced, spelled, Others.specifiers]

/-- What is imported besides the default export is read up to the word behind it. -/
theorem yields_others (others : Others) {run : List Token} (shows : Shows run others.pieces)
    (last : Token) (more : List Token) :
    Yields (readRest ⟨last, run ++ more⟩) others.specifiers more := by
  cases others with
  | star bound =>
    obtain ⟨star, run, rfl, marks, shows⟩ := Shows.mark shows
    have isStar : star.isOperator "*" = true := isOperator_of_marks marks rfl (by decide)
    simp only [readRest, List.cons_append, isStar, ↓reduceIte]
    exact yields_star bound shows more
  | list items =>
    obtain ⟨brace, run, rfl, opens, shows⟩ := Shows.mark shows
    obtain ⟨run, close, rfl, closes, shows⟩ := shows.splitMark
    have opens : brace.kind = .leftBrace := opens.kind
    have notStar : brace.isOperator "*" = false := by simp [Token.isOperator, opens]
    simp only [readRest, List.cons_append, notStar, opens, Bool.false_eq_true, ↓reduceIte,
      List.append_assoc, List.nil_append]
    exact yields_list items shows closes.kind more brace

/-- The first token of what is imported besides the default export. -/
private theorem first_of_others (others : Others) {run : List Token}
    (shows : Shows run others.pieces) :
    ∃ t later, run = t :: later ∧ (t.kind = .leftBrace ∨ t.kind = .operator ∧ t.value = "*") := by
  cases others with
  | star bound =>
    obtain ⟨star, run, rfl, marks, -⟩ := Shows.mark shows
    exact ⟨star, run, rfl, .inr ⟨marks.kind, marks.value⟩⟩
  | list items =>
    obtain ⟨brace, run, rfl, opens, -⟩ := Shows.mark shows
    exact ⟨brace, run, rfl, .inl opens.kind⟩

/-- The specifiers of a clause are the given ones, up to their places, and its source
comes next. -/
structure ReadsClause (clause : Clause) (specifiers : List ImportSpecifier) (more : List Token) :
    Prop where
  specifiers : clause.specifiers.map ImportSpecifier.unplaced = specifiers
  expectsSource : clause.expectsSource = true
  left : clause.stop.rest = more

/-- A clause is read as what it consists of if it starts with neither a source nor the
word that marks types. -/
private theorem readsClause_parts {c : Cursor} {word : Token} (before : List ImportSpecifier)
    (notSource : c.nextIs (·.kind == .string) = false) (notType : startsTypeOnly c.rest = false)
    (main : (readDefault c).1.map ImportSpecifier.unplaced = before)
    (others : Yields (readRest (readDefault c).2) after (word :: more))
    (isFrom : word.isIdentifier "from" = true) :
    ReadsClause (readClause c) (before ++ after) more := by
  obtain ⟨values, left⟩ := others
  simp only [readClause, notSource, notType, Bool.false_eq_true, ↓reduceIte]
  refine ⟨?_, ?_, ?_⟩
  · rw [List.map_append, main, values]
  · simp [Cursor.nextIs, left, isFrom]
  · simp [Cursor.skipIf, left, isFrom]

/-- The default export is read through the comma behind it. -/
private theorem readDefault_name {b : Token} (isBound : b.isBindingName = true) (last next : Token)
    (more : List Token) :
    readDefault ⟨last, b :: next :: more⟩ =
      ([⟨b.span, .default, b.identifier, b.identifier⟩],
        if next.kind = .comma then ⟨next, more⟩ else ⟨b, next :: more⟩) := by
  simp [readDefault, Cursor.nextIs, Cursor.skipIf, isBound, Token.identifier]

private theorem unplaced_default {bound : Binding} (names : Names t bound.toName) (span : Span) :
    ImportSpecifier.unplaced ⟨span, .default, t.identifier, t.identifier⟩ = bound.specifier := by
  simp [ImportSpecifier.unplaced, unplaced_of_names names, Binding.specifier]

/-- The name `type` of a default export is told from the word that marks types by the
token behind it. -/
private theorem startsTypeOnly_name (word : Token) (notBrace : next.kind ≠ .leftBrace)
    (notStar : next.isOperator "*" = false) (notBound : next.isBindingName = false)
    (more : List Token) : startsTypeOnly (word :: next :: more) = false := by
  simp [startsTypeOnly, notBrace, notStar, notBound]

/-- A clause with a name for the default export, and with a comma behind that name or
with the word `from`. -/
private theorem readsClause_main (bound : Binding) {b next word : Token} (rest : List Token)
    (names : Names b bound.toName) (notBrace : next.kind ≠ .leftBrace)
    (notStar : next.isOperator "*" = false) (notBound : next.isBindingName = false)
    (others : Yields (readRest (if next.kind = .comma then ⟨next, rest⟩ else ⟨b, next :: rest⟩))
      after (word :: more))
    (isFrom : word.isIdentifier "from" = true) (keyword : Token) :
    ReadsClause (readClause ⟨keyword, b :: next :: rest⟩) (bound.specifier :: after) more := by
  have read := readDefault_name (isBindingName_of_names names) keyword next rest
  refine readsClause_parts [bound.specifier] ?_
    (startsTypeOnly_name b notBrace notStar notBound rest) ?_ ?_ isFrom
  · simp [Cursor.nextIs, names.kind]
  · simp [read, unplaced_default names]
  · rw [read]
    exact others

/-- A clause without a name for the default export. -/
private theorem readsClause_others (others : Others) {run : List Token}
    (shows : Shows run others.pieces) (isFrom : word.isIdentifier "from" = true)
    (keyword : Token) (more : List Token) :
    ReadsClause (readClause ⟨keyword, run ++ word :: more⟩) others.specifiers more := by
  have yields := yields_others others shows keyword (word :: more)
  obtain ⟨t, later, rfl, opens⟩ := first_of_others others shows
  have notName : t.kind ≠ .identifier ∧ t.kind ≠ .string := by
    rcases opens with kind | ⟨kind, -⟩
    · simp [kind]
    · simp [kind]
  have stays : readDefault ⟨keyword, t :: later ++ word :: more⟩ =
      ([], ⟨keyword, t :: later ++ word :: more⟩) := by
    simp [readDefault, Cursor.nextIs, isBindingName_of_kind notName.1]
  refine readsClause_parts [] ?_ ?_ ?_ ?_ isFrom
  · simp [Cursor.nextIs, notName.2]
  · rw [List.cons_append]
    unfold startsTypeOnly
    split
    · rename_i same
      obtain ⟨rfl, -⟩ := List.cons.inj same
      simp [isIdentifier_of_kind notName.1]
    · rfl
  · rw [stays]
    rfl
  · rw [stays]
    exact yields

/-- Every clause is read up to the source behind it. -/
theorem reads_clause (main : Option Binding) (others : Option Others) {run : List Token}
    {literal : Token} (shows : Shows run (clausePieces main others))
    (isLiteral : literal.kind = .string) (keyword : Token) (more : List Token) :
    ReadsClause (readClause ⟨keyword, run ++ literal :: more⟩)
      (main.toList.map Binding.specifier ++ others.toList.flatMap Others.specifiers)
      (literal :: more) := by
  match main, others with
  | none, none =>
    cases shows
    simp only [readClause, List.nil_append, Cursor.nextIs, isLiteral, beq_self_eq_true, ↓reduceIte]
    exact ⟨rfl, rfl, rfl⟩
  | some bound, none =>
    obtain ⟨b, run, rfl, names, shows⟩ := Shows.name shows
    obtain ⟨word, run, rfl, isFrom, nothing⟩ := Shows.name shows
    cases nothing
    have kind : word.kind = .identifier := isFrom.kind
    have isFrom : word.isIdentifier "from" = true := isIdentifier_of_names isFrom "from"
    have notStar : word.isOperator "*" = false := by simp [Token.isOperator, kind]
    refine readsClause_main bound (literal :: more) names (by simp [kind]) notStar
      (by simp [Token.isBindingName, isFrom]) ?_ isFrom keyword
    simp only [kind, reduceCtorEq, ↓reduceIte, readRest, notStar, Bool.false_eq_true]
    exact ⟨rfl, rfl⟩
  | none, some others =>
    obtain ⟨run, last, rfl, showsOthers, showsFrom⟩ := shows.split
    obtain ⟨word, last, rfl, isFrom, nothing⟩ := Shows.name showsFrom
    cases nothing
    rw [List.append_assoc]
    simpa using readsClause_others others showsOthers (isIdentifier_of_names isFrom "from") keyword
      (literal :: more)
  | some bound, some others =>
    obtain ⟨b, run, rfl, names, shows⟩ := Shows.name shows
    obtain ⟨comma, run, rfl, separates, shows⟩ := Shows.mark shows
    obtain ⟨run, last, rfl, showsOthers, showsFrom⟩ := shows.split
    obtain ⟨word, last, rfl, isFrom, nothing⟩ := Shows.name showsFrom
    cases nothing
    have kind : comma.kind = .comma := separates.kind
    have yields := yields_others others showsOthers comma (word :: literal :: more)
    have notBound : comma.isBindingName = false := isBindingName_of_kind (by simp [kind])
    simpa using readsClause_main bound (run ++ word :: literal :: more) names
      (by simp [kind]) (by simp [Token.isOperator, kind]) notBound (by simpa [kind] using yields)
      (isIdentifier_of_names isFrom "from") keyword

/-- A clause or a source does not look like a call of `import` or like `import.meta`. -/
private theorem notCall_of_clause (main : Option Binding) (others : Option Others)
    {run : List Token} {literal : Token} (shows : Shows run (clausePieces main others))
    (isLiteral : literal.kind = .string) (keyword : Token) (more : List Token) :
    Cursor.nextIs (fun t => t.kind == .leftParen || t.isOperator ".")
      ⟨keyword, run ++ literal :: more⟩ = false := by
  match main, others with
  | none, none =>
    cases shows
    simp [Cursor.nextIs, Token.isOperator, isLiteral]
  | some bound, none | some bound, some others =>
    obtain ⟨b, run, rfl, names, -⟩ := Shows.name shows
    simp [Cursor.nextIs, Token.isOperator, names.kind]
  | none, some others =>
    obtain ⟨run, last, rfl, showsOthers, -⟩ := shows.split
    obtain ⟨t, later, rfl, opens⟩ := first_of_others others showsOthers
    rcases opens with kind | ⟨kind, value⟩
    · simp [Cursor.nextIs, Token.isOperator, kind]
    · simp [Cursor.nextIs, Token.isOperator, kind, value]

end Clauses

section Declarations
open ImportDeclaration

/-- The tokens do not go on with a semicolon. -/
def Unterminated (more : List Token) : Prop :=
  ∀ t ∈ more.head?, t.isOperator ";" = false

/-- The source of a declaration and its semicolon, if it has one. -/
private theorem skipTerminator_end (terminated : Bool) {last : Token} {run more : List Token}
    (shows : Shows run (if terminated then [.mark .semicolon] else []))
    (follows : Unterminated more) : (Cursor.skipTerminator ⟨last, run ++ more⟩).rest = more := by
  cases terminated with
  | true =>
    obtain ⟨stop, run, rfl, stops, nothing⟩ := Shows.mark shows
    cases nothing
    rw [List.cons_append, skipTerminator_cons stops]
    rfl
  | false =>
    cases shows
    cases more with
    | nil => rfl
    | cons t more => simp [Cursor.skipTerminator, Cursor.skipIf, follows t rfl]

/-- A declaration is read through its semicolon, if it has one. -/
theorem reads_declaration (sentence : Sentence) {run : List Token}
    (shows : Shows run sentence.pieces) (follows : Unterminated more) :
    ∃ keyword later, run = keyword :: later ∧ keyword.kind = .keyword ∧ keyword.value = "import" ∧
      (ImportDeclaration.read keyword (later ++ more)).1.map
        (Statement.unplaced ∘ .importDeclaration) = some sentence.tree ∧
      (ImportDeclaration.read keyword (later ++ more)).2.rest = more := by
  obtain ⟨keyword, run, rfl, isKeyword, word, shows⟩ := keyword_of_shows shows (by decide)
  obtain ⟨clause, run, rfl, showsClause, shows⟩ := Shows.split shows
  obtain ⟨literal, run, rfl, isLiteral, value, shows⟩ := Shows.uncons shows
  have isLiteral : literal.kind = .string := isLiteral
  have value : literal.value = sentence.source.text := value
  have notCall := notCall_of_clause _ _ showsClause isLiteral keyword (run ++ more)
  obtain ⟨specifiers, expectsSource, left⟩ :=
    reads_clause _ _ showsClause isLiteral keyword (run ++ more)
  have source : readSource (readClause ⟨keyword, clause ++ literal :: (run ++ more)⟩) =
      (some literal.stringLiteral, ⟨literal, run ++ more⟩) := by
    simp [readSource, expectsSource, Cursor.nextIs, Cursor.skipIf, left, isLiteral]
  refine ⟨keyword, _, rfl, isKeyword, word, ?_⟩
  simp only [List.append_assoc, List.cons_append, ImportDeclaration.read, notCall, source,
    Bool.false_eq_true, ↓reduceIte]
  refine ⟨?_, skipTerminator_end sentence.terminated shows follows⟩
  simp [Statement.unplaced, specifiers, Token.stringLiteral, value, Sentence.tree,
    Sentence.specifiers]

/-- A declaration is read, and reading goes on behind it, whether or not other
statements are of interest. -/
theorem readBody_declaration (sentence : Sentence) {run : List Token}
    (shows : Shows run sentence.pieces) (follows : Unterminated more) (importsOnly : Bool)
    (n : Nat) :
    ∃ statement, statement.unplaced = sentence.tree ∧
      (Module.readBody importsOnly (run ++ more) n).1 =
        statement :: (Module.readBody importsOnly more n).1 := by
  obtain ⟨keyword, later, rfl, isKeyword, word, read, left⟩ :=
    reads_declaration sentence shows follows
  obtain ⟨declaration, found, same⟩ := Option.map_eq_some_iff.mp read
  refine ⟨.importDeclaration declaration, same, ?_⟩
  rw [List.cons_append, Module.readBody]
  simp [Token.isEof, isKeyword, word, found, left]

/-- A declaration or the end of the source does not start with a semicolon. -/
private theorem unterminated_program (program : List Sentence) {run : List Token}
    (shows : Shows run (program.flatMap Sentence.pieces)) (stop : Position) :
    Unterminated (run ++ [Token.endOfSource stop]) := by
  intro t head
  cases program with
  | nil =>
    cases shows
    cases head
    rfl
  | cons sentence program =>
    obtain ⟨keyword, run, rfl, isKeyword, -, -⟩ := keyword_of_shows shows (by decide)
    cases head
    simp [Token.isOperator, isKeyword]

/-- The declarations are read one after the other, up to the end of the source. -/
theorem readBody_declarations (program : List Sentence) {run : List Token}
    (shows : Shows run (program.flatMap Sentence.pieces)) (stop : Position) (importsOnly : Bool)
    (n : Nat) :
    (Module.readBody importsOnly (run ++ [Token.endOfSource stop]) n).1.map Statement.unplaced =
      program.map Sentence.tree := by
  induction program generalizing run with
  | nil =>
    cases shows
    rw [List.nil_append, Module.readBody]
    rfl
  | cons sentence program ih =>
    obtain ⟨first, rest, rfl, showsFirst, showsRest⟩ := Shows.split shows
    obtain ⟨statement, same, read⟩ := readBody_declaration sentence showsFirst
      (unterminated_program program showsRest stop) importsOnly n
    rw [List.append_assoc, read, List.map_cons, same, ih showsRest, List.map_cons]

end Declarations

section Records

/-- The record of a statement does not depend on its places. -/
private theorem record_unplaced (statement : Statement) :
    ImportRecord.ofStatement? statement.unplaced = ImportRecord.ofStatement? statement := by
  cases statement with
  | importDeclaration declaration =>
    obtain ⟨span, specifiers, source⟩ := declaration
    have names : specifiers.map (fun specifier => specifier.unplaced.imported.name) =
        specifiers.map (·.imported.name) := rfl
    simp [Statement.unplaced, ImportRecord.ofStatement?, Function.comp_def, names,
      StringLiteral.unquoted]
  | defaultExport | variableDeclaration => rfl

private theorem record_tree (sentence : Sentence) :
    ImportRecord.ofStatement? sentence.tree = some sentence.record := by
  simp [Sentence.tree, ImportRecord.ofStatement?, StringLiteral.unquoted, unquoted_literal,
    Sentence.record]

/-- The records of some statements are those of the declarations that they are, up to
their places. -/
theorem records_of_trees {body : List Statement} {program : List Sentence}
    (same : body.map Statement.unplaced = program.map Sentence.tree) :
    body.filterMap ImportRecord.ofStatement? = program.map Sentence.record := by
  calc body.filterMap ImportRecord.ofStatement?
    _ = (body.map Statement.unplaced).filterMap ImportRecord.ofStatement? := by
      rw [List.filterMap_map, show ImportRecord.ofStatement? ∘ Statement.unplaced = _ from
        funext record_unplaced]
    _ = (program.map Sentence.tree).filterMap ImportRecord.ofStatement? := by rw [same]
    _ = program.map Sentence.record := by
      rw [List.filterMap_map, ← List.filterMap_eq_map]
      exact congrArg (program.filterMap ·) (funext record_tree)

end Records

/-- Import declarations, written with any white space between their pieces and with or
without semicolons, are read as exactly these declarations, whether or not other
statements are of interest. Each of them has one record, with its source and the names
that it imports. -/
theorem declarations_read_back {program : List Sentence}
    (isText : IsText (program.flatMap Sentence.pieces) source)
    (importsOnly : Bool) :
    let module := Module.ofSource source importsOnly
    module.body.map Statement.unplaced = program.map Sentence.tree ∧
      module.imports = program.map Sentence.record := by
  obtain ⟨run, stop, tokens, shows⟩ := significant_text isText
  have body : (Module.ofSource source importsOnly).body.map Statement.unplaced =
      program.map Sentence.tree := by
    rw [Module.ofSource, Module.ofTokens, tokens]
    exact readBody_declarations program shows stop importsOnly 0
  exact ⟨body, records_of_trees body⟩

/-- The words of the syntax as names, with and without a semicolon. -/
theorem declarations_read_back_words :
    let source := "import type , \x7b as as as , type , 'a' as default \x7d from 'a' " ++
      "import type from 'a' ; import * as as from 'a' import 'a' "
    (Module.ofSource source true).imports =
        [⟨"a", ["type", "as", "type", "a"]⟩, ⟨"a", ["type"]⟩, ⟨"a", ["as"]⟩, ⟨"a", []⟩] ∧
      (Module.ofSource source false).body.map Statement.unplaced =
        [.importDeclaration ⟨default,
          [⟨default, .default, ⟨default, "type"⟩, ⟨default, "type"⟩⟩,
            ⟨default, .named, ⟨default, "as"⟩, ⟨default, "as"⟩⟩,
            ⟨default, .named, ⟨default, "type"⟩, ⟨default, "type"⟩⟩,
            ⟨default, .named, ⟨default, "a"⟩, ⟨default, "default"⟩⟩], some ⟨default, "'a'"⟩⟩,
        .importDeclaration ⟨default,
          [⟨default, .default, ⟨default, "type"⟩, ⟨default, "type"⟩⟩], some ⟨default, "'a'"⟩⟩,
        .importDeclaration ⟨default,
          [⟨default, .star, ⟨default, "as"⟩, ⟨default, "as"⟩⟩], some ⟨default, "'a'"⟩⟩,
        .importDeclaration ⟨default, [], some ⟨default, "'a'"⟩⟩] := by
  intro source
  let typeName : Name := ⟨⟨"type", by decide⟩, by decide⟩
  let literal : Literal :=
    ⟨"'a'", .quoted (.inl rfl) (.plain (by decide) (by decide) (by decide) .close)⟩
  let program : List Sentence :=
    [⟨some ⟨typeName, by decide⟩, some (.list [.renamed (.word asName.toWord) asName.toWord,
        .plain typeName, .renamed (.literal literal) defaultWord]), literal, false⟩,
      ⟨some ⟨typeName, by decide⟩, none, literal, true⟩,
      ⟨none, some (.star ⟨asName, by decide⟩), literal, false⟩, ⟨none, none, literal, false⟩]
  have written : String.ofList (spaced [' '] (program.flatMap Sentence.pieces)) = source := by
    decide +kernel
  have isText : IsText (program.flatMap Sentence.pieces) source :=
    written ▸ isText_spaced _ [' '] (List.forall_mem_singleton.mpr (by decide)) (by decide)
  have inside : exportedName (.literal literal) = "a" := by decide +kernel
  refine ⟨(declarations_read_back isText true).2.trans ?_,
    (declarations_read_back isText false).1.trans ?_⟩
  · decide +kernel
  · simp only [program, List.map, Sentence.tree, Sentence.specifiers, Others.specifiers,
      Item.specifier, Option.toList, List.flatMap_cons, inside]
    rfl

end ImportAtlas.ImportClause
