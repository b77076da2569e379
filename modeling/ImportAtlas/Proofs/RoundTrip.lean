import ImportAtlas.Proofs.Numbering
import ImportAtlas.Proofs.ReadBack
import ImportAtlas.Proofs.Tiling

/-! What is written is read back. A program that is written down with any white space
between its pieces is read as the tree it stands for. -/
namespace ImportAtlas.RoundTrip
open Writing Grammar Lookahead ReadBack

private theorem ends_of_semicolon (stops : Marks stop .semicolon) (more : List Token) :
    Ends (stop :: more) := by
  have isOperator : stop.isOperator ";" = true := isOperator_of_marks stops rfl (by decide)
  exact ⟨stop, more, rfl, by simp [Cursor.isTerminator, isOperator]⟩

section Declarators
open VariableDeclaration

/-- The initial value of a variable is read up to the end of its declarator. -/
theorem reads_init (declarator : Declarator) {t : Token} {run more : List Token}
    (shows : Shows (t :: run) declarator.pieces) (ends : Ends more) (last : Token) (n : Nat) :
    Reads Expr.unplacedOption (readInit last (run ++ more) n).outcome
      (declarator.init.map (·.tree n)) more (n + declarator.count) := by
  obtain ⟨name, _ | value⟩ := declarator
  · obtain ⟨t, later, same, -, -, shows⟩ := shows.uncons
    cases same
    cases shows
    obtain ⟨t, later, rfl, terminator⟩ := ends
    have other : t.isOperator "=" = false := isOperator_of_isTerminator terminator (by decide)
    simp only [readInit, List.nil_append, other, Bool.false_eq_true, ↓reduceIte]
    exact ⟨rfl, rfl, rfl⟩
  · obtain ⟨t, later, same, -, -, shows⟩ := shows.uncons
    cases same
    obtain ⟨equals, later, rfl, separates, shows⟩ := Shows.mark shows
    have isEquals : equals.isOperator "=" = true := isOperator_of_marks separates rfl (by decide)
    have quiet : equals.endsExpression = false := not_endsExpression_of_marks separates rfl
    obtain ⟨read, rest, next⟩ := reads_value (reads_phrase value) shows quiet ends n
    obtain ⟨e, found, same⟩ := Option.map_eq_some_iff.mp read
    have found : (Expr.readValue equals (later ++ more) n).value = some e := found
    simp only [readInit, List.cons_append, isEquals, ↓reduceIte]
    refine ⟨?_, rest, next⟩
    simp [Reading.outcome, Reading.behind, Reading.widen, found, Expr.unplacedOption, same]

/-- One declarator, with a comma or the end of the declaration behind it. -/
theorem reads_declarator (declarator : Declarator) {run more : List Token}
    (shows : Shows run declarator.pieces) (ends : Ends more) :
    ∃ t rest, run = t :: rest ∧ t.kind = .identifier ∧ ∀ n,
      Reads (Option.map VariableDeclarator.unplaced) (readDeclarator t (rest ++ more) n).outcome
        (some (declarator.tree n)) more (n + declarator.count) := by
  obtain ⟨t, rest, rfl, names, -⟩ := Shows.name shows
  refine ⟨t, rest, rfl, names.kind, fun n => ?_⟩
  obtain ⟨init, left, next⟩ := reads_init declarator shows ends t n
  rw [readDeclarator, if_pos names.kind]
  refine ⟨?_, left, next⟩
  have init : Expr.unplacedOption (readInit t (rest ++ more) n).value = _ := init
  simp [Reading.outcome, VariableDeclarator.unplaced, init, unplaced_of_names names,
    Declarator.tree]

/-- The first declarator of a list, and what is read behind it. -/
private theorem readDeclarators_first (declarator : Declarator) {run : List Token}
    (shows : Shows run declarator.pieces) (ends : Ends (next :: more)) (last : Token) (n : Nat) :
    ∃ d stop, d.unplaced = declarator.tree n ∧
      (readDeclarators last (run ++ next :: more) n).outcome =
        if next.kind = .comma then
          let others := readDeclarators next more (n + declarator.count)
          (d :: others.value, others.cursor, others.nextId)
        else ([d], ⟨stop, next :: more⟩, n + declarator.count) := by
  obtain ⟨t, rest, rfl, kind, reads⟩ := reads_declarator declarator shows ends
  have first := reads n
  rw [List.cons_append, outcome_readDeclarators]
  simp only [kind, true_or, ↓reduceIte]
  generalize readDeclarator t (rest ++ next :: more) n = reading at first
  obtain ⟨value, ⟨stop, _⟩, m, fits⟩ := reading
  obtain ⟨value, rfl, rfl⟩ := first
  obtain ⟨d, rfl, same⟩ := Option.map_eq_some_iff.mp value
  exact ⟨d, stop, same, rfl⟩

/-- The declarators of a declaration are all read, up to its semicolon. -/
theorem reads_declarators (first : Declarator) (others : List Declarator) {run : List Token}
    (shows : Shows run (first.pieces ++ others.flatMap fun other => .mark .comma :: other.pieces))
    (stops : Marks stop .semicolon) (last : Token) (more : List Token) (n : Nat) :
    Reads (List.map VariableDeclarator.unplaced)
      (readDeclarators last (run ++ stop :: more) n).outcome
      (Declarator.trees (first :: others) n) (stop :: more)
      (n + Declarator.countAll (first :: others)) := by
  induction others generalizing first run last n with
  | nil =>
    obtain ⟨run, others, rfl, showsFirst, nothing⟩ := shows.split
    cases nothing
    have other : ¬stop.kind = .comma := by simp [stops.kind, Mark.kind]
    obtain ⟨d, before, same, read⟩ :=
      readDeclarators_first first showsFirst (ends_of_semicolon stops more) last n
    rw [List.append_nil, read, if_neg other]
    exact ⟨congrArg (List.cons · []) same, rfl, rfl⟩
  | cons second others ih =>
    obtain ⟨run, others, rfl, showsFirst, showsOthers⟩ := shows.split
    obtain ⟨comma, later, rfl, separates, showsOthers⟩ := Shows.mark showsOthers
    have separates : comma.kind = .comma := separates.kind
    obtain ⟨d, before, same, read⟩ := readDeclarators_first first showsFirst
      (ends_of_comma separates (later ++ stop :: more)) last n
    obtain ⟨values, left, next⟩ := ih second showsOthers comma (n + first.count)
    rw [List.append_assoc, List.cons_append, read, if_pos separates]
    refine ⟨?_, left, next.trans (Nat.add_assoc ..)⟩
    exact congrArg₂ List.cons same values

end Declarators

section Statements

theorem skipTerminator_cons (stops : Marks stop .semicolon) (last : Token) (more : List Token) :
    Cursor.skipTerminator ⟨last, stop :: more⟩ = ⟨stop, more⟩ := by
  have isOperator : stop.isOperator ";" = true := isOperator_of_marks stops rfl (by decide)
  simp [Cursor.skipTerminator, Cursor.skipIf, isOperator]

private theorem ofKeyword?_keyword (kind : VariableKind) :
    VariableKind.ofKeyword? kind.keyword = some kind := by
  cases kind with
  | _ => decide

/-- The first token of a statement is its keyword. -/
theorem keyword_of_shows {word : Writing.Word} (shows : Shows run (.word word :: pieces))
    (reserved : Token.keywords.contains word.text = true) :
    ∃ t later, run = t :: later ∧ t.kind = .keyword ∧ t.value = word.text ∧ Shows later pieces := by
  obtain ⟨t, later, rfl, kind, value, shows⟩ := shows.uncons
  refine ⟨t, later, rfl, kind.trans ?_, value, shows⟩
  simp only [Piece.kind, Token.reserve, reserved]
  rfl

/-- A variable declaration is read through its semicolon. -/
theorem reads_variables (kind : VariableKind) (first : Declarator) (others : List Declarator)
    {keyword : Token} {run : List Token} (word : keyword.value = kind.keyword)
    (shows : Shows run (first.pieces ++
      (others.flatMap (fun other => Piece.mark .comma :: other.pieces) ++ [Piece.mark .semicolon])))
    (more : List Token) (n : Nat) :
    Reads (fun declaration => Statement.unplaced (.variableDeclaration declaration))
      (VariableDeclaration.read keyword (run ++ more) n).outcome
      ((Sentence.declare kind first others).tree n) more
      (n + (Sentence.declare kind first others).count) := by
  rw [← List.append_assoc] at shows
  obtain ⟨run, stop, rfl, stops, shows⟩ := shows.splitMark
  have declarators := reads_declarators first others shows stops keyword more n
  rw [VariableDeclaration.read, List.append_assoc, List.singleton_append]
  generalize VariableDeclaration.readDeclarators keyword (run ++ stop :: more) n = reading
    at declarators
  obtain ⟨value, ⟨last, _⟩, next, fits⟩ := reading
  obtain ⟨value, rfl, rfl⟩ := declarators
  dsimp only [Reading.outcome] at value ⊢
  rw [skipTerminator_cons stops]
  refine ⟨?_, rfl, rfl⟩
  simp only [Statement.unplaced, value, word, ofKeyword?_keyword, Option.getD_some, Sentence.tree]

/-- A default export is read through its semicolon. -/
theorem reads_defaultExport (value : Phrase) {run : List Token}
    (shows : Shows run (.word defaultWord :: (value.pieces ++ [Piece.mark .semicolon])))
    (keyword : Token) (more : List Token) (n : Nat) :
    Reads (Option.map fun declaration => Statement.unplaced (.defaultExport declaration))
      (DefaultExport.read keyword (run ++ more) n).outcome
      (some ((Sentence.exportDefault value).tree n)) more
      (n + (Sentence.exportDefault value).count) := by
  obtain ⟨t, later, rfl, kind, word, shows⟩ := keyword_of_shows shows (by decide)
  obtain ⟨run, stop, rfl, stops, shows⟩ := shows.splitMark
  have isDefault : t.isKeyword "default" = true := by
    simp [Token.isKeyword, kind, word, defaultWord]
  have quiet : t.endsExpression = false := by
    simp [Token.endsExpression, kind, word, defaultWord, Token.valueKeywords]
  have ends : Ends (stop :: more) := ends_of_semicolon stops more
  have expr := reads_value (reads_phrase value) shows quiet ends n
  rw [List.cons_append, List.append_assoc, List.singleton_append, DefaultExport.read,
    if_pos isDefault]
  generalize Expr.readValue t (run ++ stop :: more) n = reading at expr
  obtain ⟨found, ⟨last, _⟩, next, fits⟩ := reading
  obtain ⟨found, rfl, rfl⟩ := expr
  obtain ⟨e, rfl, same⟩ := Option.map_eq_some_iff.mp found
  dsimp only [Reading.outcome]
  rw [skipTerminator_cons stops]
  refine ⟨?_, rfl, rfl⟩
  simp [Statement.unplaced, Expr.unplacedOption, same, Sentence.tree]

/-- A statement is read, and reading goes on behind it. -/
theorem readBody_sentence (sentence : Sentence) {run : List Token}
    (shows : Shows run sentence.pieces) (more : List Token) (n : Nat) :
    ∃ statement, statement.unplaced = sentence.tree n ∧
      (Module.readBody false (run ++ more) n).1 =
        statement :: (Module.readBody false more (n + sentence.count)).1 := by
  cases sentence with
  | declare kind first others =>
    obtain ⟨t, later, rfl, isKeyword, word, shows⟩ :=
      keyword_of_shows shows (by cases kind with | _ => decide)
    have word : t.value = kind.keyword := word
    have notImport : ¬kind.keyword = "import" := by cases kind with | _ => decide
    have notExport : ¬kind.keyword = "export" := by cases kind with | _ => decide
    obtain ⟨same, left, next⟩ := reads_variables kind first others word shows more n
    dsimp only [Reading.outcome] at same left next
    refine ⟨_, same, ?_⟩
    rw [List.cons_append, Module.readBody]
    simp [Token.isEof, isKeyword, word, notImport, notExport, ofKeyword?_keyword, left, next]
  | exportDefault value =>
    obtain ⟨t, later, rfl, isKeyword, word, shows⟩ := keyword_of_shows shows (by decide)
    have word : t.value = "export" := word
    obtain ⟨read, left, next⟩ := reads_defaultExport value shows t more n
    obtain ⟨declaration, found, same⟩ := Option.map_eq_some_iff.mp read
    dsimp only [Reading.outcome] at found left next
    refine ⟨_, same, ?_⟩
    rw [List.cons_append, Module.readBody]
    simp [Token.isEof, isKeyword, word, found, left, next]

/-- The statements of a program are read one after the other, up to the end of the
source. -/
theorem readBody_program (program : List Sentence) {run : List Token}
    (shows : Shows run (program.flatMap Sentence.pieces)) (stop : Position) (n : Nat) :
    (Module.readBody false (run ++ [Token.endOfSource stop]) n).1.map Statement.unplaced =
      Sentence.trees program n := by
  induction program generalizing run n with
  | nil =>
    cases shows
    rw [List.nil_append, Module.readBody]
    rfl
  | cons sentence program ih =>
    obtain ⟨first, rest, rfl, showsFirst, showsRest⟩ := Shows.split shows
    obtain ⟨statement, same, read⟩ :=
      readBody_sentence sentence showsFirst (rest ++ [Token.endOfSource stop]) n
    rw [List.append_assoc, read, List.map_cons, same, ih showsRest, Sentence.trees]

end Statements

/-- No piece becomes a comment or the end of the source. -/
private theorem kind_piece (p : Piece) : p.kind ≠ .comment := by
  cases p with
  | word word =>
    rcases kind_word word with kind | kind
    · simp [kind]
    · simp [kind]
  | literal | numeral => simp [Piece.kind]
  | mark m =>
    cases m with
    | _ => simp [Piece.kind, Mark.kind]

private theorem filter_shows (shows : Shows run pieces) : run.filter (·.kind != .comment) = run := by
  induction shows with
  | nil => rfl
  | cons kind _ _ ih => rw [List.filter_cons_of_pos (by simp [kind, kind_piece]), ih]

/-- The tokens of some pieces that are written down. -/
theorem significant_text (isText : IsText pieces source) :
    ∃ run stop, Module.significant (Token.ofSource source) = run ++ [Token.endOfSource stop] ∧
      Shows run pieces := by
  obtain ⟨gap, text, blank, same, written⟩ := isText
  obtain ⟨run, stop, scanned, shows⟩ := scan_written written gap blank [] .origin
  refine ⟨run, stop, ?_, shows⟩
  rw [Tiling.significant_eq_filter, Token.ofSource, same, scanned, List.reverse_nil,
    List.nil_append, List.filter_append, filter_shows shows]
  rfl

/-- The tokens of a written program are those of its pieces. -/
theorem significant_written (isSource : IsSource program source) :
    ∃ run stop, Module.significant (Token.ofSource source) = run ++ [Token.endOfSource stop] ∧
      Shows run (program.flatMap Sentence.pieces) :=
  significant_text isSource

section Numbers
open ImportAtlas.Numbering

/-- The numbers of the object literals among some nodes. -/
def numbers (nodes : List Node) : List Nat :=
  (Node.objects nodes).map (·.id)

theorem numbers_append (before after : List Node) :
    numbers (before ++ after) = numbers before ++ numbers after := by
  simp [numbers, objects_append]

mutual

/-- The numbers of an expression do not depend on its places. -/
theorem numbers_unplaced : (e : Expr) → numbers e.unplaced.walk = numbers e.walk
  | .identifier _ | .string _ | .number _ | .dynamicImport _ => rfl
  | .object ⟨_, id, properties⟩ => congrArg (id :: ·) (numbers_unplacedProperties properties)
  | .array _ elements => numbers_unplacedAll elements
  | .call _ callee arguments => by
    have first := numbers_unplaced callee
    have second := numbers_unplacedAll arguments
    simp only [numbers, Expr.unplaced, objects_call, List.map_append] at first second ⊢
    rw [first, second]
  | .arrow _ _ body _ => by
    rw [Expr.unplaced, numbers, objects_arrow, numbers, objects_arrow]
    exact numbers_unplacedOption body
  | .member _ target _ _ => by
    rw [Expr.unplaced, numbers, objects_member, numbers, objects_member]
    exact numbers_unplaced target

theorem numbers_unplacedAll : (es : List Expr) →
    numbers (Expr.walkAll (Expr.unplacedAll es)) = numbers (Expr.walkAll es)
  | [] => rfl
  | e :: es => by
    rw [Expr.unplacedAll, Expr.walkAll, numbers_append, numbers_unplaced e, numbers_unplacedAll es,
      Expr.walkAll, numbers_append]

theorem numbers_unplacedOption : (value : Option Expr) →
    numbers (Expr.walkOption (Expr.unplacedOption value)) = numbers (Expr.walkOption value)
  | none => rfl
  | some e => numbers_unplaced e

theorem numbers_unplacedProperty : (p : Property) → numbers p.unplaced.walk = numbers p.walk
  | ⟨_, _, value, shorthand, _, _⟩ => by
    have value := numbers_unplacedOption value
    cases shorthand with
    | true => simp only [numbers, Property.unplaced, objects_property, ↓reduceIte]
    | false =>
      simpa only [numbers, Property.unplaced, objects_property, Bool.false_eq_true, ↓reduceIte]
        using value

theorem numbers_unplacedProperties : (ps : List Property) →
    numbers (Property.walkAll (Property.unplacedAll ps)) = numbers (Property.walkAll ps)
  | [] => rfl
  | p :: ps => by
    rw [Property.unplacedAll, Property.walkAll, numbers_append, numbers_unplacedProperty p,
      numbers_unplacedProperties ps, Property.walkAll, numbers_append]

end

mutual

/-- The numbers of a tree are consecutive, from the one given on. -/
theorem numbers_phrase : (expr : Phrase) → (n : Nat) →
    numbers (expr.tree n).walk = List.range' n expr.count
  | .object members, n => by
    have inner := numbers_members members (n + 1)
    rw [Phrase.count, Nat.add_comm, List.range'_succ, ← inner]
    rfl
  | .simple expr, n => numbers_simple expr n

theorem numbers_simple : (expr : Simple) → (n : Nat) →
    numbers (expr.tree n).walk = List.range' n expr.count
  | .chain chain, n => numbers_chain chain n
  | .literal _, _ | .numeral _, _ => rfl
  | .array elements, n => numbers_phrases elements n
  | .arrow _ _ body, n => by
    rw [numbers, Simple.tree, objects_arrow]
    exact numbers_simple body n

theorem numbers_chain : (chain : Chain) → (n : Nat) →
    numbers (chain.tree n).walk = List.range' n chain.count
  | .name _, _ => rfl
  | .dynamicImport arguments, n => numbers_phrases arguments n
  | .member target _, n => by
    rw [numbers, Chain.tree, objects_member]
    exact numbers_chain target n
  | .call callee arguments, n => by
    have first := numbers_chain callee n
    have second := numbers_phrases arguments (n + callee.count)
    simp only [numbers, Chain.tree, Chain.count, objects_call, List.map_append] at first second ⊢
    rw [first, second, List.range'_append_1]

theorem numbers_member : (member : Member) → (n : Nat) →
    numbers (member.tree n).walk = List.range' n member.count
  | .pair _ value, n => by
    rw [numbers, Member.tree, objects_property]
    exact numbers_phrase value n
  | .shorthand _, _ => rfl
  | .method _, _ => by
    rw [numbers, Member.tree, objects_property]
    rfl

theorem numbers_phrases : (list : List Phrase) → (n : Nat) →
    numbers (Expr.walkAll (Phrase.trees list n)) = List.range' n (Phrase.countAll list)
  | [], _ => rfl
  | expr :: rest, n => by
    rw [Phrase.trees, Expr.walkAll, numbers_append, numbers_phrase expr, numbers_phrases rest,
      List.range'_append_1, Phrase.countAll]

theorem numbers_members : (list : List Member) → (n : Nat) →
    numbers (Property.walkAll (Member.trees list n)) = List.range' n (Member.countAll list)
  | [], _ => rfl
  | member :: rest, n => by
    rw [Member.trees, Property.walkAll, numbers_append, numbers_member member,
      numbers_members rest, List.range'_append_1, Member.countAll]

end

/-- The numbers of a declarator do not depend on its places. -/
private theorem numbers_unplacedDeclarators (list : List VariableDeclarator) :
    numbers ((list.map VariableDeclarator.unplaced).flatMap VariableDeclarator.walk) =
      numbers (list.flatMap VariableDeclarator.walk) := by
  induction list with
  | nil => rfl
  | cons declarator list ih =>
    have first : numbers declarator.unplaced.walk = numbers declarator.walk :=
      numbers_unplacedOption declarator.init
    rw [List.map_cons, List.flatMap_cons, numbers_append, first, ih, List.flatMap_cons,
      numbers_append]

private theorem numbers_unplacedStatement (statement : Statement) :
    numbers statement.unplaced.walk = numbers statement.walk := by
  cases statement with
  | importDeclaration declaration =>
    rw [Statement.unplaced, numbers, objects_import, numbers, objects_import]
  | defaultExport declaration => exact numbers_unplacedOption declaration.value
  | variableDeclaration declaration => exact numbers_unplacedDeclarators declaration.declarators

theorem numbers_unplacedBody (body : List Statement) :
    numbers ((body.map Statement.unplaced).flatMap Statement.walk) =
      numbers (body.flatMap Statement.walk) := by
  induction body with
  | nil => rfl
  | cons statement body ih =>
    rw [List.map_cons, List.flatMap_cons, numbers_append, numbers_unplacedStatement, ih,
      List.flatMap_cons, numbers_append]

private theorem numbers_declarators (list : List Declarator) (n : Nat) :
    numbers ((Declarator.trees list n).flatMap VariableDeclarator.walk) =
      List.range' n (Declarator.countAll list) := by
  induction list generalizing n with
  | nil => rfl
  | cons declarator list ih =>
    have first : numbers (declarator.tree n).walk = List.range' n declarator.count := by
      obtain ⟨name, _ | value⟩ := declarator
      · rfl
      · exact numbers_phrase value n
    rw [Declarator.trees, List.flatMap_cons, numbers_append, first, ih, List.range'_append_1,
      Declarator.countAll]

/-- The numbers of a program are consecutive, from the one given on. -/
theorem numbers_program (program : List Sentence) (n : Nat) :
    numbers ((Sentence.trees program n).flatMap Statement.walk) =
      List.range' n (Sentence.countAll program) := by
  induction program generalizing n with
  | nil => rfl
  | cons sentence program ih =>
    have first : numbers (sentence.tree n).walk = List.range' n sentence.count := by
      cases sentence with
      | declare kind first others => exact numbers_declarators (first :: others) n
      | exportDefault value => exact numbers_phrase value n
    rw [Sentence.trees, List.flatMap_cons, numbers_append, first, ih, List.range'_append_1,
      Sentence.countAll]

end Numbers

/-- A program of the grammar, written with any white space between its pieces, is read
as exactly its tree. The object literals of the module have the numbers from zero on,
in the order of the opening braces they start with. -/
theorem written_reads_back (isSource : IsSource program source) :
    let module := Module.ofSource source false
    module.body.map Statement.unplaced = Sentence.trees program 0 ∧
      ∃ braces : List Token, braces.Sublist (Token.ofSource source) ∧
        (∀ t ∈ braces, t.kind = .leftBrace) ∧
        (Node.objects module.walk).map (·.span.start) = braces.map (·.span.start) ∧
        (Node.objects module.walk).map (·.id) = List.range braces.length := by
  obtain ⟨run, stop, tokens, shows⟩ := significant_written isSource
  have body : (Module.ofSource source false).body.map Statement.unplaced =
      Sentence.trees program 0 := by
    rw [Module.ofSource, Module.ofTokens, tokens]
    exact readBody_program program shows stop 0
  obtain ⟨braces, sublist, kinds, starts⟩ := Numbering.opened_module (Token.ofSource source) false
  rw [Tiling.significant_eq_filter] at sublist
  refine ⟨body, braces, sublist.trans List.filter_sublist, kinds, starts, ?_⟩
  have ids := numbers_program program 0
  rw [← body, numbers_unplacedBody, ← List.range_eq_range'] at ids
  have ids : (Node.objects (Module.ofSource source false).walk).map (·.id) =
    List.range (Sentence.countAll program) := ids
  -- There are as many braces as literals, and so as many as numbers.
  have length := congrArg List.length ids
  have same := congrArg List.length starts
  simp only [List.length_map, List.length_range] at length same
  have same : (Node.objects (Module.ofSource source false).walk).length = braces.length := same
  rw [ids, ← same, length]

/-- An object literal inside another one and a method, with a line break after every
token. -/
theorem written_reads_back_nested :
    let source := "export\ndefault\n\x7b\na\n:\n\x7b\n\x7d\n,\nget\n(\n)\n\x7b\n\x7d\n\x7d\n;\n"
    (Module.ofSource source false).body.map Statement.unplaced =
      [.defaultExport ⟨default, some (.object ⟨default, 0,
        [⟨default, .identifier ⟨default, "a"⟩, some (.object ⟨default, 1, []⟩), false, false, false⟩,
          ⟨default, .identifier ⟨default, "get"⟩, none, false, false, true⟩]⟩)⟩] := by
  let program : List Sentence := [.exportDefault (.object
    [.pair (.word ⟨"a", by decide⟩) (.object []), .method (.word ⟨"get", by decide⟩)])]
  have isSource : IsSource program
      "export\ndefault\n\x7b\na\n:\n\x7b\n\x7d\n,\nget\n(\n)\n\x7b\n\x7d\n\x7d\n;\n" :=
    isSource_spaced program ['\n'] (List.forall_mem_singleton.mpr (by decide)) (by decide)
  exact (written_reads_back isSource).1

end ImportAtlas.RoundTrip
