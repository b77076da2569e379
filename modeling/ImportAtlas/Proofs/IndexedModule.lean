import ImportAtlas.Proofs.IndexedExpression

/-! Reading whole modules by index. For all tokens the reader yields what reading them one
by one yields. So none of its subscripts is ever out of range, none of its counters falls
below zero, and every turn of its loops brings it closer to the end. -/
namespace ImportAtlas.Indexed

section Stream
variable (stream : List Token)

/-- Reads the specifier of the default export and the comma after it. -/
def defaultSpecifier (last : Nat) (place : Place) : Except Fault (Found (List ImportSpecifier)) :=
  if peekIs stream Token.isBindingName place then
    match next stream place with
    | none => do
      let comma ← eat stream (·.kind == .comma) last place
      return ⟨[], comma.last, comma.place⟩
    | some (index, after) => do
      let name ← identifier stream index
      let comma ← eat stream (·.kind == .comma) index after
      return ⟨[⟨name.span, .default, name, name⟩], comma.last, comma.place⟩
  else pure ⟨[], last, place⟩

/-- Reads a specifier that binds all exports, from its star on. -/
def starSpecifier (place : Place) : Except Fault (Found (List ImportSpecifier)) :=
  match next stream place with
  | none => pure ⟨[], place.index - 1, place⟩
  | some (star, after) => do
    let word ← eat stream (·.isIdentifier "as") star after
    if peekIs stream Token.isBindingName word.place then
      match next stream word.place with
      | none => return ⟨[], word.last, word.place⟩
      | some (index, after) =>
        let name ← identifier stream index
        let span ← between stream star index
        return ⟨[⟨span, .star, name, name⟩], index, after⟩
    else return ⟨[], word.last, word.place⟩

/-- Reads the name that a specifier imports, and the word `type` in front of it. -/
def importedName (first : Nat) (place : Place) : Except Fault (Found Unit) := do
  let t ← token stream first
  if t.isIdentifier "type" then
    eat stream (fun t => t.kind == .identifier && !t.isIdentifier "as") first place
  else return ⟨(), first, place⟩

/-- Reads the name that a specifier binds, if it differs from the one it imports. -/
def boundName (imported : Nat) (place : Place) : Except Fault (Found Unit) :=
  if peekIs stream (·.isIdentifier "as") place then do
    let word ← step stream imported place
    eat stream (fun t => t.kind == .identifier || t.kind == .keyword) word.last word.place
  else pure ⟨(), imported, place⟩

/-- Reads one named specifier. -/
def namedSpecifier (place : Place) : Except Fault (Found (List ImportSpecifier)) :=
  match next stream place with
  | none => pure ⟨[], place.index - 1, place⟩
  | some (first, after) => do
    let imported ← importedName stream first after
    let t ← token stream imported.last
    let bound ← boundName stream imported.last imported.place
    let rename ←
      if bound.last = imported.last then pure t.importedName
      else identifier stream bound.last
    let span ← between stream imported.last bound.last
    return ⟨[⟨span, .named, t.importedName, rename⟩], bound.last, bound.place⟩

/-- Whether a token starts a named specifier. -/
def atNamed (t : Token) (place : Place) : Bool :=
  t.kind == .identifier || t.kind == .string ||
  (t.kind == .keyword && (peekNext stream place).any (·.isIdentifier "as"))

/-- Reads the named specifiers of a list whose opening brace has been consumed. -/
def specifierList (last : Nat) (place : Place) : Except Fault (Found (List ImportSpecifier)) := do
  match peek stream place with
  | none => return ⟨[], last, place⟩
  | some t =>
    if t.kind = .rightBrace then
      let close ← step stream last place
      return ⟨[], close.last, close.place⟩
    else if t.kind = .comma then
      let comma ← step stream last place
      let ⟨_⟩ ← advanced stream place comma.place
      specifierList comma.last comma.place
    else if atNamed stream t place then
      let named ← namedSpecifier stream place
      let ⟨_⟩ ← advanced stream place named.place
      let more ← specifierList named.last named.place
      return ⟨named.value ++ more.value, more.last, more.place⟩
    else return ⟨[], last, place⟩
termination_by unconsumed stream place

/-- Reads a list of named specifiers from its brace on. -/
def namedSpecifiers (place : Place) : Except Fault (Found (List ImportSpecifier)) :=
  match next stream place with
  | none => pure ⟨[], place.index - 1, place⟩
  | some (opening, after) => specifierList stream opening after

/-- Reads a specifier for all exports or a list of named ones. -/
def otherSpecifiers (last : Nat) (place : Place) : Except Fault (Found (List ImportSpecifier)) :=
  if peekIs stream (·.isOperator "*") place then starSpecifier stream place
  else if peekIs stream (·.kind == .leftBrace) place then namedSpecifiers stream place
  else pure ⟨[], last, place⟩

/-- Whether the word `type` stands next and marks a declaration that imports types only. -/
def atTypeOnly (place : Place) : Bool :=
  peekIs stream (·.isIdentifier "type") place &&
  (peekNext stream place).any fun t =>
    t.kind == .leftBrace || t.isOperator "*" || t.isBindingName

/-- Moves past the word `type` in front of a clause, if it marks the declaration. -/
def typeWord (keyword : Nat) (place : Place) : Except Fault (Found Unit) :=
  if atTypeOnly stream place then step stream keyword place else pure ⟨(), keyword, place⟩

/-- Reads everything up to the source of a declaration: the specifiers, and whether a
source has to follow. -/
def clause (keyword : Nat) (place : Place) :
    Except Fault (Found (List ImportSpecifier × Bool)) := do
  if peekIs stream (·.kind == .string) place then return ⟨([], true), keyword, place⟩
  else
    let start ← typeWord stream keyword place
    let main ← defaultSpecifier stream start.last start.place
    let others ← otherSpecifiers stream main.last main.place
    let expectsSource := peekIs stream (·.isIdentifier "from") others.place
    let source ← eat stream (·.isIdentifier "from") others.last others.place
    return ⟨(main.value ++ others.value, expectsSource), source.last, source.place⟩

/-- Reads the source of a declaration, if there is one. -/
def source (keyword : Nat) (expectsSource : Bool) (last : Nat) (place : Place) :
    Except Fault (Found (Option StringLiteral)) := do
  if expectsSource && peekIs stream (·.kind == .string) place then
    match next stream place with
    | none => return ⟨none, last, place⟩
    | some (index, after) =>
      let t ← token stream index
      return ⟨some t.stringLiteral, index, after⟩
  else
    let _ ← token stream keyword
    return ⟨none, last, place⟩

/-- Reads the import declaration whose keyword is at an index. -/
def importDeclaration (keyword : Nat) (place : Place) :
    Except Fault (Found (Option ImportDeclaration)) := do
  if peekIs stream (fun t => t.kind == .leftParen || t.isOperator ".") place then
    let rest ← skipExpression stream keyword place
    let stop ← eat stream (·.isOperator ";") rest.last rest.place
    let _ ← token stream keyword
    return ⟨none, stop.last, stop.place⟩
  else
    let clause ← clause stream keyword place
    let source ← source stream keyword clause.value.2 clause.last clause.place
    let stop ← eat stream (·.isOperator ";") source.last source.place
    let span ← between stream keyword stop.last
    return ⟨some ⟨span, clause.value.1, source.value⟩, stop.last, stop.place⟩

/-- Moves past the names of an export clause. -/
def exportNames (first : Nat) (place : Place) : Except Fault (Found Unit) := do
  let t ← token stream first
  if t.kind = .leftBrace then balanced stream first place
  else skipExpression stream first place

/-- Moves past the word `from` and a source after it. -/
def exportSource (last : Nat) (place : Place) : Except Fault (Found Unit) :=
  if peekIs stream (·.isIdentifier "from") place then do
    let word ← step stream last place
    eat stream (·.kind == .string) word.last word.place
  else pure ⟨(), last, place⟩

/-- Moves past an export clause. -/
def exportClause (keyword : Nat) (place : Place) : Except Fault (Found Unit) :=
  match next stream place with
  | none => pure ⟨(), keyword, place⟩
  | some (first, after) => do
    let names ← exportNames stream first after
    let source ← exportSource stream names.last names.place
    let stop ← eat stream (·.isOperator ";") source.last source.place
    let _ ← token stream stop.last
    return stop

/-- Reads the export whose keyword is at an index. -/
def exportDeclaration (keyword : Nat) (place : Place) :
    Except Fault (Found (Option DefaultExport)) := do
  match peek stream place with
  | none => return ⟨none, keyword, place⟩
  | some t =>
    if t.isKeyword "default" then
      match next stream place with
      | none => return ⟨none, keyword, place⟩
      | some (word, after) =>
        let value ← value stream word after
        let stop ← eat stream (·.isOperator ";") value.last value.place
        let span ← between stream keyword stop.last
        return ⟨some ⟨span, value.value⟩, stop.last, stop.place⟩
    else if t.kind == .leftBrace || t.isOperator "*" then
      dropped (exportClause stream keyword place)
    else return ⟨none, keyword, place⟩

/-- Reads an initial value, if there is one. -/
def initializer (last : Nat) (place : Place) : Except Fault (Found (Option Expr)) :=
  if peekIs stream (·.isOperator "=") place then
    match next stream place with
    | none => pure ⟨none, last, place⟩
    | some (equals, after) => value stream equals after
  else pure ⟨none, last, place⟩

/-- Reads the declarator whose name is at an index. -/
def namedDeclarator (first : Nat) (place : Place) :
    Except Fault (Found (Option VariableDeclarator)) := do
  let name ← identifier stream first
  let init ← initializer stream first place
  let span ← between stream first init.last
  return ⟨some ⟨span, name, init.value⟩, init.last, init.place⟩

/-- Reads past the declarator whose pattern opens at an index. -/
def patternDeclarator (opening : Nat) (place : Place) :
    Except Fault (Found (Option VariableDeclarator)) := do
  let pattern ← balanced stream opening place
  let init ← initializer stream pattern.last pattern.place
  let _ ← token stream opening
  return ⟨none, init.last, init.place⟩

/-- Reads the declarator that starts with the token at an index. -/
def declarator (t : Token) (first : Nat) (place : Place) :
    Except Fault (Found (Option VariableDeclarator)) :=
  if t.kind = .identifier then namedDeclarator stream first place
  else patternDeclarator stream first place

/-- Reads declarators as long as commas separate them. -/
def declarators (last : Nat) (place : Place) :
    Except Fault (Found (List VariableDeclarator)) := do
  match peek stream place with
  | none => return ⟨[], last, place⟩
  | some t =>
    if t.kind = .identifier ∨ t.kind = .leftBrace ∨ t.kind = .leftBracket then
      match next stream place with
      | none => return ⟨[], last, place⟩
      | some (first, after) =>
        let found ← declarator stream t first after
        if peekIs stream (·.kind == .comma) found.place then
          let comma ← step stream found.last found.place
          let ⟨_⟩ ← advanced stream place comma.place
          let more ← declarators comma.last comma.place
          return ⟨found.value.toList ++ more.value, more.last, more.place⟩
        else return ⟨found.value.toList, found.last, found.place⟩
    else if VariableDeclaration.endsList t then return ⟨[], last, place⟩
    else
      let passed ← step stream last place
      let ⟨_⟩ ← advanced stream place passed.place
      declarators passed.last passed.place
termination_by unconsumed stream place

/-- Reads the variable declaration whose keyword is at an index. -/
def variableDeclaration (keyword : Nat) (place : Place) :
    Except Fault (Found VariableDeclaration) := do
  let word ← token stream keyword
  let list ← declarators stream keyword place
  let stop ← eat stream (·.isOperator ";") list.last list.place
  let span ← between stream keyword stop.last
  return ⟨⟨span, (VariableKind.ofKeyword? word.value).getD .var, list.value⟩, stop.last,
    stop.place⟩

/-- Reads statements up to and including the end of the source, or up to the first
statement that is no import. Yields the statements and the place behind them. -/
def body (importsOnly : Bool) (place : Place) : Except Fault (List Statement × Place) :=
  match next stream place with
  | none => pure ([], place)
  | some (index, after) => do
    let t ← token stream index
    if t.isEof then return ([], after)
    else if t.kind != .keyword then
      let ⟨_⟩ ← advanced stream place after
      body importsOnly after
    else if t.value = "import" then
      let declaration ← importDeclaration stream index after
      let ⟨_⟩ ← advanced stream place declaration.place
      let more ← body importsOnly declaration.place
      return (declaration.value.toList.map .importDeclaration ++ more.1, more.2)
    else if t.value = "export" then
      let declaration ← exportDeclaration stream index after
      let statements := declaration.value.toList.map Statement.defaultExport
      if importsOnly then return (statements, declaration.place)
      else
        let ⟨_⟩ ← advanced stream place declaration.place
        let more ← body importsOnly declaration.place
        return (statements ++ more.1, more.2)
    else if importsOnly then return ([], after)
    else if (VariableKind.ofKeyword? t.value).isSome then
      let declaration ← variableDeclaration stream index after
      let ⟨_⟩ ← advanced stream place declaration.place
      let more ← body importsOnly declaration.place
      return (.variableDeclaration declaration.value :: more.1, more.2)
    else
      let ⟨_⟩ ← advanced stream place after
      body importsOnly after
termination_by unconsumed stream place

end Stream

/-- Reads a module, and counts the tokens consumed for it. -/
def parse (tokens : List Token) (importsOnly : Bool) : Except Fault (Module × Nat) := do
  let stream := Module.significant tokens
  let (statements, stop) ← body stream importsOnly ⟨0, 0⟩
  return (⟨⟨.origin, Module.stopOf stream⟩, statements⟩, stop.index)

section Imports
variable {stream : List Token}

theorem defaultSpecifier_agrees (stands : Stands stream i c) :
    Agrees stream (defaultSpecifier stream i ⟨i + 1, n⟩)
      ((ImportSpecifier.readDefault c).1, (ImportSpecifier.readDefault c).2, n) := by
  unfold defaultSpecifier ImportSpecifier.readDefault
  rw [peekIs_eq stands]
  obtain ⟨last, _ | ⟨t, rest⟩⟩ := c
  · exact agrees_pure stands []
  by_cases named : t.isBindingName
  · simp only [Cursor.nextIs, Cursor.skipIf, named, ↓reduceIte]
    rw [next_cons stands]
    apply settles_identifier stands.next.token
    apply settles_bind (eat_agrees stands.next _)
    intro j behind
    exact agrees_pure behind _
  · simp only [Cursor.nextIs, named, Bool.false_eq_true, ↓reduceIte]
    exact agrees_pure stands []

theorem starSpecifier_agrees (stands : Stands stream i ⟨last, first :: rest⟩) :
    Agrees stream (starSpecifier stream ⟨i + 1, n⟩)
      ((ImportSpecifier.readStar first rest).1, (ImportSpecifier.readStar first rest).2, n) := by
  unfold starSpecifier ImportSpecifier.readStar
  rw [next_cons stands]
  apply settles_bind (eat_agrees stands.next _)
  intro j behind
  dsimp only at behind ⊢
  rw [peekIs_eq behind]
  generalize Cursor.skipIf (·.isIdentifier "as") ⟨first, rest⟩ = c at behind ⊢
  obtain ⟨word, _ | ⟨t, later⟩⟩ := c
  · exact agrees_pure behind []
  by_cases named : t.isBindingName
  · simp only [Cursor.nextIs, Cursor.skipIf, named, ↓reduceIte]
    rw [next_cons behind]
    apply settles_identifier behind.next.token
    apply settles_between stands.next.token behind.next.token
    exact agrees_pure behind.next _
  · simp only [Cursor.nextIs, named, Bool.false_eq_true, ↓reduceIte]
    exact agrees_pure behind []

theorem importedName_agrees (stands : Stands stream i ⟨first, rest⟩) :
    Agrees stream (importedName stream i ⟨i + 1, n⟩)
      ((), ImportSpecifier.skipTypeWord first rest, n) := by
  unfold importedName ImportSpecifier.skipTypeWord
  apply settles_token stands.token
  split
  · exact eat_agrees stands _
  · exact agrees_pure stands ()

/-- A place that is further on has another index. -/
theorem ne_of_shorter (before : Stands stream i c) (after : Stands stream j d)
    (shorter : d.rest.length < c.rest.length) : j ≠ i := by
  rintro rfl
  rw [← before.drop, ← after.drop] at shorter
  exact Nat.lt_irrefl _ shorter

/-- The word `as` and the name behind it. -/
theorem boundName_agrees (stands : Stands stream i c) (renamed : c.nextIs (·.isIdentifier "as")) :
    Agrees stream (boundName stream i ⟨i + 1, n⟩)
      ((), (c.skipIf (·.isIdentifier "as")).skipIf fun t =>
        t.kind == .identifier || t.kind == .keyword, n) := by
  unfold boundName
  rw [peekIs_eq stands, if_pos renamed]
  obtain ⟨last, _ | ⟨t, rest⟩⟩ := c
  · cases renamed
  · have word : t.isIdentifier "as" := renamed
    simp only [Cursor.skipIf.eq_def (·.isIdentifier "as"), word, ↓reduceIte]
    apply settles_bind (step_agrees stands i)
    intro j behind
    exact eat_agrees behind _

/-- Behind the word `as`, fewer tokens are left. -/
private theorem length_bound_lt {c : Cursor} (renamed : c.nextIs (·.isIdentifier "as"))
    (p : Token → Bool) :
    ((c.skipIf (·.isIdentifier "as")).skipIf p).rest.length < c.rest.length := by
  refine Nat.lt_of_le_of_lt (Cursor.length_skipIf_le ..) ?_
  obtain ⟨last, _ | ⟨t, rest⟩⟩ := c
  · cases renamed
  · have word : t.isIdentifier "as" := renamed
    simp only [Cursor.skipIf, word, ↓reduceIte]
    exact Nat.lt_succ_self _

theorem namedSpecifier_agrees (stands : Stands stream i ⟨last, first :: rest⟩) :
    Agrees stream (namedSpecifier stream ⟨i + 1, n⟩)
      ([(ImportSpecifier.readNamed first rest).1], (ImportSpecifier.readNamed first rest).2,
        n) := by
  unfold namedSpecifier ImportSpecifier.readNamed
  rw [next_cons stands]
  apply settles_bind (importedName_agrees stands.next)
  intro j behind
  dsimp only at behind ⊢
  generalize ImportSpecifier.skipTypeWord first rest = imported at behind ⊢
  apply settles_token behind.token
  by_cases renamed : imported.nextIs (·.isIdentifier "as")
  · rw [if_pos renamed]
    apply settles_bind (boundName_agrees behind renamed)
    intro k bound
    -- The reader tells the two names apart by their indices.
    have other : k ≠ j := ne_of_shorter behind bound (length_bound_lt renamed _)
    dsimp only
    rw [if_neg other]
    apply settles_identifier bound.token
    apply settles_between behind.token bound.token
    exact agrees_pure bound _
  · have plain : boundName stream j ⟨j + 1, n⟩ = pure ⟨(), j, ⟨j + 1, n⟩⟩ := by
      unfold boundName
      rw [peekIs_eq behind, if_neg renamed]
    rw [if_neg renamed, plain, pure_bind]
    dsimp only
    rw [if_pos rfl]
    apply settles_between behind.token behind.token
    exact agrees_pure behind _

theorem atNamed_eq (stands : Stands stream i ⟨last, t :: rest⟩) :
    atNamed stream t ⟨i + 1, n⟩ = ImportSpecifier.startsNamed t rest := by
  unfold atNamed ImportSpecifier.startsNamed
  rw [peekNext_eq stands]
  obtain _ | ⟨u, later⟩ := rest
  · rfl
  · rfl

theorem specifierList_agrees (last : Token) (rest : List Token)
    (stands : Stands stream i ⟨last, rest⟩) :
    Agrees stream (specifierList stream i ⟨i + 1, n⟩)
      ((ImportSpecifier.readList last rest).1, (ImportSpecifier.readList last rest).2, n) := by
  rw [specifierList, ImportSpecifier.readList.eq_def, peek_eq stands]
  obtain _ | ⟨t, later⟩ := rest
  · exact agrees_pure stands []
  dsimp only [List.head?_cons]
  by_cases closes : t.kind = .rightBrace
  · rw [if_pos closes, if_pos closes]
    apply settles_bind (step_agrees stands i)
    intro j behind
    exact agrees_pure behind []
  rw [if_neg closes, if_neg closes]
  by_cases comma : t.kind = .comma
  · rw [if_pos comma, if_pos comma]
    apply settles_bind (step_agrees stands i)
    intro j behind
    apply settles_advanced stands behind (Nat.lt_succ_self _)
    intro less
    exact specifierList_agrees t later behind
  rw [if_neg comma, if_neg comma, atNamed_eq stands]
  by_cases named : ImportSpecifier.startsNamed t later
  · rw [if_pos named, if_pos named]
    have fits := ImportSpecifier.length_readNamed_le t later
    apply settles_bind (namedSpecifier_agrees stands)
    intro j behind
    apply settles_advanced stands behind (Nat.lt_succ_of_le fits)
    intro less
    apply settles_bind (specifierList_agrees (ImportSpecifier.readNamed t later).2.last
      (ImportSpecifier.readNamed t later).2.rest behind)
    intro k behind
    exact agrees_pure behind _
  · rw [if_neg named, if_neg named]
    exact agrees_pure stands []
termination_by unconsumed stream ⟨i + 1, n⟩

theorem otherSpecifiers_agrees (stands : Stands stream i c) :
    Agrees stream (otherSpecifiers stream i ⟨i + 1, n⟩)
      ((ImportSpecifier.readRest c).1, (ImportSpecifier.readRest c).2, n) := by
  unfold otherSpecifiers ImportSpecifier.readRest
  rw [peekIs_eq stands, peekIs_eq stands]
  obtain ⟨last, _ | ⟨t, rest⟩⟩ := c
  · exact agrees_pure stands []
  simp only [Cursor.nextIs, beq_iff_eq]
  by_cases star : t.isOperator "*"
  · rw [if_pos star, if_pos star]
    exact starSpecifier_agrees stands
  rw [if_neg star, if_neg star]
  by_cases opens : t.kind = .leftBrace
  · rw [if_pos opens, if_pos opens]
    unfold namedSpecifiers
    rw [next_cons stands]
    exact specifierList_agrees t rest stands.next
  · rw [if_neg opens, if_neg opens]
    exact agrees_pure stands []

theorem atTypeOnly_eq (stands : Stands stream i c) :
    atTypeOnly stream ⟨i + 1, n⟩ = ImportDeclaration.startsTypeOnly c.rest := by
  unfold atTypeOnly
  rw [peekIs_eq stands]
  obtain ⟨last, _ | ⟨t, _ | ⟨u, rest⟩⟩⟩ := c
  · rfl
  · rw [peekNext_eq stands]
    simp [ImportDeclaration.startsTypeOnly]
  · rw [peekNext_eq stands]
    rfl

theorem typeWord_agrees (stands : Stands stream i c) :
    Agrees stream (typeWord stream i ⟨i + 1, n⟩)
      ((), if ImportDeclaration.startsTypeOnly c.rest then c.skipIf fun _ => true else c, n) := by
  unfold typeWord
  rw [atTypeOnly_eq stands]
  by_cases marked : ImportDeclaration.startsTypeOnly c.rest
  · rw [if_pos marked, if_pos marked]
    obtain ⟨last, _ | ⟨t, rest⟩⟩ := c
    · cases marked
    · exact step_agrees stands i
  · rw [if_neg marked, if_neg marked]
    exact agrees_pure stands ()

theorem clause_agrees (stands : Stands stream i c) :
    Agrees stream (clause stream i ⟨i + 1, n⟩)
      (((ImportDeclaration.readClause c).specifiers,
        (ImportDeclaration.readClause c).expectsSource),
        (ImportDeclaration.readClause c).stop, n) := by
  unfold clause ImportDeclaration.readClause
  rw [peekIs_eq stands]
  by_cases bare : c.nextIs (·.kind == .string)
  · rw [if_pos bare, if_pos bare]
    exact agrees_pure stands _
  rw [if_neg bare, if_neg bare]
  apply settles_bind (typeWord_agrees stands)
  intro j behind
  apply settles_bind (defaultSpecifier_agrees behind)
  intro j behind
  apply settles_bind (otherSpecifiers_agrees behind)
  intro j behind
  dsimp only at behind ⊢
  rw [peekIs_eq behind]
  apply settles_bind (eat_agrees behind _)
  intro j behind
  exact agrees_pure behind _

theorem source_agrees (begins : stream[s]? = some keyword) (read : ImportDeclaration.Clause)
    (stands : Stands stream i read.stop) :
    Agrees stream (source stream s read.expectsSource i ⟨i + 1, n⟩)
      ((ImportDeclaration.readSource read).1, (ImportDeclaration.readSource read).2, n) := by
  unfold source ImportDeclaration.readSource
  rw [peekIs_eq stands]
  by_cases follows : read.expectsSource && read.stop.nextIs (·.kind == .string)
  · rw [if_pos follows, if_pos follows]
    obtain ⟨specifiers, expectsSource, last, _ | ⟨t, rest⟩⟩ := read
    · simp [Cursor.nextIs] at follows
    · rw [next_cons stands]
      apply settles_token stands.next.token
      exact agrees_pure stands.next _
  · rw [if_neg follows, if_neg follows]
    apply settles_token begins
    exact agrees_pure stands none

theorem importDeclaration_agrees (stands : Stands stream i ⟨keyword, rest⟩) :
    Agrees stream (importDeclaration stream i ⟨i + 1, n⟩)
      ((ImportDeclaration.read keyword rest).1, (ImportDeclaration.read keyword rest).2, n) := by
  unfold importDeclaration ImportDeclaration.read
  rw [peekIs_eq stands]
  by_cases call : Cursor.nextIs (fun t => t.kind == .leftParen || t.isOperator ".") ⟨keyword, rest⟩
  · rw [if_pos call, if_pos call]
    apply settles_bind (skipExpression_agrees stands)
    intro j behind
    apply settles_bind (eat_agrees behind _)
    intro j behind
    apply settles_token stands.token
    exact agrees_pure behind none
  · rw [if_neg call, if_neg call]
    apply settles_bind (clause_agrees stands)
    intro j behind
    apply settles_bind (source_agrees stands.token _ behind)
    intro j behind
    apply settles_bind (eat_agrees behind _)
    intro j behind
    apply settles_between stands.token behind.token
    exact agrees_pure behind _

end Imports

section Exports
variable {stream : List Token}

theorem exportClause_agrees (stands : Stands stream i ⟨last, first :: rest⟩) :
    Agrees stream (exportClause stream i ⟨i + 1, n⟩)
      ((), DefaultExport.skipClause first rest, n) := by
  have names : Agrees stream (exportNames stream (i + 1) ⟨i + 1 + 1, n⟩)
      ((), DefaultExport.skipNames first rest, n) := by
    unfold exportNames DefaultExport.skipNames
    apply settles_token stands.next.token
    split
    · exact balanced_agrees stands.next
    · exact skipExpression_agrees stands.next
  have source {j : Nat} {c : Cursor} (stands : Stands stream j c) :
      Agrees stream (exportSource stream j ⟨j + 1, n⟩) ((), DefaultExport.skipSource c, n) := by
    unfold exportSource DefaultExport.skipSource
    rw [peekIs_eq stands]
    by_cases word : c.nextIs (·.isIdentifier "from")
    · rw [if_pos word, if_pos word]
      obtain ⟨last, _ | ⟨t, rest⟩⟩ := c
      · cases word
      · have word : t.isIdentifier "from" := word
        simp only [Cursor.skipIf.eq_def (·.isIdentifier "from"), word, ↓reduceIte]
        apply settles_bind (step_agrees stands j)
        intro k behind
        exact eat_agrees behind _
    · rw [if_neg word, if_neg word]
      exact agrees_pure stands ()
  unfold exportClause
  rw [next_cons stands]
  apply settles_bind names
  intro j behind
  apply settles_bind (source behind)
  intro j behind
  apply settles_bind (eat_agrees behind _)
  intro j behind
  apply settles_token behind.token
  exact agrees_pure behind ()

theorem exportDeclaration_agrees (stands : Stands stream i ⟨keyword, rest⟩) :
    Agrees stream (exportDeclaration stream i ⟨i + 1, n⟩)
      (DefaultExport.read keyword rest n).outcome := by
  unfold exportDeclaration
  rw [peek_eq stands]
  obtain _ | ⟨t, later⟩ := rest
  · exact agrees_pure stands none
  unfold DefaultExport.read
  dsimp only [List.head?_cons]
  by_cases isDefault : t.isKeyword "default"
  · rw [if_pos isDefault, if_pos isDefault, next_cons stands]
    apply settles_reading (value_agrees t later n stands.next)
    intro j behind
    apply settles_bind (eat_agrees behind _)
    intro j behind
    apply settles_between stands.token behind.token
    exact agrees_pure behind _
  rw [if_neg isDefault, if_neg isDefault]
  by_cases listed : t.kind == .leftBrace || t.isOperator "*"
  · rw [if_pos listed, if_pos listed]
    exact agrees_dropped (exportClause_agrees stands)
  · rw [if_neg listed, if_neg listed]
    exact agrees_pure stands none

end Exports

section Variables
variable {stream : List Token}

theorem initializer_agrees (stands : Stands stream i ⟨last, rest⟩) :
    Agrees stream (initializer stream i ⟨i + 1, n⟩)
      (VariableDeclaration.readInit last rest n).outcome := by
  unfold initializer
  rw [peekIs_eq stands]
  obtain _ | ⟨t, later⟩ := rest
  · exact agrees_pure stands none
  unfold VariableDeclaration.readInit
  by_cases equals : t.isOperator "="
  · simp only [Cursor.nextIs, equals, ↓reduceIte]
    rw [next_cons stands]
    exact value_agrees t later n stands.next
  · simp only [Cursor.nextIs, equals, Bool.false_eq_true, ↓reduceIte]
    exact agrees_pure stands none

theorem declarator_agrees (stands : Stands stream i ⟨first, rest⟩) :
    Agrees stream (declarator stream first i ⟨i + 1, n⟩)
      (VariableDeclaration.readDeclarator first rest n).outcome := by
  unfold declarator VariableDeclaration.readDeclarator
  by_cases named : first.kind = .identifier
  · rw [if_pos named, if_pos named]
    unfold namedDeclarator
    apply settles_identifier stands.token
    apply settles_reading (initializer_agrees stands)
    intro j behind
    apply settles_between stands.token behind.token
    exact agrees_pure behind _
  · rw [if_neg named, if_neg named]
    unfold patternDeclarator
    apply settles_bind (balanced_agrees stands)
    intro j behind
    apply settles_reading (initializer_agrees behind)
    intro j behind
    apply settles_token stands.token
    exact agrees_pure behind none

theorem declarators_agrees (last : Token) (rest : List Token) (n : Nat)
    (stands : Stands stream i ⟨last, rest⟩) :
    Agrees stream (declarators stream i ⟨i + 1, n⟩)
      (VariableDeclaration.readDeclarators last rest n).outcome := by
  rw [declarators, VariableDeclaration.outcome_readDeclarators, peek_eq stands]
  obtain _ | ⟨t, later⟩ := rest
  · exact agrees_pure stands []
  dsimp only [List.head?_cons]
  by_cases starts : t.kind = .identifier ∨ t.kind = .leftBrace ∨ t.kind = .leftBracket
  · rw [if_pos starts, if_pos starts, next_cons stands]
    have fits := (VariableDeclaration.readDeclarator t later n).fits
    apply settles_reading (declarator_agrees stands.next)
    intro j behind
    dsimp only at behind ⊢
    rw [peekIs_eq behind]
    generalize (VariableDeclaration.readDeclarator t later n).cursor = c at fits behind ⊢
    obtain ⟨last, _ | ⟨comma, after⟩⟩ := c
    · exact agrees_pure behind _
    simp only [Cursor.nextIs, beq_iff_eq]
    by_cases separates : comma.kind = .comma
    · rw [if_pos separates, if_pos separates]
      apply settles_bind (step_agrees behind j)
      intro k behind
      apply settles_advanced stands behind (Nat.lt_succ_of_le (Nat.le_of_succ_le fits))
      intro less
      apply settles_reading (declarators_agrees comma after _ behind)
      intro k behind
      exact agrees_pure behind _
    · rw [if_neg separates, if_neg separates]
      exact agrees_pure behind _
  rw [if_neg starts, if_neg starts]
  by_cases ends : VariableDeclaration.endsList t
  · rw [if_pos ends, if_pos ends]
    exact agrees_pure stands []
  · rw [if_neg ends, if_neg ends]
    apply settles_bind (step_agrees stands i)
    intro j behind
    apply settles_advanced stands behind (Nat.lt_succ_self _)
    intro less
    exact declarators_agrees t later n behind
termination_by unconsumed stream ⟨i + 1, n⟩

theorem variableDeclaration_agrees (stands : Stands stream i ⟨keyword, rest⟩) :
    Agrees stream (variableDeclaration stream i ⟨i + 1, n⟩)
      (VariableDeclaration.read keyword rest n).outcome := by
  unfold variableDeclaration VariableDeclaration.read
  apply settles_token stands.token
  apply settles_reading (declarators_agrees keyword rest n stands)
  intro j behind
  apply settles_bind (eat_agrees behind _)
  intro j behind
  apply settles_between stands.token behind.token
  exact agrees_pure behind _

end Variables

section Modules
variable {stream : List Token}

/-- A reader is at a place with the given tokens to come. -/
structure Faces (stream : List Token) (place : Place) (rest : List Token) : Prop where
  within : place.index ≤ stream.length
  ahead : stream.drop place.index = rest

theorem Faces.stands (faces : Faces stream ⟨i, n⟩ (t :: rest)) : Stands stream i ⟨t, rest⟩ :=
  faces.ahead

theorem Stands.faces (stands : Stands stream i c) (n : Nat) : Faces stream ⟨i + 1, n⟩ c.rest :=
  ⟨(List.getElem?_eq_some_iff.mp stands.token).1, stands.drop⟩

/-- A statement brings a reader closer to the end. -/
theorem unconsumed_lt_here (n m : Nat) (before : Stands stream i ⟨t, rest⟩)
    (after : Stands stream j c) (fits : c.rest.length ≤ rest.length) :
    unconsumed stream ⟨j + 1, m⟩ < unconsumed stream ⟨i, n⟩ := by
  have here : stream.length - i = rest.length + 1 := by
    rw [← List.length_drop, before, List.length_cons]
  rw [unconsumed_eq after, unconsumed, here]
  exact Nat.lt_succ_of_le fits

/-- A run over statements does not fault, and ends where it should with what it should. -/
abbrev Finds (stream : List Token) (run : Except Fault (List Statement × Place))
    (found : List Statement × List Token) : Prop :=
  Settles run fun (statements, place) => statements = found.1 ∧ Faces stream place found.2

/-- Statements that have been read go before the ones that are still to come. -/
theorem finds_more {run : Except Fault (List Statement × Place)}
    (more : Finds stream run found) (statements : List Statement) :
    Finds stream (do let rest ← run; return (statements ++ rest.1, rest.2))
      (statements ++ found.1, found.2) := by
  obtain ⟨⟨_, place⟩, rfl, rfl, faces⟩ := more
  exact ⟨_, rfl, rfl, faces⟩

theorem body_finds (importsOnly : Bool) (rest : List Token) (n : Nat)
    (faces : Faces stream ⟨i, n⟩ rest) :
    Finds stream (body stream importsOnly ⟨i, n⟩) (Module.readBody importsOnly rest n) := by
  rw [body, Module.readBody.eq_def]
  obtain _ | ⟨t, later⟩ := rest
  · have none : stream.length ≤ i := List.drop_eq_nil_iff.mp faces.ahead
    rw [next, if_neg (Nat.not_lt.mpr none)]
    exact ⟨_, rfl, rfl, faces⟩
  have stands := faces.stands
  have passed := unconsumed_lt_here n n stands stands (Nat.le_refl _)
  rw [next_here stands]
  apply settles_token stands.token
  dsimp only
  by_cases ends : t.isEof
  · rw [if_pos ends, if_pos ends]
    exact ⟨_, rfl, rfl, stands.faces n⟩
  rw [if_neg ends, if_neg ends]
  by_cases other : t.kind != .keyword
  · rw [if_pos other, if_pos other]
    apply settles_less passed
    exact body_finds importsOnly later n (stands.faces n)
  rw [if_neg other, if_neg other]
  by_cases isImport : t.value = "import"
  · rw [if_pos isImport, if_pos isImport]
    apply settles_bind (importDeclaration_agrees stands)
    intro j behind
    have less := unconsumed_lt_here n n stands behind (ImportDeclaration.length_read_le t later)
    apply settles_less less
    exact finds_more (body_finds importsOnly _ n (behind.faces n)) _
  rw [if_neg isImport, if_neg isImport]
  by_cases isExport : t.value = "export"
  · rw [if_pos isExport, if_pos isExport]
    apply settles_reading (exportDeclaration_agrees stands)
    intro j behind
    dsimp only
    by_cases only : importsOnly
    · rw [if_pos only, if_pos only]
      exact ⟨_, rfl, rfl, behind.faces _⟩
    · rw [if_neg only, if_neg only]
      have less := unconsumed_lt_here n (DefaultExport.read t later n).nextId stands behind
        (DefaultExport.read t later n).fits
      apply settles_less less
      exact finds_more (body_finds importsOnly _ _ (behind.faces _)) _
  rw [if_neg isExport, if_neg isExport]
  by_cases only : importsOnly
  · rw [if_pos only, if_pos only]
    exact ⟨_, rfl, rfl, stands.faces n⟩
  rw [if_neg only, if_neg only]
  by_cases isVariable : (VariableKind.ofKeyword? t.value).isSome
  · rw [if_pos isVariable, if_pos isVariable]
    apply settles_reading (variableDeclaration_agrees stands)
    intro j behind
    have less := unconsumed_lt_here n (VariableDeclaration.read t later n).nextId stands behind
      (VariableDeclaration.read t later n).fits
    apply settles_less less
    exact finds_more (body_finds importsOnly _ _ (behind.faces _)) [_]
  · rw [if_neg isVariable, if_neg isVariable]
    apply settles_less passed
    exact body_finds importsOnly later n (stands.faces n)
termination_by unconsumed stream ⟨i, n⟩

end Modules

/-- Reading by index never faults, on any tokens whatsoever: the module is the one that
reading the tokens one by one yields, and as many of them are consumed. -/
theorem parse_never_faults (tokens : List Token) (importsOnly : Bool) :
    parse tokens importsOnly =
      .ok (Module.ofTokens tokens importsOnly, Module.consumed tokens importsOnly) := by
  have start : Faces (Module.significant tokens) ⟨0, 0⟩ (Module.significant tokens) :=
    ⟨Nat.zero_le _, rfl⟩
  obtain ⟨⟨_, place⟩, run, rfl, within, ahead⟩ :=
    body_finds importsOnly (Module.significant tokens) 0 start
  have left : (Module.significant tokens).length - place.index =
      (Module.readBody importsOnly (Module.significant tokens) 0).2.length := by
    rw [← ahead, List.length_drop]
  have count : place.index = Module.consumed tokens importsOnly := by
    unfold Module.consumed
    dsimp only
    omega
  unfold parse
  dsimp only
  rw [run, pure_bind, count]
  rfl

end ImportAtlas.Indexed
