import ImportAtlas.Proofs.Spelling

/-! Which tokens the statements of a module were read from. Import specifiers,
declarators and statements stand in lists, and what lies between two members of a
list belongs to neither. The statements that reading a module yields are spelled,
in their order, by disjoint runs of the module's tokens. -/
namespace ImportAtlas.Spelling
open Consumption

/-- A run spells some nodes, each from its first token on, with tokens between
them that belong to none. -/
inductive SpellsAll (spells : Token → List Token → Nat → α → Nat → Prop) :
    List Token → Nat → List α → Nat → Prop where
  | nil : SpellsAll spells [] n [] n
  | skip (grows : n ≤ k) (more : SpellsAll spells later k xs m) :
      SpellsAll spells (t :: later) n xs m
  | cons (first : spells t used n x k) (more : SpellsAll spells later k xs m) :
      SpellsAll spells (t :: (used ++ later)) n (x :: xs) m

theorem SpellsAll.append (first : SpellsAll spells before n xs k)
    (second : SpellsAll spells after k ys m) :
    SpellsAll spells (before ++ after) n (xs ++ ys) m := by
  induction first with
  | nil => exact second
  | skip grows _ ih => exact .skip grows (ih second)
  | cons first _ ih =>
    rw [List.cons_append, List.append_assoc]
    exact .cons first (ih second)

/-- A run that spells nothing. -/
theorem SpellsAll.none (run : List Token) : SpellsAll spells run n [] n := by
  induction run with
  | nil => exact .nil
  | cons _ _ ih => exact .skip (Nat.le_refl n) ih

theorem SpellsAll.one (spelled : spells t used n x m) :
    SpellsAll spells (t :: used) n [x] m := by
  have alone := SpellsAll.cons spelled .nil
  rwa [List.append_nil] at alone

theorem SpellsAll.le (each : ∀ {t used n x m}, spells t used n x m → n ≤ m)
    (spelled : SpellsAll spells run n xs m) : n ≤ m := by
  induction spelled with
  | nil => exact Nat.le_refl _
  | skip grows _ ih => exact Nat.le_trans grows ih
  | cons first _ ih => exact Nat.le_trans (each first) ih

/-- Every one of some nodes is spelled by a part of their run. -/
theorem SpellsAll.of_mem (spelled : SpellsAll spells run n xs m) (member : x ∈ xs) :
    ∃ t used k l, spells t used k x l ∧ (t :: used).Sublist run := by
  induction spelled with
  | nil => cases member
  | skip _ _ ih =>
    obtain ⟨t, used, k, l, spelled, within⟩ := ih member
    exact ⟨t, used, k, l, spelled, within.cons _⟩
  | cons first _ ih =>
    rcases List.mem_cons.mp member with rfl | member
    · exact ⟨_, _, _, _, first, List.sublist_append_left (_ :: _) _⟩
    · obtain ⟨t, used, k, l, spelled, within⟩ := ih member
      exact ⟨t, used, k, l, spelled, within.trans (List.sublist_append_right (_ :: _) _)⟩

/-- A specifier is spelled by the name it imports, or by the star, and what comes
before the name it binds. -/
inductive SpellsSpecifier : Token → List Token → Nat → ImportSpecifier → Nat → Prop where
  | default : SpellsSpecifier t [] n ⟨t.span, .default, t.identifier, t.identifier⟩ n
  | star : SpellsSpecifier t (before ++ [name]) n
      ⟨t.through name, .star, name.identifier, name.identifier⟩ n
  | named : SpellsSpecifier t [] n ⟨t.span, .named, t.importedName, t.importedName⟩ n
  | renamed : SpellsSpecifier t (before ++ [name]) n
      ⟨t.through name, .named, t.importedName, name.identifier⟩ n

inductive SpellsImport : Token → List Token → Nat → ImportDeclaration → Nat → Prop where
  | sourceless (specifiers : SpellsAll SpellsSpecifier used n list n)
      (ends : last = used.getLastD keyword) :
      SpellsImport keyword used n ⟨keyword.through last, list, none⟩ n
  | sourced (specifiers : SpellsAll SpellsSpecifier before n list n)
      (ends : last = after.getLastD source) :
      SpellsImport keyword (before ++ source :: after) n
        ⟨keyword.through last, list, some source.stringLiteral⟩ n

inductive SpellsExport : Token → List Token → Nat → DefaultExport → Nat → Prop where
  | valueless (ends : last = used.getLastD keyword) (grows : n ≤ m) :
      SpellsExport keyword used n ⟨keyword.through last, none⟩ m
  | valued (value : Spells t later n e m) (ends : last = (later ++ after).getLastD t) :
      SpellsExport keyword (word :: t :: (later ++ after)) n ⟨keyword.through last, some e⟩ m

inductive SpellsDeclarator : Token → List Token → Nat → VariableDeclarator → Nat → Prop where
  | valueless (ends : last = used.getLastD t) (grows : n ≤ m) :
      SpellsDeclarator t used n ⟨t.through last, t.identifier, none⟩ m
  | valued (value : Spells b later n e m) (ends : last = later.getLastD b) :
      SpellsDeclarator t (equals :: b :: later) n ⟨t.through last, t.identifier, some e⟩ m

theorem SpellsDeclarator.le : SpellsDeclarator t used n d m → n ≤ m
  | .valueless _ grows => grows
  | .valued value _ => value.le

inductive SpellsVariables : Token → List Token → Nat → VariableDeclaration → Nat → Prop where
  | declarators (list : SpellsAll SpellsDeclarator used n declarators m)
      (ends : last = used.getLastD keyword) :
      SpellsVariables keyword used n ⟨keyword.through last, kind, declarators⟩ m

theorem SpellsVariables.le : SpellsVariables t used n d m → n ≤ m
  | .declarators list _ => list.le SpellsDeclarator.le

/-- A statement is spelled from its keyword on. -/
inductive SpellsStatement : Token → List Token → Nat → Statement → Nat → Prop where
  | importDeclaration (word : t.kind = .keyword) (spelled : SpellsImport t used n d m) :
      SpellsStatement t used n (.importDeclaration d) m
  | defaultExport (word : t.kind = .keyword) (spelled : SpellsExport t used n d m) :
      SpellsStatement t used n (.defaultExport d) m
  | variableDeclaration (word : t.kind = .keyword) (spelled : SpellsVariables t used n d m) :
      SpellsStatement t used n (.variableDeclaration d) m

/-- A statement starts where its keyword starts. -/
theorem start_of_spells (spelled : SpellsStatement t used n s m) :
    s.span.start = t.span.start := by
  cases spelled with
  | importDeclaration _ spelled =>
    cases spelled with
    | sourceless => rfl
    | sourced => rfl
  | defaultExport _ spelled =>
    cases spelled with
    | valueless => rfl
    | valued => rfl
  | variableDeclaration _ spelled =>
    cases spelled with
    | declarators => rfl

/-- Specifiers never use up numbers. -/
def YieldsSpecifiers (start : Cursor) (result : List ImportSpecifier × Cursor) : Prop :=
  ∀ n, Yields (SpellsAll SpellsSpecifier) start n (result.1, result.2, n)

private theorem isEof_of_isIdentifier {t : Token} (named : t.isIdentifier word = true) :
    t.isEof = false := by
  simp only [Token.isIdentifier, Bool.and_eq_true, beq_iff_eq] at named
  exact isEof_eq_false_of_kind (by simp [named.1])

private theorem isEof_of_isBindingName {t : Token} (named : t.isBindingName = true) :
    t.isEof = false := by
  simp only [Token.isBindingName, Bool.and_eq_true, beq_iff_eq] at named
  exact isEof_eq_false_of_kind (by simp [named.1])

private theorem skipIf_eq_self {p : Token → Bool} {c : Cursor} (next : ¬c.nextIs p = true) :
    c.skipIf p = c := by
  obtain ⟨last, _ | ⟨t, rest⟩⟩ := c
  · rfl
  · have refused : ¬p t = true := next
    simp only [Cursor.skipIf, refused, Bool.false_eq_true, ↓reduceIte]

private theorem advances_skipTypeWord (first : Token) (rest : List Token) :
    Advances ⟨first, rest⟩ (ImportSpecifier.skipTypeWord first rest) := by
  unfold ImportSpecifier.skipTypeWord
  split
  · refine advances_skipIf ?_ _
    intro t accepted
    simp only [Bool.and_eq_true, beq_iff_eq] at accepted
    exact isEof_eq_false_of_kind (by simp [accepted.1])
  · exact .refl _

private theorem spells_renamed (between : List Token) :
    SpellsSpecifier t (between ++ [name]) n
      ⟨t.through name, .named, t.importedName, name.identifier⟩ n :=
  .renamed

/-- A named specifier is spelled by its first token, or behind the word `type`. -/
private theorem readNamed_yields (first : Token) (rest : List Token) (n : Nat) :
    ∃ used, Reaches ⟨first, rest⟩ used (ImportSpecifier.readNamed first rest).2 ∧
      SpellsAll SpellsSpecifier (first :: used) n [(ImportSpecifier.readNamed first rest).1] n := by
  obtain ⟨used, reached⟩ := advances_skipTypeWord first rest
  obtain ⟨before, run⟩ := reached.run_eq
  have whole (more : List Token) : first :: (used ++ more) =
      before ++ (ImportSpecifier.skipTypeWord first rest).last :: more := by
    have split := congrArg (· ++ more) run
    simpa using split
  unfold ImportSpecifier.readNamed
  dsimp only
  split
  · rename_i next
    have renamed := reaches_skipIf next fun _ => isEof_of_isIdentifier
    let c := (ImportSpecifier.skipTypeWord first rest).skipIf (·.isIdentifier "as")
    by_cases named : c.nextIs (fun t => t.kind == .identifier || t.kind == .keyword) = true
    · have bound := reaches_skipIf named (by
        intro t accepted
        simp only [Bool.or_eq_true, beq_iff_eq] at accepted
        rcases accepted with kind | kind
        · exact isEof_eq_false_of_kind (by simp [kind])
        · exact isEof_eq_false_of_kind (by simp [kind]))
      refine ⟨_, reached.trans (renamed.trans bound), ?_⟩
      rw [whole]
      exact (SpellsAll.none before).append (.one (spells_renamed [c.last]))
    · rw [skipIf_eq_self named]
      refine ⟨_, reached.trans renamed, ?_⟩
      rw [whole]
      exact (SpellsAll.none before).append (.one (spells_renamed []))
  · refine ⟨used, reached, ?_⟩
    have alone := whole []
    rw [List.append_nil] at alone
    rw [alone]
    exact (SpellsAll.none before).append (.one .named)

private theorem readList_yields (last : Token) (rest : List Token) :
    YieldsSpecifiers ⟨last, rest⟩ (ImportSpecifier.readList last rest) := by
  intro n
  fun_induction ImportSpecifier.readList last rest with
  | case1 last => exact ⟨[], .here _, .nil⟩
  | case2 last t later closes =>
    exact ⟨[t], .single (isEof_eq_false_of_kind (by simp [closes])), .none _⟩
  | case3 last t later _ comma ih =>
    obtain ⟨used, reached, spelled⟩ := ih
    exact ⟨t :: used, .step (isEof_eq_false_of_kind (by simp [comma])) reached,
      .skip (Nat.le_refl n) spelled⟩
  | case4 last t later _ _ starts named more ih =>
    obtain ⟨used, reached, spelled⟩ := readNamed_yields t later n
    obtain ⟨usedMore, reachedMore, spelledMore⟩ := ih
    have inside : t.isEof = false := by
      refine isEof_eq_false_of_kind fun eof => ?_
      simp [ImportSpecifier.startsNamed, eof] at starts
    exact ⟨t :: (used ++ usedMore), .step inside (reached.trans reachedMore),
      spelled.append spelledMore⟩
  | case5 => exact ⟨[], .here _, .nil⟩

private theorem readStar_yields (star : Token) (rest : List Token) (inside : star.isEof = false) :
    YieldsSpecifiers ⟨last, star :: rest⟩ (ImportSpecifier.readStar star rest) := by
  intro n
  obtain ⟨used, reached⟩ := advances_skipIf (p := (·.isIdentifier "as"))
    (fun _ => isEof_of_isIdentifier) ⟨star, rest⟩
  unfold ImportSpecifier.readStar
  dsimp only
  split
  · rename_i next
    have bound := reaches_skipIf next fun _ => isEof_of_isBindingName
    exact ⟨_, .step inside (reached.trans bound), .one .star⟩
  · exact ⟨_, .step inside reached, .none _⟩

private theorem readDefault_yields (c : Cursor) :
    YieldsSpecifiers c (ImportSpecifier.readDefault c) := by
  intro n
  unfold ImportSpecifier.readDefault
  split
  · rename_i next
    have bound := reaches_skipIf next fun _ => isEof_of_isBindingName
    obtain ⟨used, reached⟩ := advances_skipIf (p := (·.kind == .comma))
      (fun t comma => isEof_eq_false_of_kind (by simp_all)) (c.skipIf Token.isBindingName)
    exact ⟨_, bound.trans reached, (SpellsAll.one .default).append (.none used)⟩
  · exact ⟨[], .here _, .nil⟩

private theorem readRest_yields (c : Cursor) :
    YieldsSpecifiers c (ImportSpecifier.readRest c) := by
  obtain ⟨last, _ | ⟨t, later⟩⟩ := c
  · exact fun n => ⟨[], .here _, .nil⟩
  simp only [ImportSpecifier.readRest]
  split
  · rename_i star
    exact readStar_yields t later (isEof_eq_false_of_isOperator star)
  split
  · rename_i opens
    intro n
    obtain ⟨used, reached, spelled⟩ := readList_yields t later n
    exact ⟨t :: used, .step (isEof_eq_false_of_kind (by simp [opens])) reached,
      .skip (Nat.le_refl n) spelled⟩
  · exact fun n => ⟨[], .here _, .nil⟩

private theorem advances_skipTerminator (c : Cursor) : Advances c c.skipTerminator :=
  advances_skipIf (fun _ => isEof_eq_false_of_isOperator) c

/-- The word `type` in front of a clause, consumed. -/
private theorem advances_skipTypeOnly (c : Cursor) :
    Advances c (if ImportDeclaration.startsTypeOnly c.rest then c.skipIf fun _ => true else c) := by
  split
  · rename_i starts
    obtain ⟨last, _ | ⟨word, _ | ⟨t, later⟩⟩⟩ := c
    · simp [ImportDeclaration.startsTypeOnly] at starts
    · simp [ImportDeclaration.startsTypeOnly] at starts
    · simp only [ImportDeclaration.startsTypeOnly, Bool.and_eq_true] at starts
      exact .step (isEof_of_isIdentifier starts.1) (.refl _)
  · exact .refl _

private theorem readClause_yields (c : Cursor) :
    YieldsSpecifiers c
      ((ImportDeclaration.readClause c).specifiers, (ImportDeclaration.readClause c).stop) := by
  intro n
  unfold ImportDeclaration.readClause
  split
  · exact ⟨[], .here _, .nil⟩
  · dsimp only
    obtain ⟨word, reached⟩ := advances_skipTypeOnly c
    generalize (if ImportDeclaration.startsTypeOnly c.rest = true then
      c.skipIf fun _ => true else c) = start at reached ⊢
    obtain ⟨main, reachedMain, spelledMain⟩ := readDefault_yields start n
    obtain ⟨others, reachedOthers, spelledOthers⟩ :=
      readRest_yields (ImportSpecifier.readDefault start).2 n
    obtain ⟨source, reachedSource⟩ := advances_skipIf (p := (·.isIdentifier "from"))
      (fun _ => isEof_of_isIdentifier) (ImportSpecifier.readRest _).2
    refine ⟨_, reached.trans (reachedMain.trans (reachedOthers.trans reachedSource)), ?_⟩
    have spelled := spelledOthers.append (.none source)
    rw [List.append_nil] at spelled
    exact (SpellsAll.none word).append (spelledMain.append spelled)

/-- The source that is kept is the last token of what is consumed for it. -/
private theorem readSource_reaches (clause : ImportDeclaration.Clause) :
    ∃ used, Reaches clause.stop used (ImportDeclaration.readSource clause).2 ∧
      ((ImportDeclaration.readSource clause).1 = none ∨
        ∃ source, used = [source] ∧
          (ImportDeclaration.readSource clause).1 = some source.stringLiteral) := by
  unfold ImportDeclaration.readSource
  split
  · rename_i both
    simp only [Bool.and_eq_true] at both
    obtain ⟨stop, expected⟩ := both
    generalize clause.stop = c at expected ⊢
    obtain ⟨last, _ | ⟨t, later⟩⟩ := c
    · simp [Cursor.nextIs] at expected
    · have literal : t.kind = .string := by simpa [Cursor.nextIs] using expected
      exact ⟨[t], .single (isEof_eq_false_of_kind (by simp [literal])), .inr ⟨t, rfl, rfl⟩⟩
  · exact ⟨[], .here _, .inl rfl⟩

/-- An import declaration that is kept is spelled from its keyword on. -/
theorem readImport_yields (keyword : Token) (rest : List Token) (n : Nat) :
    Yields (Kept (SpellsImport keyword)) ⟨keyword, rest⟩ n
      ((ImportDeclaration.read keyword rest).1, (ImportDeclaration.read keyword rest).2, n) := by
  unfold ImportDeclaration.read
  split
  · exact yields_skipped ((advances_skipExpression _).trans (advances_skipTerminator _))
      (Nat.le_refl n)
  · dsimp only
    generalize clauseIs : ImportDeclaration.readClause ⟨keyword, rest⟩ = clause
    obtain ⟨used, reached, specifiers⟩ := readClause_yields ⟨keyword, rest⟩ n
    rw [clauseIs] at reached specifiers
    obtain ⟨between, reachedSource, found⟩ := readSource_reaches clause
    obtain ⟨after, reachedStop⟩ :=
      advances_skipTerminator (ImportDeclaration.readSource clause).2
    have whole := reached.trans (reachedSource.trans reachedStop)
    refine ⟨_, whole, kept_some ?_ (Nat.le_refl n)⟩
    rcases found with missing | ⟨source, rfl, found⟩
    · rw [missing]
      refine .sourceless ?_ whole.last_eq
      have spelled := specifiers.append (.none (between ++ after))
      rwa [List.append_nil] at spelled
    · rw [found]
      refine .sourced specifiers ?_
      rw [whole.last_eq]
      exact getLastD_append_cons ..

private theorem advances_skipClause (first : Token) (rest : List Token) :
    Advances ⟨first, rest⟩ (DefaultExport.skipClause first rest) := by
  have names : Advances ⟨first, rest⟩ (DefaultExport.skipNames first rest) := by
    unfold DefaultExport.skipNames
    split
    · exact advances_skipBalanced _
    · exact advances_skipExpression _
  have source (c : Cursor) : Advances c (DefaultExport.skipSource c) := by
    unfold DefaultExport.skipSource
    split
    · exact (advances_skipIf (fun _ => isEof_of_isIdentifier) c).trans
        (advances_skipIf (fun t literal => isEof_eq_false_of_kind (by simp_all)) _)
    · exact .refl _
  exact (names.trans (source _)).trans (advances_skipTerminator _)

/-- A default export that is kept is spelled from its keyword on. -/
theorem readExport_yields (keyword : Token) (rest : List Token) (n : Nat) :
    Yields (Kept (SpellsExport keyword)) ⟨keyword, rest⟩ n
      (DefaultExport.read keyword rest n).outcome := by
  obtain _ | ⟨t, later⟩ := rest
  · exact yields_skipped (.refl _) (Nat.le_refl n)
  unfold DefaultExport.read
  dsimp only
  split
  · rename_i word
    have inside : t.isEof = false := by
      simp only [Token.isKeyword, Bool.and_eq_true, beq_iff_eq] at word
      exact isEof_eq_false_of_kind (by simp [word.1])
    obtain ⟨used, reached, grows, kept⟩ := readValue_yields t later n
    obtain ⟨after, reachedStop⟩ := advances_skipTerminator (Expr.readValue t later n).cursor
    have whole : Reaches ⟨keyword, t :: later⟩ _ _ := .step inside (reached.trans reachedStop)
    refine ⟨_, whole, kept_some ?_ grows⟩
    cases value : (Expr.readValue t later n).value with
    | none => exact .valueless whole.last_eq grows
    | some e =>
      obtain ⟨first, more, rfl, spelled⟩ := kept e value
      refine .valued spelled ?_
      rw [whole.last_eq, List.getLastD_cons, List.cons_append, List.getLastD_cons]
  split
  · rename_i opens
    refine yields_skipped (.step ?_ (advances_skipClause t later)) (Nat.le_refl n)
    simp only [Bool.or_eq_true, beq_iff_eq] at opens
    rcases opens with brace | star
    · exact isEof_eq_false_of_kind (by simp [brace])
    · exact isEof_eq_false_of_isOperator star
  · exact yields_skipped (.refl _) (Nat.le_refl n)

/-- An initial value is spelled behind its equals sign. -/
private def SpellsInit (used : List Token) (n : Nat) (e : Expr) (m : Nat) : Prop :=
  ∃ equals b later, used = equals :: b :: later ∧ Spells b later n e m

private theorem readInit_yields (last : Token) (rest : List Token) (n : Nat) :
    Yields (Kept SpellsInit) ⟨last, rest⟩ n
      (VariableDeclaration.readInit last rest n).outcome := by
  obtain _ | ⟨t, later⟩ := rest
  · exact yields_skipped (.refl _) (Nat.le_refl n)
  unfold VariableDeclaration.readInit
  dsimp only
  split
  · rename_i equals
    obtain ⟨used, reached, grows, kept⟩ := readValue_yields t later n
    refine ⟨t :: used, .step (isEof_eq_false_of_isOperator equals) reached, grows, ?_⟩
    intro e value
    obtain ⟨first, more, rfl, spelled⟩ := kept e value
    exact ⟨t, first, more, rfl, spelled⟩
  · exact yields_skipped (.refl _) (Nat.le_refl n)

/-- A declarator that is kept is spelled from its name on. -/
theorem readDeclarator_yields (first : Token) (rest : List Token) (n : Nat) :
    Yields (Kept (SpellsDeclarator first)) ⟨first, rest⟩ n
      (VariableDeclaration.readDeclarator first rest n).outcome := by
  unfold VariableDeclaration.readDeclarator
  split
  · obtain ⟨used, reached, grows, kept⟩ := readInit_yields first rest n
    refine ⟨used, reached, kept_some ?_ grows⟩
    cases value : (VariableDeclaration.readInit first rest n).value with
    | none => exact .valueless reached.last_eq grows
    | some e =>
      obtain ⟨equals, b, later, rfl, spelled⟩ := kept e value
      refine .valued spelled (reached.last_eq.trans ?_)
      rw [List.getLastD_cons, List.getLastD_cons]
  · obtain ⟨used, reached, grows, -⟩ := readInit_yields
      (Cursor.skipBalanced ⟨first, rest⟩).last (Cursor.skipBalanced ⟨first, rest⟩).rest n
    exact yields_skipped (.trans (advances_skipBalanced _) ⟨used, reached⟩) grows

/-- Any run may stand before some nodes, as long as it has a token for the numbers
it uses up. -/
private theorem SpellsAll.skipRun (run : List Token) (grows : n ≤ k)
    (more : SpellsAll spells later k xs m) : SpellsAll spells (t :: (run ++ later)) n xs m :=
  .skip grows ((SpellsAll.none run).append more)

/-- A node that may have been dropped, and the nodes after it. -/
private theorem SpellsAll.consKept (kept : Kept (spells t) used n value k)
    (more : SpellsAll spells later k xs m) :
    SpellsAll spells (t :: (used ++ later)) n (value.toList ++ xs) m := by
  cases value with
  | none => exact .skipRun used kept.1 more
  | some x => exact .cons (kept.2 x rfl) more

theorem readDeclarators_yields (last : Token) (rest : List Token) (n : Nat) :
    Yields (SpellsAll SpellsDeclarator) ⟨last, rest⟩ n
      (VariableDeclaration.readDeclarators last rest n).outcome := by
  rw [VariableDeclaration.outcome_readDeclarators]
  obtain _ | ⟨t, later⟩ := rest
  · exact ⟨[], .here _, .nil⟩
  dsimp only
  split
  · rename_i starts
    have inside : t.isEof = false := by
      rcases starts with kind | kind | kind
      all_goals exact isEof_eq_false_of_kind (by simp [kind])
    have fits := (VariableDeclaration.readDeclarator t later n).fits
    obtain ⟨used, reached, kept⟩ := readDeclarator_yields t later n
    have alone := SpellsAll.consKept kept .nil
    rw [List.append_nil, List.append_nil] at alone
    split
    · rename_i ends
      exact ⟨t :: used, .step inside (ends ▸ reached), alone⟩
    · rename_i last comma after ends
      rw [ends] at fits
      have fits : after.length + 1 ≤ later.length := fits
      have reached : Reaches ⟨t, later⟩ used ⟨last, comma :: after⟩ := ends ▸ reached
      split
      · rename_i separates
        obtain ⟨more, reachedMore, spelled⟩ := readDeclarators_yields comma after
          (VariableDeclaration.readDeclarator t later n).nextId
        refine ⟨t :: (used ++ comma :: more), .step inside (reached.trans (.step ?_ reachedMore)),
          .consKept kept (.skip (Nat.le_refl _) spelled)⟩
        exact isEof_eq_false_of_kind (by simp [separates])
      · exact ⟨t :: used, .step inside reached, alone⟩
  split
  · exact ⟨[], .here _, .nil⟩
  · rename_i goes
    obtain ⟨used, reached, spelled⟩ := readDeclarators_yields t later n
    refine ⟨t :: used, .step ?_ reached, .skip (Nat.le_refl n) spelled⟩
    refine isEof_eq_false_of_kind fun eof => goes ?_
    simp [VariableDeclaration.endsList, Token.isEof, eof]
termination_by rest.length

/-- A variable declaration is spelled from its keyword on. -/
theorem readVariables_yields (keyword : Token) (rest : List Token) (n : Nat) :
    Yields (SpellsVariables keyword) ⟨keyword, rest⟩ n
      (VariableDeclaration.read keyword rest n).outcome := by
  obtain ⟨used, reached, spelled⟩ := readDeclarators_yields keyword rest n
  obtain ⟨after, reachedStop⟩ := advances_skipTerminator
    (VariableDeclaration.readDeclarators keyword rest n).cursor
  have whole := reached.trans reachedStop
  refine ⟨_, whole, .declarators ?_ whole.last_eq⟩
  have spelledAll := spelled.append (.none after)
  rwa [List.append_nil] at spelledAll

/-- A declaration that is kept makes a statement that is kept. -/
theorem keptStatement (statement : α → Statement) (kept : Kept spells used n value m)
    (each : ∀ d, spells used n d m → SpellsStatement t used n (statement d) m) :
    Kept (SpellsStatement t) used n (value.map statement) m := by
  refine ⟨kept.1, fun s same => ?_⟩
  obtain ⟨d, value, rfl⟩ := Option.map_eq_some_iff.mp same
  exact each d (kept.2 d value)

theorem toList_map (f : α → β) (value : Option α) :
    value.toList.map f = (value.map f).toList := by
  cases value with
  | none => rfl
  | some x => rfl

/-- The tokens split into ones that spell the statements and the ones left. -/
private def SpelledBefore (tokens : List Token) (n : Nat) (body : List Statement × List Token) :
    Prop :=
  ∃ used m, tokens = used ++ body.2 ∧ SpellsAll SpellsStatement used n body.1 m

/-- A statement that may have been dropped goes before the ones after it. -/
private theorem spelledBefore_cons (reached : Reaches ⟨t, later⟩ run stop)
    (kept : Kept (SpellsStatement t) run n value k) (more : SpelledBefore stop.rest k body) :
    SpelledBefore (t :: later) n (value.toList ++ body.1, body.2) := by
  obtain ⟨used, m, same, spelled⟩ := more
  refine ⟨t :: (run ++ used), m, ?_, .consKept kept spelled⟩
  rw [List.cons_append, List.append_assoc, ← same]
  exact congrArg (t :: ·) reached.rest_eq

private theorem spelledBefore_skip (t : Token) (more : SpelledBefore later n body) :
    SpelledBefore (t :: later) n body := by
  obtain ⟨used, m, same, spelled⟩ := more
  exact ⟨t :: used, m, congrArg (t :: ·) same, .skip (Nat.le_refl n) spelled⟩

private theorem spelledBefore_none (left : List Token) (n : Nat) :
    SpelledBefore left n ([], left) :=
  ⟨[], n, rfl, .nil⟩

/-- The statements of a module are spelled by the tokens it is read from, up to
the ones that are left. -/
theorem readBody_spells (importsOnly : Bool) (tokens : List Token) (n : Nat) :
    ∃ used m, tokens = used ++ (Module.readBody importsOnly tokens n).2 ∧
      SpellsAll SpellsStatement used n (Module.readBody importsOnly tokens n).1 m := by
  change SpelledBefore tokens n (Module.readBody importsOnly tokens n)
  fun_induction Module.readBody importsOnly tokens n with
  | case1 n => exact spelledBefore_none [] n
  | case2 n t later => exact spelledBefore_skip t (spelledBefore_none later n)
  | case3 n t later _ _ ih => exact spelledBefore_skip t ih
  | case4 n t later _ word _ declaration more ih =>
    obtain ⟨run, reached, kept⟩ := readImport_yields t later n
    have kept := keptStatement .importDeclaration kept
      fun _ => .importDeclaration (by simpa using word)
    have whole := spelledBefore_cons reached kept ih
    rwa [← toList_map] at whole
  | case5 n t later _ word _ _ declaration statements =>
    obtain ⟨run, reached, kept⟩ := readExport_yields t later n
    have kept := keptStatement .defaultExport kept fun _ => .defaultExport (by simpa using word)
    have alone := spelledBefore_cons reached kept (spelledBefore_none _ _)
    rwa [List.append_nil, ← toList_map] at alone
  | case6 n t later _ word _ _ declaration statements _ more ih =>
    obtain ⟨run, reached, kept⟩ := readExport_yields t later n
    have kept := keptStatement .defaultExport kept fun _ => .defaultExport (by simpa using word)
    have whole := spelledBefore_cons reached kept ih
    rwa [← toList_map] at whole
  | case7 n t later => exact spelledBefore_skip t (spelledBefore_none later n)
  | case8 n t later _ word _ _ _ _ declaration more ih =>
    obtain ⟨run, reached, spelled⟩ := readVariables_yields t later n
    have kept : Kept (SpellsStatement t) run n (some (.variableDeclaration declaration.value)) _ :=
      kept_some (.variableDeclaration (by simpa using word) spelled) spelled.le
    exact spelledBefore_cons reached kept ih
  | case9 n t later _ _ _ _ _ _ ih => exact spelledBefore_skip t ih

end ImportAtlas.Spelling
