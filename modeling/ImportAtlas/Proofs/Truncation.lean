import ImportAtlas.Proofs.ModuleSpelling

/-! Reading imports only is reading everything and stopping early. Both readings take up
the same tokens with the same numbers up to the first keyword that starts no import. A
full reading goes on from there, and ends behind the first end of the source. -/
namespace ImportAtlas

/-- One turn of a full reading: the token that it takes up, the statement that starts
there, if one is kept, and what is left for the next turn. -/
structure Turn where
  first : Token
  statement : Option Statement
  left : List Token
  nextId : Nat

namespace Turn

/-- The turn that takes up a token. A token that starts no statement is passed over. -/
def take (t : Token) (later : List Token) (n : Nat) : Turn :=
  if t.kind ≠ .keyword then ⟨t, none, later, n⟩
  else if t.value = "import" then
    let declaration := ImportDeclaration.read t later
    ⟨t, declaration.1.map .importDeclaration, declaration.2.rest, n⟩
  else if t.value = "export" then
    let declaration := DefaultExport.read t later n
    ⟨t, declaration.value.map .defaultExport, declaration.cursor.rest, declaration.nextId⟩
  else if (VariableKind.ofKeyword? t.value).isSome then
    let declaration := VariableDeclaration.read t later n
    ⟨t, some (.variableDeclaration declaration.value), declaration.cursor.rest,
      declaration.nextId⟩
  else ⟨t, none, later, n⟩

/-- Whether a turn takes up a keyword that starts no import. -/
def halts (turn : Turn) : Bool :=
  turn.first.kind == .keyword && turn.first.value != "import"

/-- The default export that a turn keeps. -/
def exported? (turn : Turn) : Option DefaultExport :=
  match turn.statement with
  | some (.defaultExport declaration) => some declaration
  | _ => none

end Turn

namespace Truncation
open Spelling Consumption

/-- What a turn consumes spells the statement that it keeps, and no end of the source is
among it. -/
theorem take_yields (t : Token) (later : List Token) (n : Nat) :
    let turn := Turn.take t later n
    ∃ used stop, Reaches ⟨t, later⟩ used stop ∧ turn.left = stop.rest ∧
      Kept (SpellsStatement t) used n turn.statement turn.nextId := by
  have passed : Kept (SpellsStatement t) [] n none n := kept_none (Nat.le_refl n)
  dsimp only
  by_cases word : t.kind = .keyword
  · by_cases isImport : t.value = "import"
    · obtain ⟨used, reached, kept⟩ := readImport_yields t later n
      have kept := keptStatement .importDeclaration kept fun _ => .importDeclaration word
      exact ⟨used, _, reached, by simp [Turn.take, word, isImport],
        by simpa [Turn.take, word, isImport] using kept⟩
    by_cases isExport : t.value = "export"
    · obtain ⟨used, reached, kept⟩ := readExport_yields t later n
      have kept := keptStatement .defaultExport kept fun _ => .defaultExport word
      exact ⟨used, _, reached, by simp [Turn.take, word, isExport, Reading.outcome],
        by simpa [Turn.take, word, isExport, Reading.outcome] using kept⟩
    by_cases declares : (VariableKind.ofKeyword? t.value).isSome = true
    · obtain ⟨used, reached, spelled⟩ := readVariables_yields t later n
      have kept := kept_some (SpellsStatement.variableDeclaration word spelled) spelled.le
      exact ⟨used, _, reached,
        by simp [Turn.take, word, isImport, isExport, declares, Reading.outcome],
        by simpa [Turn.take, word, isImport, isExport, declares, Reading.outcome] using kept⟩
    · exact ⟨[], _, .here _, by simp [Turn.take, word, isImport, isExport, declares],
        by simpa [Turn.take, word, isImport, isExport, declares] using passed⟩
  · exact ⟨[], _, .here _, by simp [Turn.take, word], by simpa [Turn.take, word] using passed⟩

/-- A turn passes over no end of the source. -/
theorem take_left (t : Token) (later : List Token) (n : Nat) :
    ∃ used, later = used ++ (Turn.take t later n).left ∧ ∀ u ∈ used, u.isEof = false := by
  obtain ⟨used, stop, reached, left, -⟩ := take_yields t later n
  exact ⟨used, left ▸ reached.rest_eq, reached.inside⟩

theorem length_take_left_le (t : Token) (later : List Token) (n : Nat) :
    (Turn.take t later n).left.length ≤ later.length := by
  obtain ⟨used, same, -⟩ := take_left t later n
  have lengths := congrArg List.length same
  rw [List.length_append] at lengths
  omega

end Truncation

/-- The turns of a full reading, up to the end of the source. -/
def Module.turns (tokens : List Token) (n : Nat) : List Turn :=
  match tokens with
  | [] => []
  | t :: later =>
    if t.isEof then []
    else
      let turn := Turn.take t later n
      turn :: turns turn.left turn.nextId
termination_by tokens.length
decreasing_by
  exact Nat.lt_succ_of_le (Truncation.length_take_left_le t later n)

namespace Truncation
open Spelling Consumption

@[simp] theorem take_first (t : Token) (later : List Token) (n : Nat) :
    (Turn.take t later n).first = t := by
  unfold Turn.take
  split
  · rfl
  split
  · rfl
  split
  · rfl
  split
  · rfl
  · rfl

/-- A full reading, one turn at a time. -/
theorem readBody_full (inside : t.isEof = false) (later : List Token) (n : Nat) :
    Module.readBody false (t :: later) n =
      let turn := Turn.take t later n
      let more := Module.readBody false turn.left turn.nextId
      (turn.statement.toList ++ more.1, more.2) := by
  rw [Module.readBody]
  by_cases word : t.kind = .keyword
  · by_cases isImport : t.value = "import"
    · simp [Turn.take, inside, word, isImport, toList_map]
    by_cases isExport : t.value = "export"
    · simp [Turn.take, inside, word, isExport, toList_map]
    by_cases declares : (VariableKind.ofKeyword? t.value).isSome = true
    · simp [Turn.take, inside, word, isImport, isExport, declares]
    · simp [Turn.take, inside, word, isImport, isExport, declares]
  · simp [Turn.take, inside, word]

/-- A reading of imports goes on as a full one does, unless the turn takes up a keyword
that starts no import. It then keeps a default export and nothing else. -/
theorem readBody_imports (inside : t.isEof = false) (later : List Token) (n : Nat) :
    let turn := Turn.take t later n
    (turn.halts = false ∧ Module.readBody true (t :: later) n =
      let more := Module.readBody true turn.left turn.nextId
      (turn.statement.toList ++ more.1, more.2)) ∨
    (turn.halts = true ∧ ∃ left, turn.left <:+ left ∧ Module.readBody true (t :: later) n =
      (turn.exported?.toList.map .defaultExport, left)) := by
  rw [Module.readBody]
  by_cases word : t.kind = .keyword
  · by_cases isImport : t.value = "import"
    · left
      simp [Turn.take, Turn.halts, inside, word, isImport, toList_map]
    right
    have halts : (Turn.take t later n).halts = true := by simp [Turn.halts, word, isImport]
    refine ⟨halts, ?_⟩
    by_cases isExport : t.value = "export"
    · refine ⟨(Turn.take t later n).left, List.suffix_refl _, ?_⟩
      cases kept : (DefaultExport.read t later n).value with
      | none => simp [Turn.take, Turn.exported?, inside, word, isExport, kept]
      | some d => simp [Turn.take, Turn.exported?, inside, word, isExport, kept]
    · refine ⟨later, ?_, ?_⟩
      · obtain ⟨used, same, -⟩ := take_left t later n
        exact ⟨used, same.symm⟩
      · by_cases declares : (VariableKind.ofKeyword? t.value).isSome = true
        · simp [Turn.take, Turn.exported?, inside, word, isImport, isExport, declares]
        · simp [Turn.take, Turn.exported?, inside, word, isImport, isExport, declares]
  · left
    simp [Turn.take, Turn.halts, inside, word]

/-- A turn that does not halt keeps nothing but an import. -/
theorem import_of_goes (goes : (Turn.take t later n).halts = false)
    (kept : (Turn.take t later n).statement = some s) : ∃ d, s = .importDeclaration d := by
  by_cases word : t.kind = .keyword
  · have isImport : t.value = "import" := by simpa [Turn.halts, word] using goes
    simp only [Turn.take, word, isImport] at kept
    obtain ⟨d, -, rfl⟩ := Option.map_eq_some_iff.mp kept
    exact ⟨d, rfl⟩
  · simp [Turn.take, word] at kept

/-- A full reading keeps the statements of its turns. -/
theorem readBody_full_eq (tokens : List Token) (n : Nat) :
    (Module.readBody false tokens n).1 = (Module.turns tokens n).filterMap Turn.statement := by
  fun_induction Module.turns tokens n with
  | case1 => rw [Module.readBody, List.filterMap_nil]
  | case2 n t later ends => rw [Module.readBody, if_pos ends, List.filterMap_nil]
  | case3 n t later goes turn ih =>
    rw [readBody_full (by simpa using goes)]
    dsimp only
    rw [ih, List.filterMap_cons]
    cases turn.statement with
    | none => rfl
    | some s => rfl

/-- A reading of imports keeps the statements of the turns before the first one that
halts it, and the default export of that one. -/
theorem readBody_imports_eq (tokens : List Token) (n : Nat) :
    (Module.readBody true tokens n).1 =
      ((Module.turns tokens n).takeWhile (!·.halts)).filterMap Turn.statement ++
        (((Module.turns tokens n).find? Turn.halts).bind Turn.exported?).toList.map
          .defaultExport := by
  fun_induction Module.turns tokens n with
  | case1 => simp [Module.readBody]
  | case2 n t later ends => simp [Module.readBody, ends]
  | case3 n t later goes turn ih =>
    rcases readBody_imports (by simpa using goes) later n with ⟨on, step⟩ | ⟨halts, left, -, step⟩
    · change turn.halts = false at on
      rw [step]
      dsimp only
      rw [ih, List.takeWhile_cons_of_pos (by simp [on]), List.find?_cons_of_neg (by simp [on]),
        List.filterMap_cons, ← List.append_assoc]
      cases turn.statement with
      | none => rfl
      | some s => rfl
    · change turn.halts = true at halts
      rw [step, List.takeWhile_cons_of_neg (by simp [halts]), List.find?_cons_of_pos halts]
      rfl

/-- The default export of a turn is its statement. -/
theorem exported_prefix (turn : Turn) (more : List Statement) :
    turn.exported?.toList.map .defaultExport <+: turn.statement.toList ++ more := by
  refine List.IsPrefix.trans ?_ (List.prefix_append ..)
  unfold Turn.exported?
  split
  · rename_i kept
    simp [kept]
  · exact List.nil_prefix

/-- What a reading of imports keeps comes first in a full reading, and what the full one
leaves is left by it too. -/
theorem readBody_truncated (tokens : List Token) (n : Nat) :
    (Module.readBody true tokens n).1 <+: (Module.readBody false tokens n).1 ∧
      (Module.readBody false tokens n).2 <:+ (Module.readBody true tokens n).2 := by
  fun_induction Module.turns tokens n with
  | case1 => simp [Module.readBody]
  | case2 n t later ends => simp [Module.readBody, ends]
  | case3 n t later goes turn ih =>
    have inside : t.isEof = false := by simpa using goes
    rw [readBody_full inside]
    rcases readBody_imports inside later n with ⟨-, step⟩ | ⟨-, left, tail, step⟩
    · rw [step]
      exact ⟨List.prefix_append_right_inj _ |>.mpr ih.1, ih.2⟩
    · rw [step]
      constructor
      · exact exported_prefix turn _
      · obtain ⟨used, m, same, -⟩ := readBody_spells false turn.left turn.nextId
        exact List.IsSuffix.trans ⟨used, same.symm⟩ tail

/-- A reading of imports keeps imports, and perhaps a default export behind them. -/
theorem readBody_imports_shape (tokens : List Token) (n : Nat) :
    ∃ (imports : List ImportDeclaration) (last : Option DefaultExport),
      (Module.readBody true tokens n).1 =
        imports.map .importDeclaration ++ last.toList.map .defaultExport := by
  fun_induction Module.turns tokens n with
  | case1 => exact ⟨[], none, by simp [Module.readBody]⟩
  | case2 n t later ends => exact ⟨[], none, by simp [Module.readBody, ends]⟩
  | case3 n t later goes turn ih =>
    rcases readBody_imports (by simpa using goes) later n with ⟨on, step⟩ | ⟨-, left, -, step⟩
    · obtain ⟨imports, last, same⟩ := ih
      rw [step]
      dsimp only
      rw [same]
      cases kept : (Turn.take t later n).statement with
      | none => exact ⟨imports, last, rfl⟩
      | some s =>
        obtain ⟨d, rfl⟩ := import_of_goes on kept
        exact ⟨d :: imports, last, rfl⟩
    · exact ⟨[], turn.exported?, congrArg Prod.fst step⟩

/-- A full reading ends behind the first end of the source. -/
theorem readBody_ends (tokens : List Token) (n : Nat) (ends : ∃ t ∈ tokens, t.isEof = true) :
    ∃ before eof, tokens = before ++ eof :: (Module.readBody false tokens n).2 ∧
      (∀ t ∈ before, t.isEof = false) ∧ eof.isEof = true := by
  fun_induction Module.turns tokens n with
  | case1 => simp at ends
  | case2 n t later here =>
    exact ⟨[], t, by simp [Module.readBody, here], by simp, here⟩
  | case3 n t later goes turn ih =>
    have inside : t.isEof = false := by simpa using goes
    obtain ⟨used, same, none⟩ := take_left t later n
    have still : ∃ t ∈ turn.left, t.isEof = true := by
      obtain ⟨eof, member, isEof⟩ := ends
      refine ⟨eof, ?_, isEof⟩
      rw [same] at member
      rcases List.mem_cons.mp member with rfl | member
      · simp [inside] at isEof
      rcases List.mem_append.mp member with early | late
      · simp [none eof early] at isEof
      · exact late
    obtain ⟨before, eof, split, noneBefore, isEof⟩ := ih still
    refine ⟨t :: (used ++ before), eof, ?_, ?_, isEof⟩
    · rw [readBody_full inside]
      rw [List.cons_append, List.append_assoc, ← split]
      exact congrArg (t :: ·) same
    · intro u member
      rcases List.mem_cons.mp member with rfl | member
      · exact inside
      rcases List.mem_append.mp member with early | late
      · exact none u early
      · exact noneBefore u late

/-- Every stream that reading works on ends with the end of the source, which may also
stand elsewhere in it. -/
theorem eof_mem_significant (tokens : List Token) :
    ∃ t ∈ Module.significant tokens, t.isEof = true := by
  unfold Module.significant
  dsimp only
  split
  · exact ⟨_, List.mem_singleton_self _, rfl⟩
  · rename_i last found
    split
    · rename_i ends
      exact ⟨last, List.mem_of_getLast? found, ends⟩
    · exact ⟨_, List.mem_append_right _ (List.mem_singleton_self _), rfl⟩

/-- The tokens that the turns take up are some of the tokens, in their order. -/
theorem turns_sublist (tokens : List Token) (n : Nat) :
    ((Module.turns tokens n).map Turn.first).Sublist tokens := by
  fun_induction Module.turns tokens n with
  | case1 => exact List.Sublist.slnil
  | case2 => exact List.nil_sublist _
  | case3 n t later _ turn ih =>
    obtain ⟨used, same, -⟩ := take_left t later n
    have first : turn.first = t := take_first t later n
    rw [List.map_cons, first]
    refine List.Sublist.cons_cons t (ih.trans ?_)
    rw [same]
    exact List.sublist_append_right ..

/-- The statement of a turn starts at the token that the turn takes up. -/
theorem start_of_turn (tokens : List Token) (n : Nat) {turn : Turn}
    (member : turn ∈ Module.turns tokens n) (kept : turn.statement = some s) :
    s.span.start = turn.first.span.start := by
  fun_induction Module.turns tokens n with
  | case1 => cases member
  | case2 => cases member
  | case3 n t later _ first ih =>
    rcases List.mem_cons.mp member with rfl | member
    · obtain ⟨used, stop, -, -, -, spelled⟩ := take_yields t later n
      rw [start_of_spells (spelled s kept), take_first]
    · exact ih member

/-- A reading of imports is a full reading of the same tokens, cut off at the first turn
that takes up a keyword which starts no import. -/
structure Truncates (tokens : List Token) : Prop where
  /-- The turns of the full reading take up some of the tokens, in their order. -/
  ordered : ((Module.turns (Module.significant tokens) 0).map Turn.first).Sublist
    (Module.significant tokens)
  /-- A statement starts at the token that its turn takes up. -/
  starting : ∀ turn ∈ Module.turns (Module.significant tokens) 0, ∀ s,
    turn.statement = some s → s.span.start = turn.first.span.start
  /-- The full reading keeps the statements of all turns. -/
  full : (Module.ofTokens tokens false).body =
    (Module.turns (Module.significant tokens) 0).filterMap Turn.statement
  /-- The reading of imports keeps those of the turns before the one that halts it, and a
  default export of that one. -/
  cut : (Module.ofTokens tokens true).body =
    ((Module.turns (Module.significant tokens) 0).takeWhile (!·.halts)).filterMap Turn.statement ++
      (((Module.turns (Module.significant tokens) 0).find? Turn.halts).bind
        Turn.exported?).toList.map .defaultExport
  /-- What the reading of imports keeps comes first in the full reading. -/
  first : (Module.ofTokens tokens true).body <+: (Module.ofTokens tokens false).body
  /-- It keeps imports, and perhaps a default export behind them. -/
  shape : ∃ (imports : List ImportDeclaration) (last : Option DefaultExport),
    (Module.ofTokens tokens true).body =
      imports.map .importDeclaration ++ last.toList.map .defaultExport
  /-- Both modules cover the same part of the source. -/
  covers : (Module.ofTokens tokens true).span = (Module.ofTokens tokens false).span
  /-- The reading of imports does not get further than the full one. -/
  sooner : Module.consumed tokens true ≤ Module.consumed tokens false
  /-- The full reading consumes everything through the first end of the source. -/
  ends : ∃ before eof after, Module.significant tokens = before ++ eof :: after ∧
    (∀ t ∈ before, t.isEof = false) ∧ eof.isEof = true ∧
    Module.consumed tokens false = before.length + 1

/-- Reading imports only truncates the full reading, on any stream of tokens. -/
theorem importsOnly_truncates (tokens : List Token) : Truncates tokens where
  ordered := turns_sublist _ 0
  starting := fun _ member _ kept => start_of_turn _ 0 member kept
  full := readBody_full_eq _ 0
  cut := readBody_imports_eq _ 0
  first := (readBody_truncated _ 0).1
  shape := readBody_imports_shape _ 0
  covers := rfl
  sooner := by
    have fewer := (readBody_truncated (Module.significant tokens) 0).2.length_le
    unfold Module.consumed
    dsimp only
    omega
  ends := by
    obtain ⟨before, eof, split, none, isEof⟩ :=
      readBody_ends (Module.significant tokens) 0 (eof_mem_significant tokens)
    refine ⟨before, eof, _, split, none, isEof, ?_⟩
    have lengths := congrArg List.length split
    rw [List.length_append, List.length_cons] at lengths
    unfold Module.consumed
    dsimp only
    omega

end Truncation
end ImportAtlas
