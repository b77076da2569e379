import ImportAtlas.Proofs.Recovery
import ImportAtlas.Tree.Walk

/-! Reading respects brackets. An expression inside well-nested brackets is read from
a well-nested run of tokens that stops short of whatever closes around it. So in a
source whose brackets are well nested, every object literal, array literal and call
ends at the bracket that matches its own. -/
namespace ImportAtlas.Brackets
open ImportAtlas.Expr Consumption Nesting Recovery Spelling

section Runs
variable {k : Token} {after : List Token}

theorem nestAll_append (stack : List Token.Kind) (before later : List Token) :
    nestAll stack (before ++ later) = (nestAll stack before).bind (nestAll · later) := by
  induction before generalizing stack with
  | nil => rfl
  | cons t before ih =>
    rw [List.cons_append, nestAll, nestAll]
    cases nest stack t.kind with
    | none => rfl
    | some below => exact ih below

private theorem nest_frame (nests : nest stack kind = some below) (outer : List Token.Kind) :
    nest (stack ++ outer) kind = some (below ++ outer) := by
  rcases nest_cases nests with ⟨plain, rfl⟩ | ⟨closes, rfl⟩
  · rw [nest_of_not_close plain, opened, opened, List.append_assoc]
  · exact nest_close closes (below ++ outer)

/-- Brackets further out are not touched. -/
theorem nestAll_frame (nests : nestAll stack run = some below) (outer : List Token.Kind) :
    nestAll (stack ++ outer) run = some (below ++ outer) := by
  induction run generalizing stack with
  | nil =>
    cases nests
    rfl
  | cons t run ih =>
    obtain ⟨middle, first, rest⟩ := Option.bind_eq_some_iff.mp nests
    rw [nestAll, nest_frame first outer]
    exact ih rest

/-- What stands before well-nested tokens closes what the whole closes. -/
theorem nestAll_of_append (whole : nestAll stack (before ++ later) = some [])
    (closed : nestAll [] later = some []) : nestAll stack before = some [] := by
  rw [nestAll_append] at whole
  obtain ⟨below, first, rest⟩ := Option.bind_eq_some_iff.mp whole
  have same : nestAll below later = some below := nestAll_frame closed below
  rw [rest] at same
  cases same
  exact first

/-- The tokens up to a landmark close what is open. -/
theorem run_of_awaits (awaits : Awaits k after stack c) :
    ∃ run, c.rest = run ++ k :: after ∧ nestAll stack run = some [] := by
  induction awaits with
  | here => exact ⟨[], rfl, rfl⟩
  | step _ nests _ ih =>
    obtain ⟨run, same, closed⟩ := ih
    refine ⟨_ :: run, congrArg (_ :: ·) same, ?_⟩
    rw [nestAll, nests]
    exact closed

private theorem not_keyword_of_stop (stops : k.isEof = true ∨ k.kind.isClose = true) :
    k.kind ≠ .keyword := by
  intro word
  rcases stops with ends | closes
  · simp [Token.isEof, word] at ends
  · rw [word] at closes
    cases closes

/-- The end of the source and a closing bracket are landmarks wherever they stand. -/
theorem landmark_of_stop (stops : k.isEof = true ∨ k.kind.isClose = true) (after : List Token) :
    Landmark k after where
  kind := by
    rcases stops with ends | closes
    · simp [isMark, beq_iff_eq.mp ends]
    · simp [isMark, closes]
  boundary := by
    intro last
    rcases stops with ends | closes
    · simp [Cursor.atBoundary, Cursor.isTerminator, ends]
    · simp [Cursor.atBoundary, Cursor.isTerminator, closes]
  notDefault := by simp [Token.isKeyword, not_keyword_of_stop stops]

theorem awaits_of_stop (stops : k.isEof = true ∨ k.kind.isClose = true) (run : List Token)
    (inside : ∀ t ∈ run, t.isEof = false) (closed : nestAll stack run = some []) (last : Token)
    (after : List Token) : Awaits k after stack ⟨last, run ++ k :: after⟩ :=
  awaits_of_nestAll (landmark_of_stop stops after) run inside closed last
    fun word => absurd word (not_keyword_of_stop stops)

/-- An expression at the start of well-nested tokens is read from some of them, which
are well nested too. -/
theorem read_nested (t : Token) (run after : List Token) (n : Nat)
    (stops : k.isEof = true ∨ k.kind.isClose = true) (inside : ∀ u ∈ t :: run, u.isEof = false)
    (nested : nestAll [] (t :: run) = some []) :
    ∃ used later, run = used ++ later ∧ nestAll [] (t :: used) = some [] ∧
      (read t (run ++ k :: after) n).cursor = ⟨used.getLastD t, later ++ k :: after⟩ := by
  have awaits : Awaits k after (opened t.kind []) ⟨t, run ++ k :: after⟩ := by
    obtain ⟨below, nests, closed⟩ := Option.bind_eq_some_iff.mp nested
    rcases nest_cases nests with ⟨-, rfl⟩ | ⟨-, impossible⟩
    · exact awaits_of_stop stops run (fun u member => inside u (List.mem_cons_of_mem t member))
        closed t after
    · cases impossible
  obtain ⟨later, left, closed⟩ := run_of_awaits (rests_read t (run ++ k :: after) n awaits).awaits
  obtain ⟨used, reached, -⟩ := read_yields t (run ++ k :: after) n
  have split : run ++ k :: after = (used ++ later) ++ k :: after := by
    rw [List.append_assoc, ← left]
    exact reached.rest_eq
  have same : run = used ++ later := List.append_cancel_right split
  refine ⟨used, later, same, ?_, ?_⟩
  · rw [same, ← List.cons_append] at nested
    exact nestAll_of_append nested closed
  · exact congrArg₂ Cursor.mk reached.last_eq left

/-- Each of the open brackets is closed further on, behind tokens that close the ones
inside it. -/
private theorem exists_closing (below : List Token.Kind) (awaits : Awaits k after stack c)
    (shape : stack = below ++ closing :: outer) :
    ∃ inner, ∃ close : Token, ∃ later, c.rest = inner ++ close :: later ∧ close.kind = closing ∧
      close.kind.isClose = true ∧ nestAll below inner = some [] ∧
      ∀ t ∈ inner, t.isEof = false := by
  induction awaits generalizing below with
  | here => simp at shape
  | @step stack next t rest last inside nests more ih =>
    subst shape
    -- A token that leaves the bracket open belongs to what stands inside it.
    have pass (grown : List Token.Kind) (nestsInner : nest below t.kind = some grown)
        (shape : next = grown ++ closing :: outer) :
        ∃ inner close later, t :: rest = inner ++ close :: later ∧ close.kind = closing ∧
          close.kind.isClose = true ∧ nestAll below inner = some [] ∧
          ∀ t ∈ inner, t.isEof = false := by
      obtain ⟨inner, close, later, same, kind, isClose, nested, notEof⟩ := ih grown shape
      refine ⟨t :: inner, close, later, congrArg (t :: ·) same, kind, isClose, ?_,
        List.forall_mem_cons.mpr ⟨inside, notEof⟩⟩
      rw [nestAll, nestsInner]
      exact nested
    rcases nest_cases nests with ⟨notClose, grown⟩ | ⟨closes, top⟩
    · rw [opened, ← List.append_assoc] at grown
      exact pass _ (nest_of_not_close notClose below) grown
    · obtain _ | ⟨innermost, below⟩ := below
      · obtain ⟨kind, -⟩ := List.cons.inj top
        exact ⟨[], t, rest, rfl, kind.symm, closes, rfl, by simp⟩
      · obtain ⟨rfl, rfl⟩ := List.cons.inj top
        exact pass below (nest_close closes below) rfl

/-- Behind an opening bracket, the bracket that matches it is awaited outside all
brackets. -/
theorem exists_match (awaits : Awaits k after (closing :: stack) ⟨last, rest⟩) :
    ∃ inner close later, rest = inner ++ close :: later ∧ close.kind = closing ∧
      nestAll [] inner = some [] ∧ Awaits close later [] ⟨last, rest⟩ := by
  obtain ⟨inner, close, later, same, kind, closes, nested, inside⟩ := exists_closing [] awaits rfl
  have same : rest = inner ++ close :: later := same
  exact ⟨inner, close, later, same, kind, nested,
    same ▸ awaits_of_stop (.inr closes) inner inside nested last later⟩

end Runs

section Nodes

/-- Among some tokens there are two brackets that match, the first one behind the
given tokens. -/
def Matching (run before : List Token) (opening closing : Token) : Prop :=
  opening.kind.closing? = some closing.kind ∧
    ∃ inner later, run = before ++ opening :: (inner ++ closing :: later) ∧
      nestAll [] inner = some []

/-- A span goes from a bracket of the given kind to the one that matches it. -/
def Between (run : List Token) (kind : Token.Kind) (span : Span) : Prop :=
  ∃ before opening closing, Matching run before opening closing ∧ opening.kind = kind ∧
    span = opening.through closing

/-- An object or array literal stands between two brackets that match. A call ends at
the parenthesis that matches the one behind its callee. -/
def Closes (run : List Token) : Expr → Prop
  | .object ⟨span, _, _⟩ => Between run .leftBrace span
  | .array span _ => Between run .leftBracket span
  | .call span callee _ => ∃ before last opening closing,
      Matching run (before ++ [last]) opening closing ∧ opening.kind = .leftParen ∧
      last.span.stop = callee.span.stop ∧ span = ⟨callee.span.start, closing.span.stop⟩
  | _ => True

/-- All expressions among some nodes have brackets that match. -/
def ClosedIn (run : List Token) (nodes : List Node) : Prop :=
  ∀ e, .compound e ∈ nodes → Closes run e

variable {run : List Token}

@[simp] theorem closedIn_nil : ClosedIn run [] := by
  simp [ClosedIn]

@[simp] theorem closedIn_append :
    ClosedIn run (before ++ later) ↔ ClosedIn run before ∧ ClosedIn run later := by
  simp only [ClosedIn, List.mem_append]
  constructor
  · intro all
    exact ⟨fun e member => all e (.inl member), fun e member => all e (.inr member)⟩
  · rintro ⟨first, second⟩ e (member | member)
    · exact first e member
    · exact second e member

/-- A node of any other kind has no brackets of its own. -/
theorem closedIn_cons (other : ∀ e, node ≠ .compound e) (others : ClosedIn run nodes) :
    ClosedIn run (node :: nodes) := by
  intro e member
  rcases List.mem_cons.mp member with same | member
  · exact absurd same.symm (other e)
  · exact others e member

/-- A compound expression and the nodes inside it. -/
theorem closedIn_compound (closes : Closes run e) (inner : ClosedIn run nodes) :
    ClosedIn run (.expression e :: .compound e :: nodes) := by
  refine closedIn_cons (by simp) ?_
  intro found member
  rcases List.mem_cons.mp member with same | member
  · cases same
    exact closes
  · exact inner found member

private theorem closedIn_names (names : List Identifier) :
    ClosedIn run (names.map .identifier) := by
  simp [ClosedIn]

private theorem closedIn_key (key : PropertyKey) : ClosedIn run key.walk := by
  cases key with
  | _ => simp [ClosedIn, PropertyKey.walk]

theorem closedIn_member (target : ClosedIn run e.walk) (span : Span) (name : Identifier) :
    ClosedIn run (Expr.member span e name computed).walk := by
  refine closedIn_compound trivial (closedIn_append.mpr ⟨target, ?_⟩)
  simp [ClosedIn]

theorem closedIn_arrow (body : ClosedIn run (walkOption value)) (span : Span)
    (params : List Identifier) (isAsync : Bool) :
    ClosedIn run (Expr.arrow span params value isAsync).walk :=
  closedIn_compound trivial (closedIn_append.mpr ⟨closedIn_names params, body⟩)

theorem closedIn_property (span : Span) (key : PropertyKey) (shorthand computed method : Bool)
    (value : shorthand = false → ClosedIn run (walkOption init)) :
    ClosedIn run (Property.walk ⟨span, key, init, shorthand, computed, method⟩) := by
  refine closedIn_cons (by simp) (closedIn_append.mpr ⟨closedIn_key key, ?_⟩)
  cases shorthand with
  | true => exact closedIn_nil
  | false => exact value rfl

theorem closedIn_declarator (init : ClosedIn run (walkOption value)) (span : Span)
    (name : Identifier) : ClosedIn run (VariableDeclarator.walk ⟨span, name, value⟩) :=
  closedIn_cons (by simp) (closedIn_cons (by simp) init)

theorem closedIn_statement {statement : Statement} (inner : ClosedIn run statement.inner) :
    ClosedIn run statement.walk :=
  closedIn_cons (by simp) (closedIn_cons (by simp) inner)

/-- An import has no expressions. -/
theorem closedIn_import (declaration : ImportDeclaration) :
    ClosedIn run (Statement.importDeclaration declaration).walk := by
  refine closedIn_statement (closedIn_append.mpr ⟨?_, ?_⟩)
  · intro e member
    obtain ⟨specifier, -, among⟩ := List.mem_flatMap.mp member
    unfold ImportSpecifier.walk at among
    split at among
    · simp at among
    · simp at among
  · simp [ClosedIn]

/-- A statement that may be missing. -/
private theorem closedIn_kept {value : Option α} {statement : α → Statement}
    (kept : ∀ x, value = some x → ClosedIn run (statement x).walk) :
    ClosedIn run ((value.toList.map statement).flatMap Statement.walk) := by
  cases value with
  | none => exact closedIn_nil
  | some x =>
    rw [Option.toList_some, List.map_singleton, List.flatMap_singleton]
    exact kept x rfl

theorem suffix_of_advances (advanced : Advances start stop)
    (within : (start.last :: start.rest) <:+ run) : (stop.last :: stop.rest) <:+ run := by
  obtain ⟨used, reached⟩ := advanced
  induction reached with
  | here => exact within
  | step _ _ ih => exact ih ((List.suffix_cons ..).trans within)

private theorem advances_of_yields (yields : Yields spells start n result) :
    Advances start result.2.1 := by
  obtain ⟨used, reached, -⟩ := yields
  exact ⟨used, reached⟩

/-- A bracket and the one that matches it, further on. -/
private theorem between_of_suffix {opening close : Token} {inner : List Token}
    (within : (opening :: rest) <:+ run) (same : rest = inner ++ close :: later)
    (pair : opening.kind.closing? = some close.kind) (nested : nestAll [] inner = some [])
    (ends : stop = close) :
    Between run opening.kind (opening.through stop) := by
  subst same ends
  obtain ⟨before, same⟩ := within
  exact ⟨before, opening, stop, ⟨pair, inner, later, same.symm, nested⟩, rfl, rfl⟩

/-- The arguments of a call stand between parentheses that match. -/
private theorem closes_call {start last paren close : Token} {inner : List Token}
    (within : (last :: paren :: rest) <:+ run) (same : rest = inner ++ close :: later)
    (spanned : callee.span = start.through last)
    (opens : paren.kind = .leftParen) (closes : close.kind = .rightParen)
    (nested : nestAll [] inner = some []) (ends : stop = close) (arguments : List Expr) :
    Closes run (.call (start.through stop) callee arguments) := by
  subst same ends
  obtain ⟨before, same⟩ := within
  refine ⟨before, last, paren, stop, ⟨by rw [opens, closes]; rfl, inner, later, ?_, nested⟩,
    opens, ?_, ?_⟩
  · rw [← same, List.append_assoc]
    rfl
  · rw [spanned]
    rfl
  · rw [spanned]
    rfl

private theorem closedIn_items {item : Option Expr} (first : ClosedIn run (walkOption item))
    (others : ClosedIn run (walkAll items)) : ClosedIn run (walkAll (item.toList ++ items)) := by
  cases item with
  | none => exact others
  | some e => exact closedIn_append.mpr ⟨first, others⟩

private theorem closedIn_members {member : Option Property}
    (first : ∀ p, member = some p → ClosedIn run p.walk)
    (others : ClosedIn run (Property.walkAll members)) :
    ClosedIn run (Property.walkAll (member.toList ++ members)) := by
  cases member with
  | none => exact others
  | some p => exact closedIn_append.mpr ⟨first p rfl, others⟩

end Nodes

section Reading
variable {run : List Token}

mutual

/-- The brackets of the expression that is read match, and so do those inside it. -/
theorem closed_read (first : Token) (rest : List Token) (n : Nat)
    (within : (first :: rest) <:+ run)
    (awaits : Awaits k after (opened first.kind stack) ⟨first, rest⟩) :
    ClosedIn run (walkOption (read first rest n).outcome.1) := by
  have primary := closed_readPrimary first rest n within awaits
  rw [outcome_read]
  dsimp only
  split
  · exact primary
  · exact closedIn_nil
termination_by 4 * rest.length + 3

theorem closed_readPrimary (first : Token) (rest : List Token) (n : Nat)
    (within : (first :: rest) <:+ run)
    (awaits : Awaits k after (opened first.kind stack) ⟨first, rest⟩) :
    ClosedIn run (walkOption (readPrimary first rest n).outcome.1) := by
  rw [outcome_readPrimary]
  split
  · simp [ClosedIn, walkOption, Expr.walk]
  · simp [ClosedIn, walkOption, Expr.walk]
  · rename_i kind
    rw [kind] at awaits
    exact closed_readName first rest n within ⟨awaits, by rw [kind]; rfl⟩
  · rename_i kind
    rw [kind] at awaits
    obtain ⟨inner, close, later, same, closes, nested, inside⟩ := exists_match awaits
    obtain ⟨members, ends⟩ := closed_readMembers first rest (n + 1) closes within inside
    have between := between_of_suffix within same (by rw [kind, closes]; rfl) nested
      (congrArg Cursor.last ends)
    rw [kind] at between
    exact closedIn_compound between members
  · rename_i kind
    rw [kind] at awaits
    obtain ⟨inner, close, later, same, closes, nested, inside⟩ := exists_match awaits
    obtain ⟨items, ends⟩ := closed_readItems .rightBracket first rest n closes rfl within inside
    have between := between_of_suffix within same (by rw [kind, closes]; rfl) nested
      (congrArg Cursor.last ends)
    rw [kind] at between
    exact closedIn_compound between items
  · rename_i kind
    split
    · rw [kind] at awaits
      exact closed_readParenArrow first false first rest n within awaits
    · exact closedIn_nil
  · rename_i kind
    split
    · exact closedIn_nil
    split
    · rw [kind] at awaits
      refine closed_readChain first _ first rest n rfl ?_ within ⟨awaits, by rw [kind]; rfl⟩
      exact closedIn_compound trivial closedIn_nil
    · exact closedIn_nil
  · exact closedIn_nil
termination_by 4 * rest.length + 2

theorem closed_readName (first : Token) (rest : List Token) (n : Nat)
    (within : (first :: rest) <:+ run) (rests : Rests k after stack ⟨first, rest⟩) :
    ClosedIn run (walkOption (readName first rest n).outcome.1) := by
  rw [outcome_readName]
  split
  · rename_i param next found
    have shorter : next.rest.length < rest.length := length_lt_of_asyncParam? found
    obtain ⟨equals, reached⟩ := reaches_of_asyncParam? found
    exact closed_readArrowBody first _ true next.last next.rest n
      (suffix_of_advances ⟨_, reached⟩ within) (rests_of_asyncParam? found rests.awaits)
  split
  · rename_i paren found
    have shorter := length_lt_of_asyncParens? found
    exact closed_readParenArrow first true paren.last paren.rest n
      (suffix_of_advances ⟨_, reaches_of_asyncParens? found⟩ within)
      (awaits_of_asyncParens? found rests.awaits)
  split
  · rename_i next found
    have shorter := Cursor.length_lt_of_arrow? found
    obtain ⟨equals, reached⟩ := reaches_of_arrow? found first
    exact closed_readArrowBody first _ false next.last next.rest n
      (suffix_of_advances ⟨_, reached⟩ within) (rests_of_arrow? found rests.awaits)
  · refine closed_readChain first _ first rest n rfl ?_ within rests
    simp [ClosedIn, Expr.walk]
termination_by 4 * rest.length + 1

/-- A chain goes on from an expression that ends at the cursor. -/
theorem closed_readChain (start : Token) (expr : Expr) (last : Token) (rest : List Token) (n : Nat)
    (spanned : expr.span = start.through last) (closed : ClosedIn run expr.walk) :
    (last :: rest) <:+ run → Rests k after stack ⟨last, rest⟩ →
      ClosedIn run (readChain start expr last rest n).outcome.1.walk := by
  rw [outcome_readChain]
  split
  · rename_i name found
    have shorter := length_lt_of_member? found
    obtain ⟨dot, reached⟩ := reaches_of_member? found last
    intro within rests
    exact closed_readChain start _ name.last name.rest n rfl (closedIn_member closed _ _)
      (suffix_of_advances ⟨_, reached⟩ within) (rests_of_member? found rests.awaits)
  obtain _ | ⟨paren, later⟩ := rest
  · exact fun _ _ => closed
  intro within rests
  dsimp only
  split
  · rename_i opens
    have shorter := (readItems .rightParen paren later n).fits
    have behind : (paren :: later) <:+ run := (List.suffix_cons ..).trans within
    have awaits : Awaits k after (.rightParen :: stack) ⟨paren, later⟩ :=
      rests.awaits.passOpen (by rw [opens]; rfl)
    obtain ⟨inner, close, more, same, closes, nested, inside⟩ := exists_match awaits
    obtain ⟨items, ends⟩ := closed_readItems .rightParen paren later n closes rfl behind inside
    have call := closes_call within same spanned opens closes nested (congrArg Cursor.last ends)
      (readItems .rightParen paren later n).value
    exact closed_readChain start _ _ (readItems .rightParen paren later n).cursor.rest _ rfl
      (closedIn_compound call (closedIn_append.mpr ⟨closed, items⟩))
      (suffix_of_advances (advances_of_yields (readItems_yields .rightParen paren later n)) behind)
      (rests_readItems .rightParen paren later n rfl awaits)
  · exact closed
termination_by 4 * rest.length + 0

/-- A list whose closing bracket is the landmark is read through that bracket. -/
theorem closed_readItems (closing : Token.Kind) (last : Token) (rest : List Token) (n : Nat)
    (closes : k.kind = closing) (isClose : closing.isClose = true) :
    (last :: rest) <:+ run → Awaits k after [] ⟨last, rest⟩ →
      ClosedIn run (walkAll (readItems closing last rest n).outcome.1) ∧
        (readItems closing last rest n).outcome.2.1 = ⟨k, after⟩ := by
  rw [outcome_readItems]
  obtain _ | ⟨t, later⟩ := rest
  · exact fun _ awaits => absurd rfl awaits.nonempty
  intro within awaits
  have behind : (t :: later) <:+ run := (List.suffix_cons ..).trans within
  cases awaits with
  | here =>
    have inside : k.isEof = false := by
      refine isEof_eq_false_of_kind ?_
      rintro ends
      rw [← closes, ends] at isClose
      cases isClose
    simp only [inside, closes, Bool.false_eq_true, ↓reduceIte]
    exact ⟨closedIn_nil, trivial⟩
  | step inside nests more =>
    -- Outside all brackets no bracket is closed before the landmark.
    rcases nest_cases nests with ⟨notClose, rfl⟩ | ⟨-, impossible⟩
    · have differs : t.kind ≠ closing := by
        rintro same
        rw [same, isClose] at notClose
        cases notClose
      simp only [inside, differs, Bool.false_eq_true, ↓reduceIte]
      split
      · rename_i comma
        rw [comma] at more
        exact closed_readItems closing t later n closes isClose behind more
      · have shorter := (read t later n).fits
        have item := closed_read t later n behind more
        obtain ⟨items, ends⟩ := closed_readItems closing _ (read t later n).cursor.rest _ closes
          isClose (suffix_of_advances (advances_of_yields (read_yields t later n)) behind)
          (rests_read t later n more).awaits
        exact ⟨closedIn_items item items, ends⟩
    · cases impossible
termination_by 4 * rest.length + 0

theorem closed_readParenArrow (start : Token) (isAsync : Bool) (paren : Token) (rest : List Token)
    (n : Nat) (within : (paren :: rest) <:+ run)
    (awaits : Awaits k after (.rightParen :: stack) ⟨paren, rest⟩) :
    ClosedIn run (walkOption (readParenArrow start isAsync paren rest n).outcome.1) := by
  have fits := length_arrowParams_le 0 paren rest
  have close := rests_arrowParams 0 paren rest [] rfl awaits
  obtain ⟨used, -, reached, -, -⟩ := reaches_arrowParams 0 paren rest
  have behind := suffix_of_advances ⟨used, reached⟩ within
  rw [outcome_readParenArrow]
  dsimp only
  split
  · rename_i next found
    have shorter := Cursor.length_lt_of_arrow? found
    obtain ⟨equals, reached⟩ := reaches_of_arrow? found (arrowParams 0 paren rest).2.last
    exact closed_readArrowBody start _ isAsync next.last next.rest n
      (suffix_of_advances ⟨_, reached⟩ behind) (rests_of_arrow? found close.awaits)
  · exact closed_readArrowBody start _ isAsync _ (arrowParams 0 paren rest).2.rest n behind close
termination_by 4 * rest.length + 1

theorem closed_readArrowBody (start : Token) (params : List Identifier) (isAsync : Bool)
    (arrow : Token) (rest : List Token) (n : Nat) :
    (arrow :: rest) <:+ run → Rests k after stack ⟨arrow, rest⟩ →
      ClosedIn run (walkOption (readArrowBody start params isAsync arrow rest n).outcome.1) := by
  rw [outcome_readArrowBody]
  obtain _ | ⟨t, later⟩ := rest
  · exact fun _ _ => closedIn_arrow closedIn_nil _ _ _
  intro within rests
  dsimp only
  split
  · exact closedIn_arrow closedIn_nil _ _ _
  split
  · exact closedIn_arrow closedIn_nil _ _ _
  · rename_i goes
    have body := closed_read t later n ((List.suffix_cons ..).trans within)
      (rests.awaits.passGoes goes)
    exact closedIn_arrow body _ _ _
termination_by 4 * rest.length + 0

/-- An object literal whose closing brace is the landmark is read through that brace. -/
theorem closed_readMembers (last : Token) (rest : List Token) (n : Nat)
    (closes : k.kind = .rightBrace) :
    (last :: rest) <:+ run → Awaits k after [] ⟨last, rest⟩ →
      ClosedIn run (Property.walkAll (readMembers last rest n).outcome.1) ∧
        (readMembers last rest n).outcome.2.1 = ⟨k, after⟩ := by
  rw [outcome_readMembers]
  obtain _ | ⟨t, later⟩ := rest
  · exact fun _ awaits => absurd rfl awaits.nonempty
  intro within awaits
  have behind : (t :: later) <:+ run := (List.suffix_cons ..).trans within
  cases awaits with
  | here =>
    simp only [closes]
    exact ⟨closedIn_nil, trivial⟩
  | step inside nests more =>
    rcases nest_cases nests with ⟨notClose, rfl⟩ | ⟨-, impossible⟩
    · have shorter := (readProperty t later n).fits
      have property (notOpen : t.kind.isOpen = false) :
          ClosedIn run (Property.walkAll ((readProperty t later n).value.toList ++
              (readMembers (readProperty t later n).cursor.last
                (readProperty t later n).cursor.rest (readProperty t later n).nextId).value)) ∧
            (readMembers (readProperty t later n).cursor.last (readProperty t later n).cursor.rest
              (readProperty t later n).nextId).cursor = ⟨k, after⟩ := by
        rw [opened_of_not_open notOpen] at more
        have first := closed_readProperty t later n behind ⟨more, notOpen⟩
        obtain ⟨others, ends⟩ := closed_readMembers _ (readProperty t later n).cursor.rest _ closes
          (suffix_of_advances (advances_of_yields (readProperty_yields t later n)) behind)
          (rests_readProperty t later n ⟨more, notOpen⟩).awaits
        exact ⟨closedIn_members first others, ends⟩
      dsimp only
      split
      · rename_i kind
        simp [Token.isEof, kind] at inside
      · rename_i kind
        rw [kind] at notClose
        cases notClose
      · rename_i kind
        rw [kind] at more
        exact closed_readMembers t later n closes behind more
      · rename_i kind
        exact property (by rw [kind]; rfl)
      · rename_i kind
        exact property (by rw [kind]; rfl)
      · rename_i kind
        exact property (by rw [kind]; rfl)
      · have shorter := (readComputed t later n).fits
        exact closed_readMembers _ (readComputed t later n).cursor.rest _ closes
          (suffix_of_advances (advances_of_yields (readComputed_yields t later n)) behind)
          (rests_readComputed t later n more).awaits
      · have shorter : (Cursor.skipExpression ⟨t, later⟩).rest.length ≤ later.length :=
          Cursor.length_skipExpression_le _
        exact closed_readMembers _ (Cursor.skipExpression ⟨t, later⟩).rest n closes
          (suffix_of_advances (advances_skipExpression _) behind)
          (rests_skipExpression more).awaits
    · cases impossible
termination_by 4 * rest.length + 0

theorem closed_readProperty (key : Token) (rest : List Token) (n : Nat) :
    (key :: rest) <:+ run → Rests k after stack ⟨key, rest⟩ →
      ∀ p, (readProperty key rest n).outcome.1 = some p → ClosedIn run p.walk := by
  rw [outcome_readProperty]
  split
  · exact fun _ _ _ impossible => nomatch impossible
  obtain _ | ⟨t, later⟩ := rest
  · exact fun _ _ _ impossible => nomatch impossible
  intro within rests p
  dsimp only
  split
  · rename_i colon
    rintro ⟨rfl⟩
    have value := closed_readValue t later n ((List.suffix_cons ..).trans within)
      (rests.awaits.passPlain (plain_of_isOperator colon))
    exact closedIn_property _ _ _ _ _ fun _ => value
  have shorthand : ClosedIn run (Property.walk
      ⟨key.span, key.propertyKey, shorthandValue key.propertyKey, true, false, false⟩) :=
    closedIn_property _ _ _ _ _ fun impossible => nomatch impossible
  split
  · rintro ⟨rfl⟩
    exact shorthand
  · rintro ⟨rfl⟩
    exact shorthand
  · rintro ⟨rfl⟩
    exact shorthand
  · rintro ⟨rfl⟩
    exact closedIn_property _ _ _ _ _ fun _ => closedIn_nil
  · exact fun impossible => nomatch impossible
termination_by 4 * rest.length + 0

theorem closed_readValue (colon : Token) (rest : List Token) (n : Nat) :
    (colon :: rest) <:+ run → Rests k after stack ⟨colon, rest⟩ →
      ClosedIn run (walkOption (readValue colon rest n).outcome.1) := by
  rw [outcome_readValue]
  obtain _ | ⟨t, later⟩ := rest
  · exact fun _ _ => closedIn_nil
  intro within rests
  dsimp only
  split
  · exact closedIn_nil
  · rename_i goes
    exact closed_read t later n ((List.suffix_cons ..).trans within) (rests.awaits.passGoes goes)
termination_by 4 * rest.length + 0

end

theorem closed_readExport (keyword : Token) (rest : List Token) (n : Nat)
    (within : (keyword :: rest) <:+ run) (awaits : Awaits k after stack ⟨keyword, rest⟩)
    (found : (DefaultExport.read keyword rest n).value = some declaration) :
    ClosedIn run (walkOption declaration.value) := by
  obtain _ | ⟨t, later⟩ := rest
  · cases found
  unfold DefaultExport.read at found
  dsimp only at found
  split at found
  · rename_i word
    cases found
    exact closed_readValue t later n ((List.suffix_cons ..).trans within)
      (rests_default word awaits)
  split at found
  · cases found
  · cases found

theorem closed_readInit (last : Token) (rest : List Token) (n : Nat)
    (within : (last :: rest) <:+ run) (rests : Rests k after stack ⟨last, rest⟩) :
    ClosedIn run (walkOption (VariableDeclaration.readInit last rest n).value) := by
  obtain _ | ⟨t, later⟩ := rest
  · exact closedIn_nil
  unfold VariableDeclaration.readInit
  dsimp only
  split
  · rename_i equals
    exact closed_readValue t later n ((List.suffix_cons ..).trans within)
      (rests.awaits.passPlain (plain_of_isOperator equals))
  · exact closedIn_nil

theorem closed_readDeclarator (first : Token) (rest : List Token) (n : Nat)
    (within : (first :: rest) <:+ run)
    (awaits : Awaits k after (opened first.kind stack) ⟨first, rest⟩) :
    ClosedIn run ((VariableDeclaration.readDeclarator first rest n).value.toList.flatMap
      VariableDeclarator.walk) := by
  unfold VariableDeclaration.readDeclarator
  split
  · rename_i kind
    rw [kind] at awaits
    have init := closed_readInit first rest n within ⟨awaits, by rw [kind]; rfl⟩
    rw [Option.toList_some, List.flatMap_singleton]
    exact closedIn_declarator init _ _
  · exact closedIn_nil

/-- Declarators may break off inside a bracket, and those before are read as they are. -/
theorem closed_readDeclarators (last : Token) (rest : List Token) (n : Nat) :
    (last :: rest) <:+ run → Returns k after ⟨last, rest⟩ →
      ClosedIn run ((VariableDeclaration.readDeclarators last rest n).outcome.1.flatMap
        VariableDeclarator.walk) := by
  rw [VariableDeclaration.outcome_readDeclarators]
  obtain _ | ⟨t, later⟩ := rest
  · exact fun _ _ => closedIn_nil
  rintro within ⟨stack, awaits⟩
  have behind : (t :: later) <:+ run := (List.suffix_cons ..).trans within
  dsimp only
  split
  · rename_i starts
    have opening := awaits_declarator starts awaits
    have fits := (VariableDeclaration.readDeclarator t later n).fits
    have rests := rests_readDeclarator t later n opening
    have first := closed_readDeclarator t later n behind opening
    have next := suffix_of_advances (advances_of_yields (readDeclarator_yields t later n)) behind
    split
    · exact first
    · rename_i last comma more ends
      have next : ((VariableDeclaration.readDeclarator t later n).cursor.last ::
        (VariableDeclaration.readDeclarator t later n).cursor.rest) <:+ run := next
      rw [ends] at fits rests next
      have fits : more.length + 1 ≤ later.length := fits
      split
      · rename_i separates
        have passed := rests.awaits.passPlain (by rw [separates]; exact ⟨rfl, rfl⟩)
        rw [List.flatMap_append]
        exact closedIn_append.mpr ⟨first, closed_readDeclarators comma more _
          ((List.suffix_cons ..).trans next) ⟨stack, passed.awaits⟩⟩
      · exact first
  split
  · exact closedIn_nil
  · rename_i goes
    exact closed_readDeclarators t later n behind (returns_passed goes awaits)
termination_by rest.length

/-- All statements up to the end of the source are read with brackets that match. -/
theorem closed_readBody (importsOnly : Bool) (tokens : List Token) (n : Nat) (last : Token)
    (ends : k.isEof = true) :
    tokens <:+ run → Returns k after ⟨last, tokens⟩ →
      ClosedIn run ((Module.readBody importsOnly tokens n).1.flatMap Statement.walk) := by
  obtain _ | ⟨t, rest⟩ := tokens
  · rintro - ⟨stack, awaits⟩
    exact absurd rfl awaits.nonempty
  rintro within ⟨stack, awaits⟩
  have behind : rest <:+ run := (List.suffix_cons ..).trans within
  rw [Module.readBody]
  cases awaits with
  | here =>
    rw [if_pos ends]
    exact closedIn_nil
  | step inside nests more =>
    have passed := closed_readBody importsOnly rest n t ends behind ⟨_, more⟩
    simp only [inside, Bool.false_eq_true, ↓reduceIte]
    split
    · exact passed
    rename_i word
    have kind : t.kind = .keyword := by simpa using word
    have rests : Rests k after _ ⟨t, rest⟩ := ⟨more, by rw [kind]; rfl⟩
    split
    · have shorter := ImportDeclaration.length_read_le t rest
      have next := suffix_of_advances (advances_of_yields (readImport_yields t rest n)) within
      have others := closed_readBody importsOnly (ImportDeclaration.read t rest).2.rest n _ ends
        ((List.suffix_cons ..).trans next) (returns_readImport t rest rests)
      rw [List.flatMap_append]
      refine closedIn_append.mpr ⟨?_, others⟩
      exact closedIn_kept fun declaration _ => closedIn_import declaration
    split
    · have shorter := (DefaultExport.read t rest n).fits
      have next := suffix_of_advances (advances_of_yields (readExport_yields t rest n)) within
      have others := closed_readBody importsOnly (DefaultExport.read t rest n).cursor.rest
        (DefaultExport.read t rest n).nextId _ ends ((List.suffix_cons ..).trans next)
        ⟨_, awaits_readExport t rest n more⟩
      have first : ClosedIn run (((DefaultExport.read t rest n).value.toList.map
          Statement.defaultExport).flatMap Statement.walk) :=
        closedIn_kept fun _ found =>
          closedIn_statement (closed_readExport t rest n within more found)
      split
      · exact first
      · rw [List.flatMap_append]
        exact closedIn_append.mpr ⟨first, others⟩
    split
    · exact closedIn_nil
    split
    · have shorter := (VariableDeclaration.read t rest n).fits
      have next := suffix_of_advances (advances_of_yields (readVariables_yields t rest n)) within
      have others := closed_readBody importsOnly (VariableDeclaration.read t rest n).cursor.rest
        (VariableDeclaration.read t rest n).nextId _ ends ((List.suffix_cons ..).trans next)
        (returns_readVariables t rest n more)
      have declarators := closed_readDeclarators t rest n within ⟨_, more⟩
      rw [List.flatMap_cons]
      exact closedIn_append.mpr ⟨closedIn_statement declarators, others⟩
    · exact passed
termination_by tokens.length

end Reading

/-- In a source whose brackets are well nested, all expressions have brackets that
match. -/
theorem closed_module (source : String) (importsOnly : Bool)
    (nested : nestAll [] (Module.significant (Token.ofSource source)) = some []) :
    ClosedIn (Module.significant (Token.ofSource source))
      (Module.ofSource source importsOnly).walk := by
  obtain ⟨run, ends, inside⟩ := Tiling.ends_significant source
  have closed : nestAll [] run = some [] := nestAll_of_append (ends ▸ nested) rfl
  have awaits : Awaits (.endOfSource (Position.origin.advance source.toList)) [] []
      ⟨.endOfSource .origin, Module.significant (Token.ofSource source)⟩ := by
    rw [ends]
    exact awaits_of_stop (.inl rfl) run inside closed _ []
  exact closedIn_cons (by simp) (closedIn_cons (by simp)
    (closed_readBody importsOnly _ 0 _ rfl List.suffix_rfl ⟨_, awaits⟩))

/-- Reading respects brackets. An expression that starts a well-nested run of tokens
without the end of the source, with that end or with a closing bracket behind it, is
read from a part of the run that starts with its first token and is well nested too. So
in a source whose brackets are well nested, every object or array literal stands between
two brackets that match, and every call ends at the parenthesis that matches the one
behind its callee. -/
theorem brackets_respected :
    (∀ (stream run after : List Token) (first n : Nat) (stop : Token),
      stream.drop first = run ++ stop :: after → run ≠ [] → (∀ t ∈ run, t.isEof = false) →
      nestAll [] run = some [] → stop.isEof = true ∨ stop.kind.isClose = true →
        ∃ t used later, run = t :: (used ++ later) ∧ nestAll [] (t :: used) = some [] ∧
          (read t (stream.drop (first + 1)) n).cursor =
            ⟨used.getLastD t, later ++ stop :: after⟩) ∧
    ∀ (source : String) (importsOnly : Bool),
      nestAll [] (Module.significant (Token.ofSource source)) = some [] →
        ∀ e, .compound e ∈ (Module.ofSource source importsOnly).walk →
          Closes (Module.significant (Token.ofSource source)) e := by
  constructor
  · intro stream run after first n stop starts filled inside nested stops
    obtain ⟨t, run, rfl⟩ := List.exists_cons_of_ne_nil filled
    obtain ⟨used, later, same, closed, cursor⟩ := read_nested t run after n stops inside nested
    have behind : stream.drop (first + 1) = run ++ stop :: after := by
      rw [← List.tail_drop, starts]
      rfl
    refine ⟨t, used, later, congrArg (t :: ·) same, closed, ?_⟩
    rw [behind]
    exact cursor
  · exact fun source importsOnly nested => closed_module source importsOnly nested

/-- An array and a name behind it, up to a parenthesis that closes nothing among them,
and the call of a source. -/
theorem brackets_respected_call :
    (let word (kind : Token.Kind) (text : String) : Token := ⟨kind, text, default⟩
      let stream := [word .operator "!", word .leftBracket "[", word .identifier "a",
        word .rightBracket "]", word .identifier "b", word .rightParen ")"]
      ∃ t used later, (stream.drop 1).take 4 = t :: (used ++ later) ∧
        nestAll [] (t :: used) = some [] ∧
        (read t (stream.drop 2) 0).cursor = ⟨used.getLastD t, later ++ [word .rightParen ")"]⟩) ∧
    ∃ e, .compound e ∈ (Module.ofSource "let a = f([\x7b\x7d], b)" false).walk ∧
      e.kindName = "CallExpression" ∧
      Closes (Module.significant (Token.ofSource "let a = f([\x7b\x7d], b)")) e := by
  constructor
  · intro word stream
    exact brackets_respected.1 stream _ [] 1 0 (word .rightParen ")") rfl (by decide) (by decide)
      rfl (.inr rfl)
  · have found : (Module.ofSource "let a = f([\x7b\x7d], b)" false).walk.any (fun
        | .compound e => e.kindName == "CallExpression"
        | _ => false) = true := by decide +kernel
    obtain ⟨node, member, isCall⟩ := List.any_eq_true.mp found
    cases node with
    | compound e =>
      exact ⟨e, member, beq_iff_eq.mp isCall,
        brackets_respected.2 _ false (by decide +kernel) e member⟩
    | _ => cases isCall

end ImportAtlas.Brackets
