import ImportAtlas.Proofs.Consumption

/-! Moving a cursor respects brackets. A landmark is a token that no expression goes
past: the keyword of a statement, a closing bracket or the end of the source. A
cursor awaits it if the tokens up to the landmark close exactly the brackets that are
open at the cursor. Every function that moves past a construct which is not modelled
goes on awaiting the landmark, with the brackets open that were open around the
construct. So no statement is lost, and no bracket is closed but by its own kind. -/
namespace ImportAtlas.Nesting
open ImportAtlas.Expr

/-- The brackets open after a token, as the kinds that close them, innermost first.
A bracket that closes nothing, or not the innermost one, is not well nested. -/
def nest (stack : List Token.Kind) (kind : Token.Kind) : Option (List Token.Kind) :=
  match kind.closing? with
  | some closing => some (closing :: stack)
  | none =>
    if kind.isClose then
      match stack with
      | innermost :: outer => if innermost = kind then some outer else none
      | [] => none
    else some stack

/-- The brackets open after some tokens. -/
def nestAll : List Token.Kind → List Token → Option (List Token.Kind)
  | stack, [] => some stack
  | stack, t :: rest => (nest stack t.kind).bind fun after => nestAll after rest

/-- The brackets open behind a token that closes none. -/
def opened (kind : Token.Kind) (stack : List Token.Kind) : List Token.Kind :=
  kind.closing?.toList ++ stack

/-- Whether a token makes a name of the word after it. -/
def isAccess (t : Token) : Bool :=
  t.isOperator "." || t.isOperator "?."

/-- The kinds of the tokens that an expression may end before. -/
def isMark (kind : Token.Kind) : Bool :=
  kind == .keyword || kind == .eof || kind.isClose

/-- A token that no expression goes past. -/
structure Landmark (k : Token) (after : List Token) : Prop where
  kind : isMark k.kind = true
  boundary : ∀ last, Cursor.atBoundary ⟨last, k :: after⟩ = true
  notDefault : k.isKeyword "default" = false

/-- A landmark is still to come, and the tokens before it close the open brackets. A
keyword is no landmark where it is the name of a member. -/
inductive Awaits (k : Token) (after : List Token) : List Token.Kind → Cursor → Prop where
  | here (mark : Landmark k after) (free : k.kind = .keyword → isAccess last = false) :
      Awaits k after [] ⟨last, k :: after⟩
  | step (inside : t.isEof = false) (nests : nest stack t.kind = some below)
      (more : Awaits k after below ⟨t, rest⟩) : Awaits k after stack ⟨last, t :: rest⟩

/-- A landmark is awaited behind a construct that is over. -/
structure Rests (k : Token) (after : List Token) (stack : List Token.Kind) (c : Cursor) : Prop where
  awaits : Awaits k after stack c
  closed : c.last.kind.isOpen = false

variable {k : Token} {after : List Token}

theorem nest_of_not_close (plain : kind.isClose = false) (stack : List Token.Kind) :
    nest stack kind = some (opened kind stack) := by
  unfold nest opened
  cases kind with
  | _ => first | rfl | cases plain

theorem opened_of_not_open (plain : kind.isOpen = false) (stack : List Token.Kind) :
    opened kind stack = stack := by
  unfold opened
  cases kind with
  | _ => first | rfl | cases plain

private theorem closing?_of_isClose {kind : Token.Kind} (closes : kind.isClose = true) :
    kind.closing? = none := by
  cases kind with
  | _ => first | rfl | cases closes

theorem nest_close (closes : kind.isClose = true) (below : List Token.Kind) :
    nest (kind :: below) kind = some below := by
  simp [nest, closing?_of_isClose closes, closes]

theorem nest_of_close (closes : kind.isClose = true) (nests : nest stack kind = some below) :
    stack = kind :: below := by
  have none := closing?_of_isClose closes
  obtain _ | ⟨innermost, outer⟩ := stack
  · simp [nest, none, closes] at nests
  · simp only [nest, none, closes, ↓reduceIte] at nests
    split at nests
    · rename_i same
      cases nests
      rw [same]
    · cases nests

/-- A token closes the innermost bracket, or adds what it opens. -/
theorem nest_cases (nests : nest stack kind = some below) :
    (kind.isClose = false ∧ below = opened kind stack) ∨
      (kind.isClose = true ∧ stack = kind :: below) := by
  cases closes : kind.isClose with
  | false =>
    rw [nest_of_not_close closes] at nests
    exact .inl ⟨rfl, (Option.some.inj nests).symm⟩
  | true => exact .inr ⟨rfl, nest_of_close closes nests⟩

/-- There is no landmark at the end of the tokens. -/
theorem Awaits.nonempty (awaits : Awaits k after stack c) : c.rest ≠ [] := by
  cases awaits with
  | here => simp
  | step => simp

/-- The next token is the landmark, or it is passed on the way there. -/
theorem Awaits.next (awaits : Awaits k after stack ⟨last, t :: rest⟩) :
    (t = k ∧ Landmark t rest ∧ stack = [] ∧ (t.kind = .keyword → isAccess last = false)) ∨
      (t.isEof = false ∧ ∃ below, nest stack t.kind = some below ∧ Awaits k after below ⟨t, rest⟩) := by
  cases awaits with
  | here mark free => exact .inl ⟨rfl, mark, rfl, free⟩
  | step inside nests more => exact .inr ⟨inside, _, nests, more⟩

/-- A token of another kind is no landmark. -/
theorem Awaits.pass (awaits : Awaits k after stack ⟨last, t :: rest⟩)
    (kind : isMark t.kind = false) :
    ∃ below, nest stack t.kind = some below ∧ Awaits k after below ⟨t, rest⟩ := by
  rcases awaits.next with ⟨rfl, mark, -, -⟩ | ⟨-, passed⟩
  · rw [mark.kind] at kind
    cases kind
  · exact passed

/-- Inside brackets no token is a landmark. -/
theorem Awaits.passInner (awaits : Awaits k after (closing :: stack) ⟨last, t :: rest⟩) :
    t.isEof = false ∧
      ∃ below, nest (closing :: stack) t.kind = some below ∧ Awaits k after below ⟨t, rest⟩ := by
  rcases awaits.next with ⟨-, -, impossible, -⟩ | passed
  · cases impossible
  · exact passed

/-- Where an expression goes on there is no landmark, and no bracket is closed. -/
theorem Awaits.passGoes (awaits : Awaits k after stack ⟨last, t :: rest⟩)
    (goes : ¬Cursor.atBoundary ⟨last, t :: rest⟩ = true) :
    Awaits k after (opened t.kind stack) ⟨t, rest⟩ := by
  rcases awaits.next with ⟨rfl, mark, -, -⟩ | ⟨-, below, nests, more⟩
  · exact absurd (mark.boundary last) goes
  · have plain : t.kind.isClose = false := by
      simp only [Cursor.atBoundary, Cursor.isTerminator, Bool.or_eq_true] at goes
      cases closes : t.kind.isClose with
      | false => rfl
      | true => exact absurd (by simp [closes]) goes
    rw [nest_of_not_close plain] at nests
    cases nests
    exact more

/-- Neither a bracket nor a landmark. -/
structure Plain (kind : Token.Kind) : Prop where
  notMark : isMark kind = false
  notOpen : kind.isOpen = false

theorem Plain.notClose (plain : Plain kind) : kind.isClose = false := by
  have notMark := plain.notMark
  simp only [isMark, Bool.or_eq_false_iff] at notMark
  exact notMark.2

/-- A plain token changes nothing. -/
theorem Awaits.passPlain (awaits : Awaits k after stack ⟨last, t :: rest⟩) (plain : Plain t.kind) :
    Rests k after stack ⟨t, rest⟩ := by
  obtain ⟨below, nests, more⟩ := awaits.pass plain.notMark
  rw [nest_of_not_close plain.notClose, opened_of_not_open plain.notOpen] at nests
  cases nests
  exact ⟨more, plain.notOpen⟩

/-- An opening bracket adds what closes it. -/
theorem Awaits.passOpen (awaits : Awaits k after stack ⟨last, t :: rest⟩)
    (pair : t.kind.closing? = some closing) : Awaits k after (closing :: stack) ⟨t, rest⟩ := by
  have notMark : isMark t.kind = false := by
    generalize t.kind = kind at pair
    cases kind with
    | leftBrace | leftParen | leftBracket => rfl
    | _ => cases pair
  obtain ⟨below, nests, more⟩ := awaits.pass notMark
  simp only [nest, pair] at nests
  cases nests
  exact more

theorem not_isOpen_of_isClose {kind : Token.Kind} (closes : kind.isClose = true) :
    kind.isOpen = false := by
  cases kind with
  | _ => first | rfl | cases closes

private theorem isClose_of_closing? {kind : Token.Kind} (pair : kind.closing? = some closing) :
    closing.isClose = true := by
  cases kind with
  | leftBrace | leftParen | leftBracket => cases pair; rfl
  | _ => cases pair

/-- Two brackets that are closed alike are opened alike. -/
private theorem closing?_injective {first second : Token.Kind} (one : first.closing? = some closing)
    (other : second.closing? = some closing) : first = second := by
  cases first with
  | leftBrace | leftParen | leftBracket =>
    cases one
    cases second with
    | leftBrace | leftParen | leftBracket => first | rfl | cases other
    | _ => cases other
  | _ => cases one

/-- Counting one kind of bracket finds the right closing one, since the brackets of
the other kinds are well nested in between. -/
private theorem rests_toClosing (pair : opening.closing? = some closing) (depth : Nat) (last : Token)
    (rest : List Token) (below : List Token.Kind) (count : below.count closing = depth)
    (awaits : Awaits k after (below ++ closing :: stack) ⟨last, rest⟩) :
    Rests k after stack (Cursor.toClosing opening closing depth last rest) := by
  induction rest generalizing depth last below with
  | nil => exact absurd rfl awaits.nonempty
  | cons t rest ih =>
    have closes := isClose_of_closing? pair
    rcases awaits.next with ⟨-, -, impossible, -⟩ | ⟨inside, new, nests, more⟩
    · simp at impossible
    simp only [Cursor.toClosing, inside, Bool.false_eq_true, ↓reduceIte]
    split
    · rename_i opens
      refine ih (depth + 1) t (closing :: below) (by simp [count]) ?_
      have grown : nest (below ++ closing :: stack) t.kind =
          some (closing :: (below ++ closing :: stack)) := by
        simp [nest, opens, pair]
      rw [grown] at nests
      cases nests
      exact more
    split
    · rename_i ends
      have top := nest_of_close (ends ▸ closes) nests
      rw [ends] at top
      obtain _ | ⟨innermost, below⟩ := below
      · obtain rfl : depth = 0 := by simpa using count.symm
        cases top
        exact ⟨more, by simp [ends, not_isOpen_of_isClose closes]⟩
      · obtain ⟨rfl, rfl⟩ := List.cons.inj top
        rw [List.count_cons_self] at count
        subst count
        exact ih _ t below rfl more
    · rename_i notOpening notClosing
      rcases nest_cases nests with ⟨-, grown⟩ | ⟨-, top⟩
      · rw [opened, ← List.append_assoc] at grown
        refine ih depth t (t.kind.closing?.toList ++ below) ?_ (grown ▸ more)
        have other : t.kind.closing? ≠ some closing :=
          fun same => notOpening (closing?_injective same pair)
        cases found : t.kind.closing? with
        | none => simpa using count
        | some kind =>
          have differs : kind ≠ closing := fun same => other (same ▸ found)
          simpa [differs] using count
      · obtain _ | ⟨innermost, below⟩ := below
        · exact absurd (List.cons.inj top).1.symm notClosing
        · obtain ⟨rfl, rfl⟩ := List.cons.inj top
          rw [List.count_cons_of_ne notClosing] at count
          exact ih depth t below count more

theorem isOpen_eq_isSome (kind : Token.Kind) : kind.isOpen = kind.closing?.isSome := by
  cases kind with
  | _ => rfl

theorem rests_skipBalanced (awaits : Awaits k after (opened first.kind stack) ⟨first, rest⟩) :
    Rests k after stack (Cursor.skipBalanced ⟨first, rest⟩) := by
  unfold opened at awaits
  unfold Cursor.skipBalanced
  split
  · rename_i closing pair
    rw [pair] at awaits
    exact rests_toClosing pair 0 first rest [] rfl awaits
  · rename_i none
    rw [none] at awaits
    exact ⟨awaits, by rw [isOpen_eq_isSome, none]; rfl⟩

/-- Behind an opening bracket of a parameter list, with some more open inside it. -/
theorem rests_arrowParams (depth : Nat) (last : Token) (rest : List Token)
    (below : List Token.Kind) (count : below.length = depth)
    (awaits : Awaits k after (below ++ closing :: stack) ⟨last, rest⟩) :
    Rests k after stack (arrowParams depth last rest).2 := by
  induction rest generalizing depth last below with
  | nil => exact absurd rfl awaits.nonempty
  | cons t rest ih =>
    rcases awaits.next with ⟨-, -, impossible, -⟩ | ⟨inside, new, nests, more⟩
    · simp at impossible
    simp only [arrowParams, inside, Bool.false_eq_true, ↓reduceIte]
    rcases nest_cases nests with ⟨notClose, grown⟩ | ⟨closes, top⟩
    · rw [opened, ← List.append_assoc] at grown
      subst grown
      simp only [notClose, Bool.false_eq_true, ↓reduceIte]
      split
      · rename_i opens
        rw [isOpen_eq_isSome] at opens
        obtain ⟨kind, found⟩ := Option.isSome_iff_exists.mp opens
        refine ih (depth + 1) t _ ?_ more
        simp [found, count]
      · rename_i notOpen
        rw [isOpen_eq_isSome, Option.not_isSome_iff_eq_none] at notOpen
        rw [notOpen] at more
        have passed := ih depth t below count more
        split
        · exact passed
        · exact passed
    · simp only [not_isOpen_of_isClose closes, closes, Bool.false_eq_true, ↓reduceIte]
      obtain _ | ⟨innermost, below⟩ := below
      · obtain rfl : depth = 0 := by simpa using count.symm
        cases top
        exact ⟨more, not_isOpen_of_isClose closes⟩
      · obtain ⟨rfl, rfl⟩ := List.cons.inj top
        subst count
        exact ih _ t below rfl more

/-- The depth that some brackets, open inside an expression, make up. -/
structure Counts (depth : Cursor.Depth) (below : List Token.Kind) : Prop where
  braces : depth.braces = below.count .rightBrace
  parens : depth.parens = below.count .rightParen
  brackets : depth.brackets = below.count .rightBracket
  closing : ∀ kind ∈ below, kind.isClose = true

theorem Counts.isNested (counts : Counts depth below) : depth.isNested = !below.isEmpty := by
  obtain ⟨braces, parens, brackets, closing⟩ := counts
  cases below with
  | nil => simp [Cursor.Depth.isNested, braces, parens, brackets]
  | cons kind below =>
    have closes := closing kind (List.mem_cons_self ..)
    have counted : 0 < (kind :: below).count kind :=
      List.count_pos_iff.mpr (List.mem_cons_self ..)
    have nested : 0 < depth.braces + depth.parens + depth.brackets := by
      rw [braces, parens, brackets]
      cases kind with
      | rightBrace | rightParen | rightBracket => omega
      | _ => cases closes
    exact decide_eq_true nested

theorem Counts.behindOpen (counts : Counts depth below) (notClose : kind.isClose = false) :
    Counts (depth.after kind) (opened kind below) := by
  obtain ⟨braces, parens, brackets, closing⟩ := counts
  cases kind with
  | leftBrace | leftParen | leftBracket =>
    constructor
    · simp [Cursor.Depth.after, opened, Token.Kind.closing?, braces]
    · simp [Cursor.Depth.after, opened, Token.Kind.closing?, parens]
    · simp [Cursor.Depth.after, opened, Token.Kind.closing?, brackets]
    · simpa [opened, Token.Kind.closing?, Token.Kind.isClose] using closing
  | rightBrace | rightParen | rightBracket => cases notClose
  | _ => exact ⟨braces, parens, brackets, closing⟩

theorem Counts.behindClose (counts : Counts depth (kind :: below)) : Counts (depth.after kind) below := by
  obtain ⟨braces, parens, brackets, closing⟩ := counts
  have closes := closing kind (List.mem_cons_self ..)
  have others : ∀ kind ∈ below, kind.isClose = true :=
    fun kind member => closing kind (List.mem_cons_of_mem _ member)
  cases kind with
  | rightBrace | rightParen | rightBracket =>
    constructor
    · simp [Cursor.Depth.after, braces]
    · simp [Cursor.Depth.after, parens]
    · simp [Cursor.Depth.after, brackets]
    · exact others
  | _ => cases closes

/-- The brackets open behind the first token of an expression. A closing one there
counts for nothing. -/
theorem Counts.first (kind : Token.Kind) : Counts (Cursor.Depth.after {} kind) (opened kind []) := by
  have none : Counts {} [] := ⟨rfl, rfl, rfl, by simp⟩
  cases closes : kind.isClose with
  | false => exact none.behindOpen closes
  | true =>
    rw [opened_of_not_open (not_isOpen_of_isClose closes)]
    cases kind with
    | rightBrace | rightParen | rightBracket => exact none
    | _ => cases closes

private theorem not_isOpen_of_opened_eq_nil (empty : opened kind below = []) : kind.isOpen = false := by
  have none := (List.append_eq_nil_iff.mp empty).1
  rw [isOpen_eq_isSome, Option.toList_eq_nil_iff.mp none]
  rfl

/-- An expression ends before a landmark outside its brackets, and inside them there
is none. -/
private theorem rests_toBoundary (depth : Cursor.Depth) (last : Token) (rest : List Token)
    (below : List Token.Kind) (counts : Counts depth below)
    (closed : below = [] → last.kind.isOpen = false)
    (awaits : Awaits k after (below ++ stack) ⟨last, rest⟩) :
    Rests k after stack (Cursor.toBoundary depth last rest) := by
  induction rest generalizing depth last below with
  | nil => exact absurd rfl awaits.nonempty
  | cons t rest ih =>
    simp only [Cursor.toBoundary]
    split
    · rename_i stops
      obtain _ | ⟨innermost, below⟩ := below
      · exact ⟨awaits, closed rfl⟩
      · -- Inside brackets only the end of the source could stop it.
        have inside := awaits.passInner.1
        simp [Cursor.stopsAt, counts.isNested, Cursor.nextIs, inside] at stops
    · rename_i goes
      have outside (empty : below = []) : ¬Cursor.atBoundary ⟨last, t :: rest⟩ = true := by
        subst empty
        simpa [Cursor.stopsAt, counts.isNested] using goes
      rcases awaits.next with ⟨rfl, mark, empty, -⟩ | ⟨inside, new, nests, more⟩
      · exact absurd (mark.boundary last) (outside (List.append_eq_nil_iff.mp empty).1)
      rcases nest_cases nests with ⟨notClose, rfl⟩ | ⟨closes, top⟩
      · refine ih _ t (opened t.kind below) (counts.behindOpen notClose) not_isOpen_of_opened_eq_nil ?_
        rwa [opened, List.append_assoc]
      · obtain _ | ⟨innermost, below⟩ := below
        · exact absurd (by simp [Cursor.atBoundary, Cursor.isTerminator, closes]) (outside rfl)
        · obtain ⟨rfl, rfl⟩ := List.cons.inj top
          exact ih _ t below counts.behindClose (fun _ => not_isOpen_of_isClose closes) more

theorem rests_skipExpression (awaits : Awaits k after (opened first.kind stack) ⟨first, rest⟩) :
    Rests k after stack (Cursor.skipExpression ⟨first, rest⟩) := by
  refine rests_toBoundary _ first rest _ (.first first.kind) not_isOpen_of_opened_eq_nil ?_
  rwa [opened, List.append_nil]

/-- An expression goes on behind a construct that is over. -/
theorem Rests.skipExpression (rests : Rests k after stack c) :
    Rests k after stack c.skipExpression := by
  refine rests_skipExpression ?_
  rw [opened_of_not_open rests.closed]
  exact rests.awaits

theorem plain_of_isOperator {t : Token} (operator : t.isOperator text = true) : Plain t.kind := by
  simp only [Token.isOperator, Bool.and_eq_true, beq_iff_eq] at operator
  rw [operator.1]
  exact ⟨rfl, rfl⟩

theorem plain_of_identifier {t : Token} (kind : t.kind = .identifier) : Plain t.kind := by
  rw [kind]
  exact ⟨rfl, rfl⟩

theorem plain_of_isIdentifier {t : Token} (named : t.isIdentifier text = true) : Plain t.kind := by
  simp only [Token.isIdentifier, Bool.and_eq_true, beq_iff_eq] at named
  exact plain_of_identifier named.1

theorem awaits_skipIf {p : Token → Bool} (plain : ∀ t, p t = true → Plain t.kind)
    (awaits : Awaits k after stack c) : Awaits k after stack (c.skipIf p) := by
  obtain ⟨last, _ | ⟨t, rest⟩⟩ := c
  · exact awaits
  · simp only [Cursor.skipIf]
    split
    · rename_i accepted
      exact (awaits.passPlain (plain t accepted)).awaits
    · exact awaits

theorem rests_skipIf {p : Token → Bool} (plain : ∀ t, p t = true → Plain t.kind)
    (rests : Rests k after stack c) : Rests k after stack (c.skipIf p) := by
  refine ⟨awaits_skipIf plain rests.awaits, ?_⟩
  obtain ⟨last, _ | ⟨t, rest⟩⟩ := c
  · exact rests.closed
  · simp only [Cursor.skipIf]
    split
    · rename_i accepted
      exact (plain t accepted).notOpen
    · exact rests.closed

theorem awaits_skipTerminator (awaits : Awaits k after stack c) :
    Awaits k after stack c.skipTerminator :=
  awaits_skipIf (fun _ => plain_of_isOperator) awaits

theorem rests_skipBracket {c : Cursor} (pair : opening.closing? = some closing)
    (rests : Rests k after stack c) : Rests k after stack (c.skipBracket opening) := by
  obtain ⟨last, _ | ⟨t, rest⟩⟩ := c
  · exact rests
  · simp only [Cursor.skipBracket]
    split
    · rename_i same
      rw [← same] at pair
      have inside := rests.awaits.passOpen pair
      refine rests_skipBalanced ?_
      rwa [opened, pair]
    · exact rests

theorem rests_skipMethod {c : Cursor} (rests : Rests k after stack c) :
    Rests k after stack c.skipMethod :=
  rests_skipBracket rfl (rests_skipBracket rfl rests)

theorem rests_skipFunction {c : Cursor} (rests : Rests k after stack c) :
    Rests k after stack c.skipFunction := by
  have star := rests_skipIf (p := (·.isOperator "*")) (fun _ => plain_of_isOperator) rests
  exact rests_skipMethod (rests_skipIf (fun _ named => plain_of_identifier (by simpa using named)) star)

theorem rests_of_arrow? (found : Cursor.arrow? rest = some c)
    (awaits : Awaits k after stack ⟨last, rest⟩) : Rests k after stack c := by
  unfold Cursor.arrow? at found
  split at found
  · split at found
    · rename_i both
      cases found
      simp only [Bool.and_eq_true, beq_iff_eq] at both
      have equals := awaits.passPlain (plain_of_isOperator both.1)
      exact equals.awaits.passPlain (by rw [both.2]; exact ⟨rfl, rfl⟩)
    · cases found
  · cases found

/-- The word after a dot is no landmark. -/
theorem rests_of_member? (found : member? rest = some c)
    (awaits : Awaits k after stack ⟨last, rest⟩) : Rests k after stack c := by
  unfold member? at found
  split at found
  · rename_i dot name later
    split at found
    · rename_i both
      cases found
      simp only [Bool.and_eq_true, Bool.or_eq_true, beq_iff_eq] at both
      obtain ⟨access, word⟩ := both
      have plain : Plain dot.kind := access.elim plain_of_isOperator plain_of_isOperator
      have shape : name.kind.isOpen = false ∧ name.kind.isClose = false := by
        rcases word with kind | kind
        · simp [kind, Token.Kind.isOpen, Token.Kind.isClose]
        · simp [kind, Token.Kind.isOpen, Token.Kind.isClose]
      rcases (awaits.passPlain plain).awaits.next with ⟨-, mark, -, free⟩ | ⟨-, below, nests, more⟩
      · have accesses : isAccess dot = true := by simpa [isAccess] using access
        rcases word with kind | kind
        · have mark := mark.kind
          rw [kind] at mark
          cases mark
        · rw [free kind] at accesses
          cases accesses
      · rw [nest_of_not_close shape.2, opened_of_not_open shape.1] at nests
        cases nests
        exact ⟨more, shape.1⟩
    · cases found
  · cases found

theorem rests_of_asyncParam? (found : asyncParam? first rest = some (param, c))
    (awaits : Awaits k after stack ⟨first, rest⟩) : Rests k after stack c := by
  unfold asyncParam? at found
  split at found
  · split at found
    · rename_i both
      obtain ⟨_, atArrow, same⟩ := Option.map_eq_some_iff.mp found
      cases same
      exact rests_of_arrow? atArrow (awaits.passPlain (plain_of_identifier both.2)).awaits
    · cases found
  · cases found

theorem awaits_of_asyncParens? (found : asyncParens? first rest = some c)
    (awaits : Awaits k after stack ⟨first, rest⟩) : Awaits k after (.rightParen :: stack) c := by
  unfold asyncParens? at found
  split at found
  · split at found
    · rename_i both
      cases found
      exact awaits.passOpen (by rw [both.2.1]; rfl)
    · cases found
  · cases found

end ImportAtlas.Nesting