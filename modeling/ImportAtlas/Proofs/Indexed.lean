import ImportAtlas.Proofs.Outcome

/-! Reading by index. The reader here owns the whole stream and an index into it, and
reaches tokens by subscripts. Nothing is taken for granted: a subscript faults when it is
out of range, a counter faults when it would fall below zero, and a turn of a loop faults
when it leaves as many tokens unread as there were before. The last check is what the
recursion goes by, so there is no fuel. A subscript whose token is not used stands for one
that only the log needs. The reader is shown to agree with the one that takes the stream
apart token by token, and so never to fault. -/
namespace ImportAtlas.Indexed

/-- What may go wrong while reading by index. -/
inductive Fault where
  /-- A subscript out of range. -/
  | outOfRange
  /-- A counter below zero. -/
  | underflow
  /-- A turn of a loop that consumes nothing. -/
  | stalled
  deriving DecidableEq, Repr

/-- The state of a reader: the index of the next token, and the number of the next object
literal. -/
structure Place where
  index : Nat
  nextId : Nat

/-- What a routine yields: a value, the index of the last token consumed, and the place
behind it. -/
structure Found (α : Type) where
  value : α
  last : Nat
  place : Place

/-- One less. -/
def decrement (depth : Nat) : Except Fault Nat :=
  if depth = 0 then throw .underflow else pure (depth - 1)

section Stream
variable (stream : List Token)

/-- The token at an index. -/
def token (index : Nat) : Except Fault Token :=
  match stream[index]? with
  | some t => pure t
  | none => throw .outOfRange

/-- The span from the token at one index to the token at another. -/
def between (first last : Nat) : Except Fault Span := do
  return Span.between (← token stream first).span (← token stream last).span

/-- The identifier that the token at an index spells. -/
def identifier (index : Nat) : Except Fault Identifier := do
  return (← token stream index).identifier

/-- The next token, not consumed. -/
def peek (place : Place) : Option Token :=
  stream[place.index]?

/-- The token behind the next one. -/
def peekNext (place : Place) : Option Token :=
  stream[place.index + 1]?

/-- Whether the next token satisfies a predicate. -/
def peekIs (p : Token → Bool) (place : Place) : Bool :=
  (peek stream place).any p

/-- Consumes a token and yields its index. -/
def next (place : Place) : Option (Nat × Place) :=
  if place.index < stream.length then
    some (place.index, { place with index := place.index + 1 })
  else none

/-- Consumes a token, if there is one. -/
def step (last : Nat) (place : Place) : Except Fault (Found Unit) :=
  match next stream place with
  | some (index, after) => pure ⟨(), index, after⟩
  | none => pure ⟨(), last, place⟩

/-- Consumes the next token if it satisfies a predicate. -/
def eat (p : Token → Bool) (last : Nat) (place : Place) : Except Fault (Found Unit) :=
  if peekIs stream p place then step stream last place else pure ⟨(), last, place⟩

/-- How many tokens have not been consumed. -/
def unconsumed (place : Place) : Nat :=
  stream.length - place.index

/-- Checks that something has been consumed. -/
def advanced (before after : Place) :
    Except Fault (PLift (unconsumed stream after < unconsumed stream before)) :=
  if less : unconsumed stream after < unconsumed stream before then pure ⟨less⟩
  else throw .stalled

/-- Checks that nothing has been given back. -/
def kept (before after : Place) :
    Except Fault (PLift (unconsumed stream after ≤ unconsumed stream before)) :=
  if less : unconsumed stream after ≤ unconsumed stream before then pure ⟨less⟩
  else throw .stalled

/-- Consumes tokens through the one that closes a bracket, with `depth` brackets open. -/
def toClosing (opening closing : Token.Kind) (depth last : Nat) (place : Place) :
    Except Fault (Found Unit) :=
  if peekIs stream (fun t => !t.isEof) place then
    match next stream place with
    | none => pure ⟨(), last, place⟩
    | some (index, after) => do
      let ⟨less⟩ ← advanced stream place after
      let kind := (← token stream index).kind
      if kind = opening then toClosing opening closing (depth + 1) index after
      else if kind = closing then
        let depth ← decrement depth
        if depth = 0 then return ⟨(), index, after⟩
        else toClosing opening closing depth index after
      else toClosing opening closing depth index after
  else pure ⟨(), last, place⟩
termination_by unconsumed stream place

/-- Consumes tokens through the one that closes the bracket at an index. -/
def balanced (opening : Nat) (place : Place) : Except Fault (Found Unit) := do
  let kind := (← token stream opening).kind
  match kind.closing? with
  | some closing => toClosing stream kind closing 1 opening place
  | none => return ⟨(), opening, place⟩

/-- Whether the next tokens are `import` as a value. -/
def atDynamicImport (place : Place) : Bool :=
  peekIs stream (·.isKeyword "import") place &&
  (peekNext stream place).any fun t => t.kind == .leftParen || t.isOperator "."

/-- Whether the expression that ends with the token at an index goes no further. -/
def atBoundary (last : Nat) (place : Place) : Except Fault Bool :=
  match peek stream place with
  | none => pure true
  | some t =>
    if Cursor.isTerminator t then pure true
    else if t.kind == .keyword && !Token.expressionKeywords.contains t.value &&
        !atDynamicImport stream place then pure true
    else do
      let previous ← token stream last
      return decide (previous.span.stop.line < t.span.start.line) && Cursor.startsStatement t &&
        previous.endsExpression && previous.kind != .ambiguousGt

/-- Whether an expression with some open brackets goes no further. -/
def stopsAt (depth : Cursor.Depth) (last : Nat) (place : Place) : Except Fault Bool :=
  if depth.isNested then pure ((peek stream place).all Token.isEof)
  else atBoundary stream last place

/-- Consumes tokens up to the first boundary outside brackets. -/
def toBoundary (depth : Cursor.Depth) (last : Nat) (place : Place) :
    Except Fault (Found Unit) := do
  if ← stopsAt stream depth last place then return ⟨(), last, place⟩
  match next stream place with
  | none => return ⟨(), last, place⟩
  | some (index, after) =>
    let ⟨_⟩ ← advanced stream place after
    let kind := (← token stream index).kind
    toBoundary (depth.after kind) index after
termination_by unconsumed stream place

/-- Consumes the rest of the expression whose last consumed token is at an index. -/
def skipExpression (first : Nat) (place : Place) : Except Fault (Found Unit) := do
  let kind := (← token stream first).kind
  toBoundary stream (Cursor.Depth.after {} kind) first place

/-- Consumes a bracketed region if the next token opens one of the given kind. -/
def bracket (kind : Token.Kind) (last : Nat) (place : Place) : Except Fault (Found Unit) :=
  if peekIs stream (·.kind == kind) place then
    match next stream place with
    | some (opening, after) => balanced stream opening after
    | none => pure ⟨(), last, place⟩
  else pure ⟨(), last, place⟩

/-- Consumes the parameter list of a method, whatever its first token is, and a body. -/
def method (name : Nat) (place : Place) : Except Fault (Found Unit) := do
  let params ←
    match next stream place with
    | some (opening, after) => balanced stream opening after
    | none => pure ⟨(), name, place⟩
  bracket stream .leftBrace params.last params.place

/-- Consumes what follows the keyword of a function. -/
def skipFunction (keyword : Nat) (place : Place) : Except Fault (Found Unit) := do
  let star ← eat stream (·.isOperator "*") keyword place
  let name ← eat stream (·.kind == .identifier) star.last star.place
  let params ← bracket stream .leftParen name.last name.place
  let body ← bracket stream .leftBrace params.last params.place
  let _ ← token stream keyword
  return body

/-- The token at an index is the last one that a cursor has consumed, and the tokens
behind it are those to come. -/
def Stands (last : Nat) (c : Cursor) : Prop :=
  stream.drop last = c.last :: c.rest

/-- A routine ends behind a cursor, with the value and the next number of an outcome. -/
def EndsAt (outcome : α × Cursor × Nat) (found : Found α) : Prop :=
  ∃ last, found = ⟨outcome.1, last, ⟨last + 1, outcome.2.2⟩⟩ ∧ Stands stream last outcome.2.1

/-- A run does not fault, and what it yields is as it should be. -/
def Settles (run : Except Fault α) (good : α → Prop) : Prop :=
  ∃ x, run = pure x ∧ good x

/-- A routine does not fault, and ends where it should with what it should. -/
abbrev Agrees (run : Except Fault (Found α)) (outcome : α × Cursor × Nat) : Prop :=
  Settles run (EndsAt stream outcome)

end Stream

section Steps
variable {stream : List Token}

theorem Stands.token (stands : Stands stream i c) : stream[i]? = some c.last := by
  rw [← List.head?_drop, stands, List.head?_cons]

theorem Stands.drop (stands : Stands stream i c) : stream.drop (i + 1) = c.rest := by
  rw [← List.tail_drop, stands, List.tail_cons]

/-- The token behind a place is at the next index. -/
theorem Stands.next (stands : Stands stream i ⟨t, u :: rest⟩) : Stands stream (i + 1) ⟨u, rest⟩ :=
  stands.drop

theorem token_eq (here : stream[i]? = some t) : token stream i = pure t := by
  unfold token
  rw [here]

theorem peek_eq (stands : Stands stream i c) : peek stream ⟨i + 1, n⟩ = c.rest.head? := by
  rw [← stands.drop, List.head?_drop]
  rfl

theorem peekNext_eq (stands : Stands stream i ⟨t, u :: rest⟩) :
    peekNext stream ⟨i + 1, n⟩ = rest.head? :=
  @peek_eq stream (i + 1) _ n stands.next

theorem peekIs_eq (stands : Stands stream i c) : peekIs stream p ⟨i + 1, n⟩ = c.nextIs p := by
  unfold peekIs
  rw [peek_eq stands]
  obtain ⟨last, _ | ⟨t, rest⟩⟩ := c
  · rfl
  · rfl

theorem unconsumed_eq (stands : Stands stream i c) :
    unconsumed stream ⟨i + 1, n⟩ = c.rest.length := by
  rw [← stands.drop, List.length_drop]
  rfl

/-- The token that a place stands behind, consumed. -/
theorem next_here (stands : Stands stream i c) : next stream ⟨i, n⟩ = some (i, ⟨i + 1, n⟩) := by
  have within : i < stream.length := (List.getElem?_eq_some_iff.mp stands.token).1
  unfold next
  rw [if_pos within]

theorem next_cons (stands : Stands stream i ⟨t, u :: rest⟩) :
    next stream ⟨i + 1, n⟩ = some (i + 1, ⟨i + 1 + 1, n⟩) :=
  next_here stands.next

theorem agrees_pure (stands : Stands stream i c) (value : α) :
    Agrees stream (pure ⟨value, i, ⟨i + 1, n⟩⟩) (value, c, n) :=
  ⟨_, rfl, i, rfl, stands⟩

/-- Where a routine ends, the rest goes on. -/
theorem settles_bind {run : Except Fault (Found α)} {rest : Found α → Except Fault β}
    {outcome : α × Cursor × Nat} (agrees : Agrees stream run outcome)
    (more : ∀ last, Stands stream last outcome.2.1 →
      Settles (rest ⟨outcome.1, last, ⟨last + 1, outcome.2.2⟩⟩) good) :
    Settles (run >>= rest) good := by
  obtain ⟨_, rfl, last, rfl, stands⟩ := agrees
  exact more last stands

/-- What a reading yields is taken up where it ends. -/
theorem settles_reading {run : Except Fault (Found α)} {rest : Found α → Except Fault β}
    {r : Reading α bound} (agrees : Agrees stream run r.outcome)
    (more : ∀ last, Stands stream last r.cursor →
      Settles (rest ⟨r.value, last, ⟨last + 1, r.nextId⟩⟩) good) :
    Settles (run >>= rest) good :=
  settles_bind agrees more

/-- A subscript in range. -/
theorem settles_token {rest : Token → Except Fault α} (here : stream[i]? = some t)
    (more : Settles (rest t) good) : Settles (token stream i >>= rest) good := by
  rw [token_eq here]
  exact more

theorem settles_between {rest : Span → Except Fault α} (first : stream[i]? = some t)
    (last : stream[j]? = some u) (more : Settles (rest (t.through u)) good) :
    Settles (between stream i j >>= rest) good := by
  unfold between
  rw [token_eq first, token_eq last]
  exact more

theorem settles_identifier {rest : Identifier → Except Fault α} (here : stream[i]? = some t)
    (more : Settles (rest t.identifier) good) :
    Settles (identifier stream i >>= rest) good := by
  unfold identifier
  rw [token_eq here]
  exact more

/-- A turn that consumes something. -/
theorem settles_less {before after : Place} {rest : PLift _ → Except Fault α}
    (less : unconsumed stream after < unconsumed stream before)
    (more : Settles (rest ⟨less⟩) good) :
    Settles (advanced stream before after >>= rest) good := by
  unfold advanced
  rw [dif_pos less]
  exact more

theorem settles_advanced {rest : PLift _ → Except Fault α} (before : Stands stream i c)
    (after : Stands stream j d) (shorter : d.rest.length < c.rest.length)
    (more : ∀ less, Settles (rest ⟨less⟩) good) :
    Settles (advanced stream ⟨i + 1, n⟩ ⟨j + 1, m⟩ >>= rest) good := by
  have less : unconsumed stream ⟨j + 1, m⟩ < unconsumed stream ⟨i + 1, n⟩ := by
    rwa [unconsumed_eq before, unconsumed_eq after]
  exact settles_less less (more less)

theorem settles_kept {rest : PLift _ → Except Fault α} (before : Stands stream i c)
    (after : Stands stream j d) (shorter : d.rest.length ≤ c.rest.length)
    (more : ∀ le, Settles (rest ⟨le⟩) good) :
    Settles (kept stream ⟨i + 1, n⟩ ⟨j + 1, m⟩ >>= rest) good := by
  have le : unconsumed stream ⟨j + 1, m⟩ ≤ unconsumed stream ⟨i + 1, n⟩ := by
    rwa [unconsumed_eq before, unconsumed_eq after]
  unfold kept
  rw [dif_pos le]
  exact more le

/-- A bracket that is open can be closed. -/
theorem settles_decrement {rest : Nat → Except Fault α} (depth : Nat)
    (more : Settles (rest depth) good) : Settles (decrement (depth + 1) >>= rest) good :=
  more

theorem step_agrees (stands : Stands stream i ⟨t, u :: rest⟩) (last : Nat) :
    Agrees stream (step stream last ⟨i + 1, n⟩) ((), ⟨u, rest⟩, n) := by
  unfold step
  rw [next_cons stands]
  exact agrees_pure stands.next ()

theorem eat_agrees (stands : Stands stream i c) (p : Token → Bool) :
    Agrees stream (eat stream p i ⟨i + 1, n⟩) ((), c.skipIf p, n) := by
  unfold eat
  rw [peekIs_eq stands]
  obtain ⟨last, _ | ⟨t, rest⟩⟩ := c
  · exact agrees_pure stands ()
  · simp only [Cursor.nextIs, Cursor.skipIf]
    by_cases accepted : p t
    · simp only [accepted, ↓reduceIte]
      exact step_agrees stands i
    · simp only [accepted, Bool.false_eq_true, ↓reduceIte]
      exact agrees_pure stands ()

end Steps

section Skipping
variable {stream : List Token}

theorem toClosing_agrees (opening closing : Token.Kind) (depth : Nat) (rest : List Token)
    (stands : Stands stream i ⟨last, rest⟩) :
    Agrees stream (toClosing stream opening closing (depth + 1) i ⟨i + 1, n⟩)
      ((), Cursor.toClosing opening closing depth last rest, n) := by
  induction rest generalizing depth last i with
  | nil =>
    rw [toClosing, peekIs_eq stands]
    exact agrees_pure stands ()
  | cons t rest ih =>
    rw [toClosing, peekIs_eq stands, next_cons stands]
    simp only [Cursor.nextIs, Cursor.toClosing]
    by_cases ends : t.isEof
    · simp only [ends]
      exact agrees_pure stands ()
    simp only [ends, Bool.not_false, ↓reduceIte, Bool.false_eq_true]
    apply settles_advanced stands stands.next (Nat.lt_succ_self _)
    intro less
    apply settles_token stands.next.token
    dsimp only
    by_cases opens : t.kind = opening
    · rw [if_pos opens, if_pos opens]
      exact ih (depth + 1) stands.next
    rw [if_neg opens, if_neg opens]
    by_cases closes : t.kind = closing
    · rw [if_pos closes, if_pos closes]
      apply settles_decrement
      cases depth with
      | zero => exact agrees_pure stands.next ()
      | succ depth => exact ih depth stands.next
    · rw [if_neg closes, if_neg closes]
      exact ih depth stands.next

theorem balanced_agrees (stands : Stands stream i c) :
    Agrees stream (balanced stream i ⟨i + 1, n⟩) ((), c.skipBalanced, n) := by
  unfold balanced Cursor.skipBalanced
  apply settles_token stands.token
  dsimp only
  cases c.last.kind.closing? with
  | none => exact agrees_pure stands ()
  | some closing => exact toClosing_agrees _ closing 0 c.rest stands

theorem atDynamicImport_eq (stands : Stands stream i c) :
    atDynamicImport stream ⟨i + 1, n⟩ = Cursor.startsDynamicImport c.rest := by
  unfold atDynamicImport
  rw [peekIs_eq stands]
  obtain ⟨last, _ | ⟨t, _ | ⟨u, rest⟩⟩⟩ := c
  · rfl
  · rw [peekNext_eq stands]
    simp [Cursor.startsDynamicImport]
  · rw [peekNext_eq stands]
    rfl

theorem atBoundary_eq (stands : Stands stream i c) :
    atBoundary stream i ⟨i + 1, n⟩ = pure c.atBoundary := by
  unfold atBoundary
  rw [peek_eq stands]
  obtain ⟨last, _ | ⟨t, rest⟩⟩ := c
  · rfl
  · simp only [List.head?_cons, atDynamicImport_eq stands, token_eq stands.token, Cursor.atBoundary]
    by_cases ends : Cursor.isTerminator t
    · simp [ends]
    by_cases word : t.kind == .keyword && !Token.expressionKeywords.contains t.value &&
        !Cursor.startsDynamicImport (t :: rest)
    · rw [if_neg ends, if_pos word, word, Bool.or_true, Bool.true_or]
    · rw [if_neg ends, if_neg word]
      simp only [Bool.not_eq_true] at ends word
      rw [ends, word]
      rfl

theorem stopsAt_eq (depth : Cursor.Depth) (stands : Stands stream i ⟨last, t :: rest⟩) :
    stopsAt stream depth i ⟨i + 1, n⟩ = pure (Cursor.stopsAt depth ⟨last, t :: rest⟩) := by
  unfold stopsAt Cursor.stopsAt
  rw [atBoundary_eq stands, peek_eq stands]
  split
  · rfl
  · rfl

theorem toBoundary_agrees (depth : Cursor.Depth) (rest : List Token)
    (stands : Stands stream i ⟨last, rest⟩) :
    Agrees stream (toBoundary stream depth i ⟨i + 1, n⟩)
      ((), Cursor.toBoundary depth last rest, n) := by
  induction rest generalizing depth last i with
  | nil =>
    have stops : stopsAt stream depth i ⟨i + 1, n⟩ = pure true := by
      unfold stopsAt
      rw [atBoundary_eq stands, peek_eq stands]
      split
      · rfl
      · rfl
    rw [toBoundary, stops]
    exact agrees_pure stands ()
  | cons t rest ih =>
    rw [toBoundary, stopsAt_eq depth stands, next_cons stands, pure_bind]
    simp only [Cursor.toBoundary]
    by_cases stops : Cursor.stopsAt depth ⟨last, t :: rest⟩
    · rw [if_pos stops, if_pos stops]
      exact agrees_pure stands ()
    · rw [if_neg stops, if_neg stops]
      apply settles_advanced stands stands.next (Nat.lt_succ_self _)
      intro less
      apply settles_token stands.next.token
      exact ih (depth.after t.kind) stands.next

theorem skipExpression_agrees (stands : Stands stream i c) :
    Agrees stream (skipExpression stream i ⟨i + 1, n⟩) ((), c.skipExpression, n) := by
  unfold skipExpression
  apply settles_token stands.token
  exact toBoundary_agrees _ c.rest stands

theorem bracket_agrees (stands : Stands stream i c) (kind : Token.Kind) :
    Agrees stream (bracket stream kind i ⟨i + 1, n⟩) ((), c.skipBracket kind, n) := by
  unfold bracket
  rw [peekIs_eq stands]
  obtain ⟨last, _ | ⟨t, rest⟩⟩ := c
  · exact agrees_pure stands ()
  · simp only [Cursor.nextIs, Cursor.skipBracket, beq_iff_eq]
    by_cases opens : t.kind = kind
    · rw [if_pos opens, if_pos opens, next_cons stands]
      exact balanced_agrees stands.next
    · rw [if_neg opens, if_neg opens]
      exact agrees_pure stands ()

/-- A method is skipped from the parenthesis of its parameter list on. -/
theorem method_agrees (stands : Stands stream i ⟨last, t :: rest⟩) (opens : t.kind = .leftParen) :
    Agrees stream (method stream i ⟨i + 1, n⟩) ((), Cursor.skipMethod ⟨last, t :: rest⟩, n) := by
  unfold method Cursor.skipMethod
  simp only [Cursor.skipBracket.eq_def .leftParen, next_cons stands, opens, ↓reduceIte]
  apply settles_bind (balanced_agrees stands.next)
  intro j stands
  exact bracket_agrees stands .leftBrace

theorem skipFunction_agrees (stands : Stands stream i c) :
    Agrees stream (skipFunction stream i ⟨i + 1, n⟩) ((), c.skipFunction, n) := by
  have keyword := stands.token
  unfold skipFunction Cursor.skipFunction Cursor.skipMethod
  apply settles_bind (eat_agrees stands _)
  intro j stands
  apply settles_bind (eat_agrees stands _)
  intro j stands
  apply settles_bind (bracket_agrees stands _)
  intro j stands
  apply settles_bind (bracket_agrees stands _)
  intro j stands
  apply settles_token keyword
  exact agrees_pure stands ()

end Skipping
end ImportAtlas.Indexed
