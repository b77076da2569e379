import ImportAtlas.Proofs.Consumption
import ImportAtlas.Proofs.Indexed

/-! Reading expressions by index. A routine may call itself only behind a token that it
has consumed: every turn of a loop, and every call that leads back to an expression, checks
that fewer tokens are left. The calls in between only have to keep what they were given,
and their order breaks the ties. -/
namespace ImportAtlas.Indexed
open ImportAtlas.Expr Consumption

section Stream
variable (stream : List Token)

/-- Whether an arrow stands next. -/
def atArrow (place : Place) : Bool :=
  peekIs stream (·.isOperator "=") place &&
  (peekNext stream place).any (·.kind == .ambiguousGt)

/-- Whether a member access stands next. -/
def atMember (place : Place) : Bool :=
  peekIs stream (fun t => t.isOperator "." || t.isOperator "?.") place &&
  (peekNext stream place).any fun t => t.kind == .identifier || t.kind == .keyword

/-- Whether a key is a modifier of the method name after it. -/
def atModified (key : Token) (place : Place) : Bool :=
  key.kind == .identifier && methodModifiers.contains key.value &&
  peekIs stream (fun t => t.kind == .identifier || t.kind == .keyword || t.kind == .string ||
    t.kind == .leftBracket) place

/-- Whether an arrow follows the parenthesis that closes an open one, with `depth` of them
open. Only looks ahead, and never moves the reader. -/
def arrowFollows (depth : Nat) : List Token → Except Fault Bool
  | [] => pure false
  | t :: rest =>
    match t.kind with
    | .leftParen => arrowFollows (depth + 1) rest
    | .rightParen => do
      let depth ← decrement depth
      if depth = 0 then return (Cursor.arrow? rest).isSome
      else arrowFollows depth rest
    | .eof => pure false
    | _ => arrowFollows depth rest

/-- Consumes a parameter list through its closing bracket, with `depth` brackets open. -/
def paramList (depth last : Nat) (place : Place) : Except Fault (Found (List Identifier)) :=
  if peekIs stream (fun t => !t.isEof) place then
    match next stream place with
    | none => pure ⟨[], last, place⟩
    | some (index, after) => do
      let ⟨_⟩ ← advanced stream place after
      let t ← token stream index
      if t.kind.isOpen then paramList (depth + 1) index after
      else if t.kind.isClose then
        let depth ← decrement depth
        if depth = 0 then return ⟨[], index, after⟩
        else paramList depth index after
      else if t.kind = .identifier ∧ depth = 1 then
        let previous ← token stream last
        if precedesParam previous then
          let param ← identifier stream index
          let more ← paramList depth index after
          return ⟨param :: more.value, more.last, more.place⟩
        else paramList depth index after
      else paramList depth index after
  else pure ⟨[], last, place⟩
termination_by unconsumed stream place

/-- If `async` starts an arrow function with a single parameter: the parameter, consumed. -/
def asyncParam (first : Nat) (place : Place) : Except Fault (Option (Nat × Place)) := do
  let word ← token stream first
  let single := peekIs stream (·.kind == .identifier) place &&
    atArrow stream { place with index := place.index + 1 }
  return if word.value = "async" ∧ single then next stream place else none

/-- If `async` starts an arrow function with a parameter list: its parenthesis, consumed. -/
def asyncParens (first : Nat) (place : Place) : Except Fault (Option (Nat × Place)) := do
  let word ← token stream first
  if word.value = "async" ∧ peekIs stream (·.kind == .leftParen) place then
    if ← arrowFollows 1 (stream.drop (place.index + 1)) then return next stream place
    else return none
  else return none

/-- Keeps nothing of what a run yields. -/
def dropped (run : Except Fault (Found Unit)) : Except Fault (Found (Option α)) := do
  let found ← run
  return ⟨none, found.last, found.place⟩

mutual

/-- Reads the expression that starts at an index. -/
def expression (first : Nat) (place : Place) : Except Fault (Found (Option Expr)) := do
  let head ← primary first place
  if ← atBoundary stream head.last head.place then return head
  else
    let _ ← token stream first
    dropped (skipExpression stream head.last head.place)
termination_by 5 * unconsumed stream place + 4

/-- Reads the longest modelled shape at the start of an expression, or skips what is not
modelled. -/
def primary (first : Nat) (place : Place) : Except Fault (Found (Option Expr)) := do
  let t ← token stream first
  match t.kind with
  | .string => return ⟨some (.string t.stringLiteral), first, place⟩
  | .number => return ⟨some (.number ⟨t.span, t.value⟩), first, place⟩
  | .identifier => name first place
  | .leftBrace =>
    let list ← members first { place with nextId := place.nextId + 1 }
    let span ← between stream first list.last
    return ⟨some (.object ⟨span, place.nextId, list.value⟩), list.last, list.place⟩
  | .leftBracket =>
    let list ← items .rightBracket first place
    let span ← between stream first list.last
    return ⟨some (.array span list.value), list.last, list.place⟩
  | .leftParen =>
    if ← arrowFollows 1 (stream.drop place.index) then parenArrow first first false place
    else dropped (balanced stream first place)
  | .keyword =>
    if t.value = "function" then dropped (skipFunction stream first place)
    else if t.value = "import" ∧ peekIs stream (·.kind == .leftParen) place then
      let call ← chain first (.dynamicImport t.span) first place
      return ⟨some call.value, call.last, call.place⟩
    else dropped (skipExpression stream first place)
  | _ => dropped (skipExpression stream first place)
termination_by 5 * unconsumed stream place + 3
decreasing_by all_goals simp only [unconsumed]; omega

/-- Reads an expression that starts with a name. -/
def name (first : Nat) (place : Place) : Except Fault (Found (Option Expr)) := do
  match ← asyncParam stream first place with
  | some (param, after) =>
    let ⟨_⟩ ← advanced stream place after
    bareArrow first param true after
  | none =>
    match ← asyncParens stream first place with
    | some (opening, after) =>
      let ⟨_⟩ ← advanced stream place after
      parenArrow first opening true after
    | none =>
      if atArrow stream place then bareArrow first first false place
      else
        let word ← identifier stream first
        let found ← chain first (.identifier word) first place
        return ⟨some found.value, found.last, found.place⟩
termination_by 5 * unconsumed stream place + 2

/-- Extends an expression by the member accesses and calls that follow it. -/
def chain (start : Nat) (expr : Expr) (last : Nat) (place : Place) :
    Except Fault (Found Expr) := do
  if atMember stream place then
    let dot ← step stream last place
    match next stream dot.place with
    | none => return ⟨expr, last, dot.place⟩
    | some (property, after) =>
      let span ← between stream start property
      let word ← identifier stream property
      let ⟨_⟩ ← advanced stream place after
      chain start (.member span expr word false) property after
  else if peekIs stream (·.kind == .leftParen) place then
    match next stream place with
    | none => return ⟨expr, last, place⟩
    | some (opening, inside) =>
      let ⟨_⟩ ← advanced stream place inside
      let list ← items .rightParen opening inside
      let span ← between stream start list.last
      let ⟨_⟩ ← advanced stream place list.place
      chain start (.call span expr list.value) list.last list.place
  else return ⟨expr, last, place⟩
termination_by 5 * unconsumed stream place + 0

/-- Reads the expressions of a bracketed list up to its closing bracket. -/
def items (closing : Token.Kind) (last : Nat) (place : Place) :
    Except Fault (Found (List Expr)) := do
  match peek stream place with
  | none => return ⟨[], last, place⟩
  | some t =>
    if t.isEof then return ⟨[], last, place⟩
    else if t.kind = closing then
      let close ← step stream last place
      return ⟨[], close.last, close.place⟩
    else if t.kind = .comma then
      let comma ← step stream last place
      let ⟨_⟩ ← advanced stream place comma.place
      items closing comma.last comma.place
    else
      match next stream place with
      | none => return ⟨[], last, place⟩
      | some (first, after) =>
        let ⟨_⟩ ← advanced stream place after
        let item ← expression first after
        let ⟨_⟩ ← advanced stream place item.place
        let more ← items closing item.last item.place
        return ⟨item.value.toList ++ more.value, more.last, more.place⟩
termination_by 5 * unconsumed stream place + 0

/-- Reads an arrow function with a single parameter, before its arrow. -/
def bareArrow (start param : Nat) (isAsync : Bool) (place : Place) :
    Except Fault (Found (Option Expr)) := do
  let word ← identifier stream param
  let equals ← step stream param place
  let arrow ← step stream param equals.place
  let ⟨_⟩ ← advanced stream place arrow.place
  arrowBody start [word] isAsync arrow.last arrow.place
termination_by 5 * unconsumed stream place + 1

/-- Reads an arrow function whose parameter list has been opened. -/
def parenArrow (start opening : Nat) (isAsync : Bool) (place : Place) :
    Except Fault (Found (Option Expr)) := do
  let list ← paramList stream 1 opening place
  if atArrow stream list.place then
    let equals ← step stream list.last list.place
    let arrow ← step stream list.last equals.place
    let ⟨_⟩ ← kept stream place arrow.place
    arrowBody start list.value isAsync arrow.last arrow.place
  else
    let ⟨_⟩ ← kept stream place list.place
    arrowBody start list.value isAsync list.last list.place
termination_by 5 * unconsumed stream place + 2

/-- Reads the body of an arrow function. -/
def arrowBody (start : Nat) (params : List Identifier) (isAsync : Bool) (arrow : Nat)
    (place : Place) : Except Fault (Found (Option Expr)) := do
  let body ←
    if peekIs stream (·.kind == .leftBrace) place then
      dropped (bracket stream .leftBrace arrow place)
    else value arrow place
  let span ← between stream start body.last
  return ⟨some (.arrow span params body.value isAsync), body.last, body.place⟩
termination_by 5 * unconsumed stream place + 1

/-- Reads the properties of an object literal up to its closing brace. -/
def members (last : Nat) (place : Place) : Except Fault (Found (List Property)) := do
  match peek stream place with
  | none => return ⟨[], last, place⟩
  | some t =>
    match t.kind with
    | .eof => return ⟨[], last, place⟩
    | .rightBrace =>
      let close ← step stream last place
      return ⟨[], close.last, close.place⟩
    | .comma =>
      let comma ← step stream last place
      let ⟨_⟩ ← advanced stream place comma.place
      members comma.last comma.place
    | .identifier | .keyword | .string =>
      match next stream place with
      | none => return ⟨[], last, place⟩
      | some (key, after) =>
        let ⟨_⟩ ← advanced stream place after
        let member ← property key after
        let ⟨_⟩ ← advanced stream place member.place
        let more ← members member.last member.place
        return ⟨member.value.toList ++ more.value, more.last, more.place⟩
    | .leftBracket =>
      match next stream place with
      | none => return ⟨[], last, place⟩
      | some (opening, after) =>
        let ⟨_⟩ ← advanced stream place after
        let skipped ← computed opening after
        let ⟨_⟩ ← advanced stream place skipped.place
        members skipped.last skipped.place
    | _ =>
      match next stream place with
      | none => return ⟨[], last, place⟩
      | some (first, after) =>
        let skipped ← skipExpression stream first after
        let _ ← token stream first
        let ⟨_⟩ ← advanced stream place skipped.place
        members skipped.last skipped.place
termination_by 5 * unconsumed stream place + 0

/-- Reads the property whose key is at an index. -/
def property (key : Nat) (place : Place) : Except Fault (Found (Option Property)) := do
  let word ← token stream key
  if atModified stream word place then dropped (skipExpression stream key place)
  else
    match peek stream place with
    | none => return ⟨none, key, place⟩
    | some t =>
      if t.isOperator ":" then
        match next stream place with
        | none => return ⟨none, key, place⟩
        | some (colon, after) =>
          let ⟨_⟩ ← advanced stream place after
          let value ← value colon after
          let span ← between stream key value.last
          return ⟨some ⟨span, word.propertyKey, value.value, false, false, false⟩, value.last,
            value.place⟩
      else
        match t.kind with
        | .comma | .rightBrace | .eof =>
          let span ← between stream key key
          return ⟨some ⟨span, word.propertyKey, shorthandValue word.propertyKey, true, false,
            false⟩, key, place⟩
        | .leftParen =>
          let skipped ← method stream key place
          let span ← between stream key skipped.last
          return ⟨some ⟨span, word.propertyKey, none, false, false, true⟩, skipped.last,
            skipped.place⟩
        | _ =>
          let _ ← token stream key
          dropped (skipExpression stream key place)
termination_by 5 * unconsumed stream place + 0

/-- Reads the expression behind a colon, an equals sign or a keyword. -/
def value (colon : Nat) (place : Place) : Except Fault (Found (Option Expr)) := do
  if ← atBoundary stream colon place then return ⟨none, colon, place⟩
  else
    match next stream place with
    | none => return ⟨none, colon, place⟩
    | some (first, after) =>
      let ⟨_⟩ ← advanced stream place after
      expression first after
termination_by 5 * unconsumed stream place + 0

/-- Reads past a computed property whose bracket is at an index. -/
def computed (opening : Nat) (place : Place) : Except Fault (Found Unit) := do
  let name ← balanced stream opening place
  let skipped ←
    if peekIs stream (·.isOperator ":") name.place then
      match next stream name.place with
      | none => pure name
      | some (colon, after) => do
        let ⟨_⟩ ← advanced stream place after
        let value ← value colon after
        pure ⟨(), value.last, value.place⟩
    else if peekIs stream (·.kind == .leftParen) name.place then
      method stream name.last name.place
    else pure name
  let _ ← token stream opening
  return skipped
termination_by 5 * unconsumed stream place + 0

end

end Stream

section Lookahead
variable {stream : List Token}

theorem atArrow_eq (stands : Stands stream i c) :
    atArrow stream ⟨i + 1, n⟩ = (Cursor.arrow? c.rest).isSome := by
  unfold atArrow
  rw [peekIs_eq stands]
  obtain ⟨last, _ | ⟨t, _ | ⟨u, rest⟩⟩⟩ := c
  · rfl
  · rw [peekNext_eq stands]
    simp [Cursor.arrow?]
  · rw [peekNext_eq stands]
    simp only [Cursor.nextIs, Cursor.arrow?, List.head?_cons, Option.any_some]
    split
    · rename_i both
      rw [both, Option.isSome_some]
    · rename_i neither
      simpa using neither

theorem atMember_eq (stands : Stands stream i c) :
    atMember stream ⟨i + 1, n⟩ = (member? c.rest).isSome := by
  unfold atMember
  rw [peekIs_eq stands]
  obtain ⟨last, _ | ⟨t, _ | ⟨u, rest⟩⟩⟩ := c
  · rfl
  · rw [peekNext_eq stands]
    simp [member?]
  · rw [peekNext_eq stands]
    simp only [Cursor.nextIs, member?, List.head?_cons, Option.any_some]
    split
    · rename_i both
      rw [both, Option.isSome_some]
    · rename_i neither
      simpa using neither

theorem atModified_eq (stands : Stands stream i ⟨key, rest⟩) :
    atModified stream key ⟨i + 1, n⟩ = isModifier key rest := by
  unfold atModified isModifier
  rw [peekIs_eq stands]

theorem arrowFollows_eq (depth : Nat) (tokens : List Token) :
    arrowFollows (depth + 1) tokens = pure (Cursor.arrowFollows depth tokens) := by
  induction tokens generalizing depth with
  | nil => rfl
  | cons t rest ih =>
    rw [arrowFollows, Cursor.arrowFollows.eq_def]
    dsimp only
    cases t.kind with
    | leftParen => exact ih (depth + 1)
    | rightParen =>
      cases depth with
      | zero => rfl
      | succ depth => exact ih depth
    | eof => rfl
    | _ => exact ih depth

theorem asyncParam_eq (stands : Stands stream i ⟨first, rest⟩) :
    asyncParam stream i ⟨i + 1, n⟩ =
      pure ((asyncParam? first rest).map fun _ => (i + 1, ⟨i + 1 + 1, n⟩)) := by
  unfold asyncParam
  rw [token_eq stands.token, pure_bind, peekIs_eq stands]
  obtain _ | ⟨param, later⟩ := rest
  · simp [asyncParam?, Cursor.nextIs]
  · dsimp only
    rw [next_cons stands, atArrow_eq stands.next]
    simp only [Cursor.nextIs, asyncParam?, Bool.and_eq_true, beq_iff_eq]
    cases Cursor.arrow? later with
    | none => simp
    | some after =>
      by_cases single : first.value = "async" ∧ param.kind = .identifier
      · simp [single]
      · simp [single]

theorem asyncParens_eq (stands : Stands stream i ⟨first, rest⟩) :
    asyncParens stream i ⟨i + 1, n⟩ =
      pure ((asyncParens? first rest).map fun _ => (i + 1, ⟨i + 1 + 1, n⟩)) := by
  unfold asyncParens
  rw [token_eq stands.token, pure_bind, peekIs_eq stands]
  obtain _ | ⟨paren, later⟩ := rest
  · simp [asyncParens?, Cursor.nextIs]
  · dsimp only
    rw [next_cons stands, stands.next.drop, arrowFollows_eq, pure_bind]
    simp only [Cursor.nextIs, asyncParens?, beq_iff_eq]
    by_cases opens : first.value = "async" ∧ paren.kind = .leftParen
    · by_cases follows : Cursor.arrowFollows 0 later
      · simp [opens, follows]
      · simp [opens, follows]
    · have never : ¬(first.value = "async" ∧ paren.kind = .leftParen ∧
          Cursor.arrowFollows 0 later = true) := fun all => opens ⟨all.1, all.2.1⟩
      rw [if_neg opens, if_neg never]
      rfl

/-- What stands behind `async` if it starts an arrow function with a single parameter. -/
private theorem split_asyncParam (found : asyncParam? first rest = some (param, after)) :
    ∃ later, rest = param :: later ∧ Cursor.arrow? later = some after := by
  unfold asyncParam? at found
  split at found
  · rename_i word later
    split at found
    · obtain ⟨arrow, atArrow, same⟩ := Option.map_eq_some_iff.mp found
      cases same
      exact ⟨later, rfl, atArrow⟩
    · cases found
  · cases found

/-- The two halves of an arrow, consumed one by one. -/
theorem settles_arrow {more : Found Unit → Except Fault α} (stands : Stands stream i c)
    (found : Cursor.arrow? c.rest = some after)
    (continues : ∀ j, Stands stream j after → Settles (more ⟨(), j, ⟨j + 1, n⟩⟩) good) :
    Settles (do
      let equals ← step stream i ⟨i + 1, n⟩
      let arrow ← step stream i equals.place
      more arrow) good := by
  obtain ⟨last, rest⟩ := c
  obtain ⟨gt, later⟩ := after
  obtain ⟨equals, reached⟩ := reaches_of_arrow? found last
  obtain rfl : rest = equals :: gt :: later := reached.rest_eq
  apply settles_bind (step_agrees stands i)
  intro j stands
  apply settles_bind (step_agrees stands i)
  intro k stands
  exact continues k stands

theorem agrees_dropped {run : Except Fault (Found Unit)} (agrees : Agrees stream run ((), c, n)) :
    Agrees stream (dropped run : Except Fault (Found (Option α))) (none, c, n) := by
  apply settles_bind agrees
  intro j stands
  exact agrees_pure stands none

theorem paramList_agrees (depth : Nat) (rest : List Token) (stands : Stands stream i ⟨last, rest⟩) :
    Agrees stream (paramList stream (depth + 1) i ⟨i + 1, n⟩)
      ((arrowParams depth last rest).1, (arrowParams depth last rest).2, n) := by
  induction rest generalizing depth last i with
  | nil =>
    rw [paramList, peekIs_eq stands]
    exact agrees_pure stands []
  | cons t rest ih =>
    rw [paramList, peekIs_eq stands, next_cons stands]
    simp only [Cursor.nextIs, arrowParams]
    by_cases ends : t.isEof
    · simp only [ends]
      exact agrees_pure stands []
    simp only [ends, Bool.not_false, ↓reduceIte, Bool.false_eq_true]
    apply settles_advanced stands stands.next (Nat.lt_succ_self _)
    intro less
    apply settles_token stands.next.token
    dsimp only
    by_cases opens : t.kind.isOpen
    · rw [if_pos opens, if_pos opens]
      exact ih (depth + 1) stands.next
    rw [if_neg opens, if_neg opens]
    by_cases closes : t.kind.isClose
    · rw [if_pos closes, if_pos closes]
      apply settles_decrement
      cases depth with
      | zero => exact agrees_pure stands.next []
      | succ depth => exact ih depth stands.next
    rw [if_neg closes, if_neg closes]
    by_cases plain : t.kind = .identifier ∧ depth = 0
    · obtain ⟨word, rfl⟩ := plain
      simp only [word, and_self, ↓reduceIte, BEq.rfl, Bool.and_self, Bool.true_and]
      apply settles_token stands.token
      dsimp only
      by_cases isParam : precedesParam last
      · rw [if_pos isParam, if_pos isParam]
        apply settles_identifier stands.next.token
        apply settles_bind (ih 0 stands.next)
        intro j behind
        exact agrees_pure behind _
      · rw [if_neg isParam, if_neg isParam]
        exact ih 0 stands.next
    · have passed : ¬(t.kind == .identifier && depth == 0 && precedesParam last) = true := by
        simp only [Bool.and_eq_true, beq_iff_eq]
        exact fun both => plain both.1
      rw [if_neg (fun both => plain ⟨both.1, Nat.succ.inj both.2⟩), if_neg passed]
      exact ih depth stands.next

end Lookahead

section Reading
variable {stream : List Token}

-- The proofs recur as the routines do: the inequality that a check yields is what lets the
-- proof behind it call itself.
mutual

theorem expression_agrees (first : Token) (rest : List Token) (n : Nat)
    (stands : Stands stream i ⟨first, rest⟩) :
    Agrees stream (expression stream i ⟨i + 1, n⟩) (read first rest n).outcome := by
  rw [expression, outcome_read]
  apply settles_reading (primary_agrees first rest n stands)
  intro j behind
  dsimp only
  rw [atBoundary_eq behind, pure_bind]
  by_cases ended : (readPrimary first rest n).cursor.atBoundary
  · rw [if_pos ended, if_pos ended]
    exact agrees_pure behind _
  · rw [if_neg ended, if_neg ended]
    apply settles_token stands.token
    exact agrees_dropped (skipExpression_agrees behind)
termination_by 5 * unconsumed stream ⟨i + 1, n⟩ + 4

theorem primary_agrees (first : Token) (rest : List Token) (n : Nat)
    (stands : Stands stream i ⟨first, rest⟩) :
    Agrees stream (primary stream i ⟨i + 1, n⟩) (readPrimary first rest n).outcome := by
  rw [primary, outcome_readPrimary]
  apply settles_token stands.token
  cases first.kind with
  | string => exact agrees_pure stands _
  | number => exact agrees_pure stands _
  | identifier => exact name_agrees first rest n stands
  | leftBrace =>
    apply settles_reading (members_agrees first rest (n + 1) stands)
    intro j behind
    apply settles_between stands.token behind.token
    exact agrees_pure behind _
  | leftBracket =>
    apply settles_reading (items_agrees .rightBracket first rest n stands)
    intro j behind
    apply settles_between stands.token behind.token
    exact agrees_pure behind _
  | leftParen =>
    dsimp only
    rw [stands.drop, arrowFollows_eq, pure_bind]
    by_cases follows : Cursor.arrowFollows 0 rest
    · rw [if_pos follows, if_pos follows]
      exact parenArrow_agrees first false first rest n stands.token stands
    · rw [if_neg follows, if_neg follows]
      exact agrees_dropped (balanced_agrees stands)
  | keyword =>
    dsimp only
    rw [peekIs_eq stands]
    by_cases function : first.value = "function"
    · rw [if_pos function, if_pos function]
      exact agrees_dropped (skipFunction_agrees stands)
    rw [if_neg function, if_neg function]
    by_cases call : first.value = "import" ∧ Cursor.nextIs (·.kind == .leftParen) ⟨first, rest⟩
    · rw [if_pos call, if_pos call]
      apply settles_reading (chain_agrees first _ first rest n stands.token stands)
      intro j behind
      exact agrees_pure behind _
    · rw [if_neg call, if_neg call]
      exact agrees_dropped (skipExpression_agrees stands)
  | _ => exact agrees_dropped (skipExpression_agrees stands)
termination_by 5 * unconsumed stream ⟨i + 1, n⟩ + 3
decreasing_by all_goals simp only [unconsumed]; omega

theorem name_agrees (first : Token) (rest : List Token) (n : Nat)
    (stands : Stands stream i ⟨first, rest⟩) :
    Agrees stream (name stream i ⟨i + 1, n⟩) (readName first rest n).outcome := by
  rw [name, outcome_readName, asyncParam_eq stands, pure_bind]
  cases found : asyncParam? first rest with
  | some head =>
    obtain ⟨param, after⟩ := head
    obtain ⟨later, rfl, arrow⟩ := split_asyncParam found
    apply settles_advanced stands stands.next (Nat.lt_succ_self _)
    intro less
    exact bareArrow_agrees first true param later after n arrow stands.token stands.next
  | none =>
    dsimp only [Option.map_none]
    rw [asyncParens_eq stands, pure_bind]
    cases found : asyncParens? first rest with
    | some paren =>
      obtain rfl : rest = paren.last :: paren.rest := (reaches_of_asyncParens? found).rest_eq
      apply settles_advanced stands stands.next (Nat.lt_succ_self _)
      intro less
      exact parenArrow_agrees first true paren.last paren.rest n stands.token stands.next
    | none =>
      dsimp only [Option.map_none]
      rw [atArrow_eq stands]
      cases found : Cursor.arrow? rest with
      | some after =>
        exact bareArrow_agrees first false first rest after n found stands.token stands
      | none =>
        apply settles_identifier stands.token
        apply settles_reading (chain_agrees first _ first rest n stands.token stands)
        intro j behind
        exact agrees_pure behind _
termination_by 5 * unconsumed stream ⟨i + 1, n⟩ + 2

theorem chain_agrees (start : Token) (expr : Expr) (last : Token) (rest : List Token) (n : Nat)
    (begins : stream[s]? = some start) (stands : Stands stream i ⟨last, rest⟩) :
    Agrees stream (chain stream s expr i ⟨i + 1, n⟩)
      (readChain start expr last rest n).outcome := by
  rw [chain, outcome_readChain, atMember_eq stands]
  cases found : member? rest with
  | some name =>
    obtain ⟨dot, reached⟩ := reaches_of_member? found last
    obtain rfl : rest = dot :: name.last :: name.rest := reached.rest_eq
    apply settles_bind (step_agrees stands i)
    intro j behind
    dsimp only
    rw [next_cons behind]
    apply settles_between begins behind.next.token
    apply settles_identifier behind.next.token
    apply settles_advanced stands behind.next (Nat.lt_add_of_pos_right (Nat.zero_lt_two))
    intro less
    exact chain_agrees start _ name.last name.rest n begins behind.next
  | none =>
    dsimp only [Option.isSome_none]
    rw [if_neg Bool.false_ne_true, peekIs_eq stands]
    obtain _ | ⟨paren, later⟩ := rest
    · exact agrees_pure stands expr
    simp only [Cursor.nextIs, beq_iff_eq]
    by_cases opens : paren.kind = .leftParen
    · rw [if_pos opens, if_pos opens, next_cons stands]
      apply settles_advanced stands stands.next (Nat.lt_succ_self _)
      intro less
      have fits := (readItems .rightParen paren later n).fits
      apply settles_reading (items_agrees .rightParen paren later n stands.next)
      intro j behind
      apply settles_between begins behind.token
      apply settles_advanced stands behind (Nat.lt_succ_of_le fits)
      intro less
      exact chain_agrees start _ (readItems .rightParen paren later n).cursor.last
        (readItems .rightParen paren later n).cursor.rest _ begins behind
    · rw [if_neg opens, if_neg opens]
      exact agrees_pure stands expr
termination_by 5 * unconsumed stream ⟨i + 1, n⟩ + 0

theorem items_agrees (closing : Token.Kind) (last : Token) (rest : List Token) (n : Nat)
    (stands : Stands stream i ⟨last, rest⟩) :
    Agrees stream (items stream closing i ⟨i + 1, n⟩) (readItems closing last rest n).outcome := by
  rw [items, outcome_readItems, peek_eq stands]
  obtain _ | ⟨t, later⟩ := rest
  · exact agrees_pure stands []
  dsimp only [List.head?_cons]
  by_cases ends : t.isEof
  · rw [if_pos ends, if_pos ends]
    exact agrees_pure stands []
  rw [if_neg ends, if_neg ends]
  by_cases closes : t.kind = closing
  · rw [if_pos closes, if_pos closes]
    apply settles_bind (step_agrees stands i)
    intro j behind
    exact agrees_pure behind []
  rw [if_neg closes, if_neg closes]
  by_cases comma : t.kind = .comma
  · rw [if_pos comma, if_pos comma]
    apply settles_bind (step_agrees stands i)
    intro j behind
    apply settles_advanced stands behind (Nat.lt_succ_self _)
    intro less
    exact items_agrees closing t later n behind
  rw [if_neg comma, if_neg comma, next_cons stands]
  apply settles_advanced stands stands.next (Nat.lt_succ_self _)
  intro less
  have fits := (read t later n).fits
  apply settles_reading (expression_agrees t later n stands.next)
  intro j behind
  apply settles_advanced stands behind (Nat.lt_succ_of_le fits)
  intro less
  apply settles_reading (items_agrees closing (read t later n).cursor.last
    (read t later n).cursor.rest (read t later n).nextId behind)
  intro k behind
  exact agrees_pure behind _
termination_by 5 * unconsumed stream ⟨i + 1, n⟩ + 0

/-- The parameter of an arrow function without parentheses has been consumed. -/
theorem bareArrow_agrees (start : Token) (isAsync : Bool) (param : Token) (rest : List Token)
    (after : Cursor) (n : Nat) (found : Cursor.arrow? rest = some after)
    (begins : stream[s]? = some start) (stands : Stands stream i ⟨param, rest⟩) :
    Agrees stream (bareArrow stream s i isAsync ⟨i + 1, n⟩)
      (readArrowBody start [param.identifier] isAsync after.last after.rest n).outcome := by
  rw [bareArrow]
  have shorter := Cursor.length_lt_of_arrow? found
  apply settles_identifier stands.token
  apply settles_arrow stands found
  intro j behind
  apply settles_advanced stands behind shorter
  intro less
  exact arrowBody_agrees start _ isAsync after.last after.rest n begins behind
termination_by 5 * unconsumed stream ⟨i + 1, n⟩ + 1

theorem parenArrow_agrees (start : Token) (isAsync : Bool) (paren : Token) (rest : List Token)
    (n : Nat) (begins : stream[s]? = some start) (stands : Stands stream i ⟨paren, rest⟩) :
    Agrees stream (parenArrow stream s i isAsync ⟨i + 1, n⟩)
      (readParenArrow start isAsync paren rest n).outcome := by
  rw [parenArrow, outcome_readParenArrow]
  have fits := length_arrowParams_le 0 paren rest
  apply settles_bind (paramList_agrees 0 rest stands)
  intro j behind
  dsimp only at behind ⊢
  rw [atArrow_eq behind]
  cases found : Cursor.arrow? (arrowParams 0 paren rest).2.rest with
  | some after =>
    have shorter := Nat.lt_of_lt_of_le (Cursor.length_lt_of_arrow? found) fits
    apply settles_arrow behind found
    intro k behind
    apply settles_kept stands behind (Nat.le_of_lt shorter)
    intro le
    exact arrowBody_agrees start _ isAsync after.last after.rest n begins behind
  | none =>
    apply settles_kept stands behind fits
    intro le
    exact arrowBody_agrees start _ isAsync (arrowParams 0 paren rest).2.last
      (arrowParams 0 paren rest).2.rest n begins behind
termination_by 5 * unconsumed stream ⟨i + 1, n⟩ + 2

theorem arrowBody_agrees (start : Token) (params : List Identifier) (isAsync : Bool)
    (arrow : Token) (rest : List Token) (n : Nat) (begins : stream[s]? = some start)
    (stands : Stands stream i ⟨arrow, rest⟩) :
    Agrees stream (arrowBody stream s params isAsync i ⟨i + 1, n⟩)
      (readArrowBody start params isAsync arrow rest n).outcome := by
  rw [arrowBody, outcome_readArrowBody, peekIs_eq stands]
  have body := value_agrees arrow rest n stands
  rw [outcome_readValue] at body
  obtain _ | ⟨t, later⟩ := rest
  · apply settles_bind body
    intro j behind
    apply settles_between begins behind.token
    exact agrees_pure behind _
  simp only [Cursor.nextIs, beq_iff_eq]
  by_cases opens : t.kind = .leftBrace
  · rw [if_pos opens, if_pos opens]
    have block := @bracket_agrees stream i _ n stands .leftBrace
    simp only [Cursor.skipBracket, opens, ↓reduceIte] at block
    apply settles_bind (agrees_dropped block)
    intro j behind
    apply settles_between begins behind.token
    exact agrees_pure behind _
  rw [if_neg opens, if_neg opens]
  dsimp only at body ⊢
  by_cases ended : Cursor.atBoundary ⟨arrow, t :: later⟩
  · rw [if_pos ended] at body ⊢
    apply settles_bind body
    intro j behind
    apply settles_between begins behind.token
    exact agrees_pure behind _
  · rw [if_neg ended] at body ⊢
    apply settles_reading body
    intro j behind
    apply settles_between begins behind.token
    exact agrees_pure behind _
termination_by 5 * unconsumed stream ⟨i + 1, n⟩ + 1

theorem members_agrees (last : Token) (rest : List Token) (n : Nat)
    (stands : Stands stream i ⟨last, rest⟩) :
    Agrees stream (members stream i ⟨i + 1, n⟩) (readMembers last rest n).outcome := by
  rw [members, outcome_readMembers, peek_eq stands]
  obtain _ | ⟨t, later⟩ := rest
  · exact agrees_pure stands []
  dsimp only [List.head?_cons]
  cases t.kind with
  | eof => exact agrees_pure stands []
  | rightBrace =>
    apply settles_bind (step_agrees stands i)
    intro j behind
    exact agrees_pure behind []
  | comma =>
    apply settles_bind (step_agrees stands i)
    intro j behind
    apply settles_advanced stands behind (Nat.lt_succ_self _)
    intro less
    exact members_agrees t later n behind
  | identifier | keyword | string =>
    dsimp only
    rw [next_cons stands]
    apply settles_advanced stands stands.next (Nat.lt_succ_self _)
    intro less
    have fits := (readProperty t later n).fits
    apply settles_reading (property_agrees t later n stands.next)
    intro j behind
    apply settles_advanced stands behind (Nat.lt_succ_of_le fits)
    intro less
    apply settles_reading (members_agrees (readProperty t later n).cursor.last
      (readProperty t later n).cursor.rest (readProperty t later n).nextId behind)
    intro k behind
    exact agrees_pure behind _
  | leftBracket =>
    dsimp only
    rw [next_cons stands]
    apply settles_advanced stands stands.next (Nat.lt_succ_self _)
    intro less
    have fits := (readComputed t later n).fits
    apply settles_bind (computed_agrees t later n stands.next)
    intro j behind
    apply settles_advanced stands behind (Nat.lt_succ_of_le fits)
    intro less
    exact members_agrees (readComputed t later n).cursor.last
      (readComputed t later n).cursor.rest (readComputed t later n).nextId behind
  | _ =>
    dsimp only
    rw [next_cons stands]
    have fits := Cursor.length_skipExpression_le ⟨t, later⟩
    apply settles_bind (skipExpression_agrees stands.next)
    intro j behind
    apply settles_token stands.next.token
    apply settles_advanced stands behind (Nat.lt_succ_of_le fits)
    intro less
    exact members_agrees (Cursor.skipExpression ⟨t, later⟩).last
      (Cursor.skipExpression ⟨t, later⟩).rest n behind
termination_by 5 * unconsumed stream ⟨i + 1, n⟩ + 0

theorem property_agrees (key : Token) (rest : List Token) (n : Nat)
    (stands : Stands stream i ⟨key, rest⟩) :
    Agrees stream (property stream i ⟨i + 1, n⟩) (readProperty key rest n).outcome := by
  rw [property, outcome_readProperty]
  apply settles_token stands.token
  dsimp only
  rw [atModified_eq stands, peek_eq stands]
  by_cases modifier : isModifier key rest
  · rw [if_pos modifier, if_pos modifier]
    exact agrees_dropped (skipExpression_agrees stands)
  rw [if_neg modifier, if_neg modifier]
  obtain _ | ⟨t, later⟩ := rest
  · exact agrees_pure stands none
  dsimp only [List.head?_cons]
  by_cases colon : t.isOperator ":"
  · rw [if_pos colon, if_pos colon, next_cons stands]
    apply settles_advanced stands stands.next (Nat.lt_succ_self _)
    intro less
    apply settles_reading (value_agrees t later n stands.next)
    intro j behind
    apply settles_between stands.token behind.token
    exact agrees_pure behind _
  rw [if_neg colon, if_neg colon]
  cases kind : t.kind with
  | comma | rightBrace | eof =>
    apply settles_between stands.token stands.token
    exact agrees_pure stands _
  | leftParen =>
    apply settles_bind (method_agrees stands kind)
    intro j behind
    apply settles_between stands.token behind.token
    exact agrees_pure behind _
  | _ =>
    apply settles_token stands.token
    exact agrees_dropped (skipExpression_agrees stands)
termination_by 5 * unconsumed stream ⟨i + 1, n⟩ + 0

theorem value_agrees (colon : Token) (rest : List Token) (n : Nat)
    (stands : Stands stream i ⟨colon, rest⟩) :
    Agrees stream (value stream i ⟨i + 1, n⟩) (readValue colon rest n).outcome := by
  rw [value, outcome_readValue, atBoundary_eq stands, pure_bind]
  obtain _ | ⟨t, later⟩ := rest
  · exact agrees_pure stands none
  dsimp only
  by_cases ended : Cursor.atBoundary ⟨colon, t :: later⟩
  · rw [if_pos ended, if_pos ended]
    exact agrees_pure stands none
  · rw [if_neg ended, if_neg ended, next_cons stands]
    apply settles_advanced stands stands.next (Nat.lt_succ_self _)
    intro less
    exact expression_agrees t later n stands.next
termination_by 5 * unconsumed stream ⟨i + 1, n⟩ + 0

theorem computed_agrees (bracket : Token) (rest : List Token) (n : Nat)
    (stands : Stands stream i ⟨bracket, rest⟩) :
    Agrees stream (computed stream i ⟨i + 1, n⟩) ((), (readComputed bracket rest n).outcome.2) := by
  rw [computed, outcome_readComputed]
  have fits := Cursor.length_skipBalanced_le ⟨bracket, rest⟩
  apply settles_bind (balanced_agrees stands)
  intro j behind
  dsimp only at behind ⊢
  rw [peekIs_eq behind, peekIs_eq behind]
  generalize Cursor.skipBalanced ⟨bracket, rest⟩ = c at fits behind ⊢
  obtain ⟨last, _ | ⟨t, later⟩⟩ := c
  · apply settles_token stands.token
    exact agrees_pure behind ()
  simp only [Cursor.nextIs, beq_iff_eq]
  by_cases colon : t.isOperator ":"
  · rw [if_pos colon, if_pos colon, next_cons behind]
    apply settles_advanced stands behind.next fits
    intro less
    apply settles_reading (value_agrees t later n behind.next)
    intro k behind
    rw [pure_bind]
    apply settles_token stands.token
    exact agrees_pure behind ()
  rw [if_neg colon, if_neg colon]
  by_cases opens : t.kind = .leftParen
  · rw [if_pos opens, if_pos opens]
    apply settles_bind (method_agrees behind opens)
    intro k behind
    apply settles_token stands.token
    exact agrees_pure behind ()
  · rw [if_neg opens, if_neg opens]
    apply settles_token stands.token
    exact agrees_pure behind ()
termination_by 5 * unconsumed stream ⟨i + 1, n⟩ + 0

end

end Reading
end ImportAtlas.Indexed
