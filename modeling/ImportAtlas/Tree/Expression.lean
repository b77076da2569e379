import ImportAtlas.Token.Cursor
import ImportAtlas.Tree.Basic

/-! Reading expressions. An expression is classified by its first token. A
modelled shape that is followed by anything other than a boundary is dropped and
the rest of the expression is skipped, so that reading always ends at the end of
the whole expression. Every routine says in its type that it never gives tokens
back, and all of them recur on the tokens that are left. -/

namespace ImportAtlas

/-- What reading a construct yields: its value, the cursor after it, and the
number of the next object literal. At most `bound` tokens are left. -/
structure Reading (α : Type) (bound : Nat) where
  value : α
  cursor : Cursor
  nextId : Nat
  fits : cursor.rest.length ≤ bound

namespace Reading

/-- The same reading under a larger bound. -/
def widen (r : Reading α m) (le : m ≤ n) : Reading α n :=
  ⟨r.value, r.cursor, r.nextId, Nat.le_trans r.fits le⟩

/-- The reading that leaves a cursor where it is. -/
def stay (value : α) (cursor : Cursor) (nextId : Nat) : Reading α cursor.rest.length :=
  ⟨value, cursor, nextId, Nat.le_refl _⟩

/-- The same reading after one more token. -/
def behind (t : Token) {later : List Token} (r : Reading α later.length) :
    Reading α (t :: later).length :=
  r.widen (Nat.le_succ _)

/-- The same reading with another value. -/
def map (f : α → β) (r : Reading α n) : Reading β n :=
  ⟨f r.value, r.cursor, r.nextId, r.fits⟩

end Reading

/-- The identifier that a token spells. -/
def Token.identifier (t : Token) : Identifier :=
  ⟨t.span, t.value⟩

/-- The literal that a token spells. -/
def Token.stringLiteral (t : Token) : StringLiteral :=
  ⟨t.span, t.value⟩

/-- The key that a token spells. -/
def Token.propertyKey (t : Token) : PropertyKey :=
  if t.kind = .string then .string t.stringLiteral else .identifier t.identifier

/-- The span from the first of two tokens to the last. -/
def Token.through (first last : Token) : Span :=
  Span.between first.span last.span

namespace Expr

/-- Whether a parameter name may directly follow a token. -/
def precedesParam (t : Token) : Bool :=
  t.kind == .leftParen || t.kind == .comma || t.isOperator "..."

/-- Consumes a parameter list through its closing bracket, with `depth` brackets
open inside it. The plain names at the top level of the list are its parameters;
patterns and default values are passed over. -/
def arrowParams (depth : Nat) (last : Token) : List Token → List Identifier × Cursor
  | [] => ([], ⟨last, []⟩)
  | t :: rest =>
    if t.isEof then ([], ⟨last, t :: rest⟩)
    else if t.kind.isOpen then arrowParams (depth + 1) t rest
    else if t.kind.isClose then
      match depth with
      | 0 => ([], ⟨t, rest⟩)
      | depth + 1 => arrowParams depth t rest
    else
      let later := arrowParams depth t rest
      if t.kind == .identifier && depth == 0 && precedesParam last then
        (t.identifier :: later.1, later.2)
      else later

theorem length_arrowParams_le (depth : Nat) (last : Token) (rest : List Token) :
    (arrowParams depth last rest).2.rest.length ≤ rest.length := by
  induction rest generalizing depth last with
  | nil => simp [arrowParams]
  | cons t rest ih =>
    have step (depth : Nat) := Nat.le_succ_of_le (ih depth t)
    simp only [arrowParams]
    split
    · exact Nat.le_refl _
    split
    · exact step _
    split
    · split
      · exact Nat.le_succ _
      · exact step _
    split
    · exact step _
    · exact step _

/-- If the tokens start with a member access, its name and the tokens after it. -/
def member? : List Token → Option Cursor
  | dot :: name :: rest =>
    if (dot.isOperator "." || dot.isOperator "?.") &&
        (name.kind == .identifier || name.kind == .keyword) then some ⟨name, rest⟩
    else none
  | _ => none

theorem length_lt_of_member? {rest : List Token} {c : Cursor} (found : member? rest = some c) :
    c.rest.length < rest.length := by
  unfold member? at found
  split at found
  · split at found
    · cases found
      simp only [List.length_cons]
      omega
    · cases found
  · cases found

/-- If `async` starts an arrow function with a single parameter: the parameter,
and the cursor after the arrow. -/
def asyncParam? (first : Token) : List Token → Option (Token × Cursor)
  | param :: rest =>
    if first.value = "async" ∧ param.kind = .identifier then
      (Cursor.arrow? rest).map fun arrow => (param, arrow)
    else none
  | [] => none

theorem length_lt_of_asyncParam? {first : Token} {rest : List Token} {head : Token × Cursor}
    (found : asyncParam? first rest = some head) : head.2.rest.length < rest.length := by
  unfold asyncParam? at found
  split at found
  · split at found
    · obtain ⟨arrow, atArrow, rfl⟩ := Option.map_eq_some_iff.mp found
      exact Nat.lt_succ_of_lt (Cursor.length_lt_of_arrow? atArrow)
    · cases found
  · cases found

/-- If `async` starts an arrow function with a parameter list: the cursor after
its opening parenthesis. -/
def asyncParens? (first : Token) : List Token → Option Cursor
  | paren :: rest =>
    if first.value = "async" ∧ paren.kind = .leftParen ∧ Cursor.arrowFollows 0 rest then
      some ⟨paren, rest⟩
    else none
  | [] => none

theorem length_lt_of_asyncParens? {first : Token} {rest : List Token} {c : Cursor}
    (found : asyncParens? first rest = some c) : c.rest.length < rest.length := by
  unfold asyncParens? at found
  split at found
  · split at found
    · cases found
      exact Nat.lt_succ_self _
    · cases found
  · cases found

/-- The words that turn a method into an accessor or an asynchronous one. -/
def methodModifiers : List String :=
  ["get", "set", "async"]

/-- Whether a key is a modifier of the method name after it. -/
def isModifier (key : Token) (rest : List Token) : Bool :=
  key.kind == .identifier && methodModifiers.contains key.value &&
  Cursor.nextIs (fun t => t.kind == .identifier || t.kind == .keyword || t.kind == .string ||
    t.kind == .leftBracket) ⟨key, rest⟩

/-- The value a shorthand property repeats. A literal key stands for none. -/
def shorthandValue : PropertyKey → Option Expr
  | .identifier name => some (.identifier name)
  | .string _ => none

/-- A reading that keeps nothing and ends at a cursor. -/
def skipped (cursor : Cursor) (nextId : Nat) (fits : cursor.rest.length ≤ n) :
    Reading (Option α) n :=
  ⟨none, cursor, nextId, fits⟩

/-- Reads past a bracket that has been consumed and everything up to its end. -/
def skipBracket (opening : Token) (rest : List Token) (nextId : Nat) : Reading Unit rest.length :=
  ⟨(), Cursor.skipBalanced ⟨opening, rest⟩, nextId, Cursor.length_skipBalanced_le _⟩

mutual

/-- Reads the expression whose first token has been consumed. -/
def read (first : Token) (rest : List Token) (nextId : Nat) :
    Reading (Option Expr) rest.length :=
  match readPrimary first rest nextId with
  | ⟨value, after, ids, fits⟩ =>
    if after.atBoundary then ⟨value, after, ids, fits⟩
    else skipped after.skipExpression ids (Nat.le_trans (Cursor.length_skipExpression_le _) fits)
termination_by 4 * rest.length + 3

/-- Reads the longest modelled shape at the start of an expression, or skips what
is not modelled. -/
def readPrimary (first : Token) (rest : List Token) (nextId : Nat) :
    Reading (Option Expr) rest.length :=
  match first.kind with
  | .string => ⟨some (.string first.stringLiteral), ⟨first, rest⟩, nextId, Nat.le_refl _⟩
  | .number => ⟨some (.number ⟨first.span, first.value⟩), ⟨first, rest⟩, nextId, Nat.le_refl _⟩
  | .identifier => readName first rest nextId
  | .leftBrace =>
    match readMembers first rest (nextId + 1) with
    | ⟨properties, after, ids, fits⟩ =>
      ⟨some (.object ⟨first.through after.last, nextId, properties⟩), after, ids, fits⟩
  | .leftBracket =>
    match readItems .rightBracket first rest nextId with
    | ⟨elements, after, ids, fits⟩ =>
      ⟨some (.array (first.through after.last) elements), after, ids, fits⟩
  | .leftParen =>
    if Cursor.arrowFollows 0 rest then readParenArrow first false first rest nextId
    else skipped (Cursor.skipBalanced ⟨first, rest⟩) nextId (Cursor.length_skipBalanced_le _)
  | .keyword =>
    if first.value = "function" then
      skipped (Cursor.skipFunction ⟨first, rest⟩) nextId (Cursor.length_skipFunction_le _)
    else if first.value = "import" ∧ Cursor.nextIs (·.kind == .leftParen) ⟨first, rest⟩ then
      (readChain first (.dynamicImport first.span) first rest nextId).map some
    else skipped (Cursor.skipExpression ⟨first, rest⟩) nextId (Cursor.length_skipExpression_le _)
  | _ => skipped (Cursor.skipExpression ⟨first, rest⟩) nextId (Cursor.length_skipExpression_le _)
termination_by 4 * rest.length + 2

/-- Reads an expression that starts with a name: an arrow function, or a chain of
member accesses and calls. -/
def readName (first : Token) (rest : List Token) (nextId : Nat) :
    Reading (Option Expr) rest.length :=
  match found : asyncParam? first rest with
  | some (param, after) =>
    have shorter : after.rest.length < rest.length := length_lt_of_asyncParam? found
    (readArrowBody first [param.identifier] true after.last after.rest nextId).widen
      (Nat.le_of_lt shorter)
  | none =>
    match found : asyncParens? first rest with
    | some paren =>
      have shorter := length_lt_of_asyncParens? found
      (readParenArrow first true paren.last paren.rest nextId).widen (Nat.le_of_lt shorter)
    | none =>
      match found : Cursor.arrow? rest with
      | some after =>
        have shorter := Cursor.length_lt_of_arrow? found
        (readArrowBody first [first.identifier] false after.last after.rest nextId).widen
          (Nat.le_of_lt shorter)
      | none => (readChain first (.identifier first.identifier) first rest nextId).map some
termination_by 4 * rest.length + 1

/-- Extends an expression by the member accesses and calls that follow it. -/
def readChain (start : Token) (expr : Expr) (last : Token) (rest : List Token) (nextId : Nat) :
    Reading Expr rest.length :=
  match found : member? rest with
  | some name =>
    have shorter := length_lt_of_member? found
    (readChain start (.member (start.through name.last) expr name.last.identifier false)
      name.last name.rest nextId).widen (Nat.le_of_lt shorter)
  | none =>
    match rest with
    | [] => ⟨expr, ⟨last, []⟩, nextId, Nat.le_refl _⟩
    | paren :: later =>
      if paren.kind = .leftParen then
        match readItems .rightParen paren later nextId with
        | ⟨arguments, after, ids, fits⟩ =>
          (readChain start (.call (start.through after.last) expr arguments)
            after.last after.rest ids).widen (Nat.le_succ_of_le fits)
      else ⟨expr, ⟨last, paren :: later⟩, nextId, Nat.le_refl _⟩
termination_by 4 * rest.length + 0

/-- Reads the expressions of a bracketed list up to its closing bracket. -/
def readItems (closing : Token.Kind) (last : Token) (rest : List Token) (nextId : Nat) :
    Reading (List Expr) rest.length :=
  match rest with
  | [] => ⟨[], ⟨last, []⟩, nextId, Nat.le_refl _⟩
  | t :: later =>
    if t.isEof then ⟨[], ⟨last, t :: later⟩, nextId, Nat.le_refl _⟩
    else if t.kind = closing then ⟨[], ⟨t, later⟩, nextId, Nat.le_succ _⟩
    else if t.kind = .comma then (readItems closing t later nextId).widen (Nat.le_succ _)
    else
      match read t later nextId with
      | ⟨item, after, ids, fits⟩ =>
        ((readItems closing after.last after.rest ids).map (item.toList ++ ·)).widen
          (Nat.le_succ_of_le fits)
termination_by 4 * rest.length + 0

/-- Reads an arrow function whose parameter list has been opened. -/
def readParenArrow (start : Token) (isAsync : Bool) (paren : Token) (rest : List Token)
    (nextId : Nat) : Reading (Option Expr) rest.length :=
  have fits := length_arrowParams_le 0 paren rest
  match arrowParams 0 paren rest, fits with
  | (params, close), fits =>
    have fits : close.rest.length ≤ rest.length := fits
    match found : Cursor.arrow? close.rest with
    | some after =>
      have shorter := Nat.lt_of_lt_of_le (Cursor.length_lt_of_arrow? found) fits
      (readArrowBody start params isAsync after.last after.rest nextId).widen
        (Nat.le_of_lt shorter)
    | none => (readArrowBody start params isAsync close.last close.rest nextId).widen fits
termination_by 4 * rest.length + 1

/-- Reads the body of an arrow function. A block is skipped; an expression is kept
if it is of a modelled shape. -/
def readArrowBody (start : Token) (params : List Identifier) (isAsync : Bool) (arrow : Token)
    (rest : List Token) (nextId : Nat) : Reading (Option Expr) rest.length :=
  match rest with
  | [] => ⟨some (.arrow (start.through arrow) params none isAsync), ⟨arrow, []⟩, nextId,
      Nat.le_refl _⟩
  | t :: later =>
    if t.kind = .leftBrace then
      let block := Cursor.skipBalanced ⟨t, later⟩
      ⟨some (.arrow (start.through block.last) params none isAsync), block, nextId,
        Nat.le_succ_of_le (Cursor.length_skipBalanced_le _)⟩
    else if Cursor.atBoundary ⟨arrow, t :: later⟩ then
      ⟨some (.arrow (start.through arrow) params none isAsync), ⟨arrow, t :: later⟩, nextId,
        Nat.le_refl _⟩
    else
      match read t later nextId with
      | ⟨body, after, ids, fits⟩ =>
        ⟨some (.arrow (start.through after.last) params body isAsync), after, ids,
          Nat.le_succ_of_le fits⟩
termination_by 4 * rest.length + 0

/-- Reads the properties of an object literal up to its closing brace. Computed
and unknown members are skipped. -/
def readMembers (last : Token) (rest : List Token) (nextId : Nat) :
    Reading (List Property) rest.length :=
  match rest with
  | [] => ⟨[], ⟨last, []⟩, nextId, Nat.le_refl _⟩
  | t :: later =>
    match t.kind with
    | .eof => ⟨[], ⟨last, t :: later⟩, nextId, Nat.le_refl _⟩
    | .rightBrace => ⟨[], ⟨t, later⟩, nextId, Nat.le_succ _⟩
    | .comma => (readMembers t later nextId).widen (Nat.le_succ _)
    | .identifier | .keyword | .string =>
      match readProperty t later nextId with
      | ⟨property, after, ids, fits⟩ =>
        ((readMembers after.last after.rest ids).map (property.toList ++ ·)).widen
          (Nat.le_succ_of_le fits)
    | .leftBracket =>
      match readComputed t later nextId with
      | ⟨_, after, ids, fits⟩ =>
        (readMembers after.last after.rest ids).widen (Nat.le_succ_of_le fits)
    | _ =>
      have fits := Cursor.length_skipExpression_le ⟨t, later⟩
      match Cursor.skipExpression ⟨t, later⟩, fits with
      | after, fits =>
        have fits : after.rest.length ≤ later.length := fits
        (readMembers after.last after.rest nextId).widen (Nat.le_succ_of_le fits)
termination_by 4 * rest.length + 0

/-- Reads the property whose key has been consumed. -/
def readProperty (key : Token) (rest : List Token) (nextId : Nat) :
    Reading (Option Property) rest.length :=
  if isModifier key rest then
    skipped (Cursor.skipExpression ⟨key, rest⟩) nextId (Cursor.length_skipExpression_le _)
  else
    match rest with
    | [] => skipped ⟨key, []⟩ nextId (Nat.le_refl _)
    | t :: later =>
      if t.isOperator ":" then
        match readValue t later nextId with
        | ⟨value, after, ids, fits⟩ =>
          ⟨some ⟨key.through after.last, key.propertyKey, value, false, false, false⟩, after,
            ids, Nat.le_succ_of_le fits⟩
      else
        match t.kind with
        | .comma | .rightBrace | .eof =>
          ⟨some ⟨key.span, key.propertyKey, shorthandValue key.propertyKey, true, false, false⟩,
            ⟨key, t :: later⟩, nextId, Nat.le_refl _⟩
        | .leftParen =>
          let method := Cursor.skipMethod ⟨key, t :: later⟩
          ⟨some ⟨key.through method.last, key.propertyKey, none, false, false, true⟩, method,
            nextId, Cursor.length_skipMethod_le _⟩
        | _ =>
          skipped (Cursor.skipExpression ⟨key, t :: later⟩) nextId
            (Cursor.length_skipExpression_le _)
termination_by 4 * rest.length + 0

/-- Reads the value of a property whose colon has been consumed. -/
def readValue (colon : Token) (rest : List Token) (nextId : Nat) :
    Reading (Option Expr) rest.length :=
  match rest with
  | [] => skipped ⟨colon, []⟩ nextId (Nat.le_refl _)
  | t :: later =>
    if Cursor.atBoundary ⟨colon, t :: later⟩ then
      skipped ⟨colon, t :: later⟩ nextId (Nat.le_refl _)
    else (read t later nextId).widen (Nat.le_succ _)
termination_by 4 * rest.length + 0

/-- Reads past a computed property whose opening bracket has been consumed. Its
value is read, so that the object literals inside it get their numbers, and is
not kept. -/
def readComputed (bracket : Token) (rest : List Token) (nextId : Nat) :
    Reading (Option Expr) rest.length :=
  have fits := Cursor.length_skipBalanced_le ⟨bracket, rest⟩
  match Cursor.skipBalanced ⟨bracket, rest⟩, fits with
  | ⟨last, []⟩, fits => skipped ⟨last, []⟩ nextId fits
  | ⟨last, t :: later⟩, fits =>
    have fits : later.length + 1 ≤ rest.length := fits
    if t.isOperator ":" then (readValue t later nextId).widen (Nat.le_of_succ_le fits)
    else if t.kind = .leftParen then
      skipped (Cursor.skipMethod ⟨last, t :: later⟩) nextId
        (Nat.le_trans (Cursor.length_skipMethod_le _) fits)
    else skipped ⟨last, t :: later⟩ nextId fits
termination_by 4 * rest.length + 0

end

end Expr
end ImportAtlas
