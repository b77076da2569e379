import ImportAtlas.Token.Basic

/-! Places between the tokens of a source. A cursor knows the token before it and
the tokens after it. The functions here move it over constructs that are not
modelled: past a bracketed region, or to the end of an expression. None of them
moves past the end of the source. -/

namespace ImportAtlas

/-- A place in a token stream: the last token consumed, and the tokens to come. -/
structure Cursor where
  last : Token
  rest : List Token

namespace Cursor

/-- Whether the next token satisfies a predicate. -/
def nextIs (p : Token → Bool) (c : Cursor) : Bool :=
  match c.rest with
  | t :: _ => p t
  | [] => false

/-- Consumes the next token if it satisfies a predicate. -/
def skipIf (p : Token → Bool) (c : Cursor) : Cursor :=
  match c.rest with
  | t :: rest => if p t then ⟨t, rest⟩ else c
  | [] => c

theorem length_skipIf_le (p : Token → Bool) (c : Cursor) :
    (c.skipIf p).rest.length ≤ c.rest.length := by
  obtain ⟨last, _ | ⟨t, rest⟩⟩ := c
  · simp [skipIf]
  · simp only [skipIf]
    split
    · simp
    · simp

/-- Consumes tokens through the one that closes a bracket. Only brackets of its
own kind count; `depth` of them are open inside it. Without a closing token,
everything before the end of the source is consumed. -/
def toClosing (opening closing : Token.Kind) (depth : Nat) (last : Token) :
    List Token → Cursor
  | [] => ⟨last, []⟩
  | t :: rest =>
    if t.isEof then ⟨last, t :: rest⟩
    else if t.kind = opening then toClosing opening closing (depth + 1) t rest
    else if t.kind = closing then
      match depth with
      | 0 => ⟨t, rest⟩
      | depth + 1 => toClosing opening closing depth t rest
    else toClosing opening closing depth t rest

theorem length_toClosing_le (opening closing : Token.Kind) (depth : Nat) (last : Token)
    (rest : List Token) :
    (toClosing opening closing depth last rest).rest.length ≤ rest.length := by
  induction rest generalizing depth last with
  | nil => simp [toClosing]
  | cons t rest ih =>
    have step (depth : Nat) := Nat.le_succ_of_le (ih depth t)
    simp only [toClosing]
    split
    · exact Nat.le_refl _
    split
    · exact step _
    split
    · split
      · exact Nat.le_succ _
      · exact step _
    · exact step _

/-- Consumes tokens through the one that closes the bracket just opened. -/
def skipBalanced (c : Cursor) : Cursor :=
  match c.last.kind.closing? with
  | some closing => toClosing c.last.kind closing 0 c.last c.rest
  | none => c

theorem length_skipBalanced_le (c : Cursor) : c.skipBalanced.rest.length ≤ c.rest.length := by
  unfold skipBalanced
  split
  · exact length_toClosing_le ..
  · exact Nat.le_refl _

/-- Consumes a bracketed region if the next token opens one of the given kind. -/
def skipBracket (opening : Token.Kind) (c : Cursor) : Cursor :=
  match c.rest with
  | t :: rest => if t.kind = opening then skipBalanced ⟨t, rest⟩ else c
  | [] => c

theorem length_skipBracket_le (opening : Token.Kind) (c : Cursor) :
    (c.skipBracket opening).rest.length ≤ c.rest.length := by
  obtain ⟨last, _ | ⟨t, rest⟩⟩ := c
  · simp [skipBracket]
  · simp only [skipBracket]
    split
    · exact Nat.le_succ_of_le (length_skipBalanced_le ⟨t, rest⟩)
    · exact Nat.le_refl _

/-- Consumes a parameter list and a body in braces, as far as they are there. -/
def skipMethod (c : Cursor) : Cursor :=
  (c.skipBracket .leftParen).skipBracket .leftBrace

theorem length_skipMethod_le (c : Cursor) : c.skipMethod.rest.length ≤ c.rest.length :=
  Nat.le_trans (length_skipBracket_le ..) (length_skipBracket_le ..)

/-- Consumes what follows the keyword of a function: a star, a name, a parameter
list and a body, as far as they are there. -/
def skipFunction (c : Cursor) : Cursor :=
  ((c.skipIf (·.isOperator "*")).skipIf (·.kind == .identifier)).skipMethod

theorem length_skipFunction_le (c : Cursor) : c.skipFunction.rest.length ≤ c.rest.length :=
  Nat.le_trans (length_skipMethod_le _)
    (Nat.le_trans (length_skipIf_le ..) (length_skipIf_le ..))

/-- Whether the tokens start with `import` as a value: a call or `import.meta`. -/
def startsDynamicImport : List Token → Bool
  | t :: next :: _ => t.isKeyword "import" && (next.kind == .leftParen || next.isOperator ".")
  | _ => false

/-- Whether a token ends any expression before it. At the top level of an
expression a closing bracket belongs to an enclosing construct. -/
def isTerminator (t : Token) : Bool :=
  t.isEof || t.kind == .comma || t.kind.isClose || t.isOperator ";"

/-- Whether a token on a new line may start a statement. -/
def startsStatement (t : Token) : Bool :=
  match t.kind with
  | .identifier | .string | .number | .keyword => true
  | _ => false

/-- Whether the cursor stands at the end of an expression: before a terminator,
before a keyword that no expression contains, or at a line break where a word or
a literal follows a token that can end an expression. -/
def atBoundary (c : Cursor) : Bool :=
  match c.rest with
  | [] => true
  | t :: rest =>
    isTerminator t ||
    (t.kind == .keyword && !Token.expressionKeywords.contains t.value &&
      !startsDynamicImport (t :: rest)) ||
    (c.last.span.stop.line < t.span.start.line && startsStatement t &&
      c.last.endsExpression && c.last.kind != .ambiguousGt)

/-- How many brackets of each kind are open. -/
structure Depth where
  braces : Nat := 0
  parens : Nat := 0
  brackets : Nat := 0
  deriving DecidableEq, Repr

/-- The depth after a token. A closing bracket that closes nothing is ignored. -/
def Depth.after (d : Depth) : Token.Kind → Depth
  | .leftBrace => { d with braces := d.braces + 1 }
  | .rightBrace => { d with braces := d.braces - 1 }
  | .leftParen => { d with parens := d.parens + 1 }
  | .rightParen => { d with parens := d.parens - 1 }
  | .leftBracket => { d with brackets := d.brackets + 1 }
  | .rightBracket => { d with brackets := d.brackets - 1 }
  | _ => d

/-- Whether some bracket is open. -/
def Depth.isNested (d : Depth) : Bool :=
  0 < d.braces + d.parens + d.brackets

/-- Whether an expression with some open brackets goes no further. Inside
brackets only the end of the source stops it. -/
def stopsAt (depth : Depth) (c : Cursor) : Bool :=
  if depth.isNested then c.nextIs Token.isEof else c.atBoundary

/-- Consumes tokens up to the first boundary outside brackets. -/
def toBoundary (depth : Depth) (last : Token) : List Token → Cursor
  | [] => ⟨last, []⟩
  | t :: rest =>
    if stopsAt depth ⟨last, t :: rest⟩ then ⟨last, t :: rest⟩
    else toBoundary (depth.after t.kind) t rest

theorem length_toBoundary_le (depth : Depth) (last : Token) (rest : List Token) :
    (toBoundary depth last rest).rest.length ≤ rest.length := by
  induction rest generalizing depth last with
  | nil => simp [toBoundary]
  | cons t rest ih =>
    simp only [toBoundary]
    split
    · exact Nat.le_refl _
    · exact Nat.le_succ_of_le (ih _ t)

/-- Consumes the rest of an expression after its last consumed token. A bracket
opened by that token is closed first. -/
def skipExpression (c : Cursor) : Cursor :=
  toBoundary (Depth.after {} c.last.kind) c.last c.rest

theorem length_skipExpression_le (c : Cursor) :
    c.skipExpression.rest.length ≤ c.rest.length :=
  length_toBoundary_le ..

/-- Consumes a semicolon if there is one. -/
def skipTerminator (c : Cursor) : Cursor :=
  c.skipIf (·.isOperator ";")

theorem length_skipTerminator_le (c : Cursor) :
    c.skipTerminator.rest.length ≤ c.rest.length :=
  length_skipIf_le ..

/-- If the tokens start with `=>`, its second half and the tokens after it. -/
def arrow? : List Token → Option Cursor
  | equals :: gt :: rest =>
    if equals.isOperator "=" && gt.kind == .ambiguousGt then some ⟨gt, rest⟩ else none
  | _ => none

theorem length_lt_of_arrow? {rest : List Token} {c : Cursor} (found : arrow? rest = some c) :
    c.rest.length < rest.length := by
  unfold arrow? at found
  split at found
  · split at found
    · cases found
      simp only [List.length_cons]
      omega
    · cases found
  · cases found

/-- Whether `=>` follows the parenthesis that closes an open one. The tokens
start inside it, with `depth` more open. -/
def arrowFollows (depth : Nat) : List Token → Bool
  | [] => false
  | t :: rest =>
    match t.kind with
    | .leftParen => arrowFollows (depth + 1) rest
    | .rightParen =>
      match depth with
      | 0 => (arrow? rest).isSome
      | depth + 1 => arrowFollows depth rest
    | .eof => false
    | _ => arrowFollows depth rest

end Cursor
end ImportAtlas
