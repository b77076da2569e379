import ImportAtlas.Proofs.Brackets

/-! Looking ahead and consuming agree. Whether a parenthesis opens the parameters of an arrow
function is decided by looking for an arrow behind the parenthesis that closes it, and that
search counts parentheses only. The list itself is consumed afterwards by a scan that counts
brackets of every kind. Between two parentheses that match, both come to the same closing
parenthesis, so that an arrow that has been seen is there when it is read. -/
namespace ImportAtlas.ParameterList
open ImportAtlas.Expr Nesting Brackets

/-- The tokens between two indices. -/
def inside (stream : List Token) (opening stop : Nat) : List Token :=
  (stream.take stop).drop (opening + 1)

/-- A parenthesis and the one that matches it. The brackets between them are well nested, and
the source does not end there. -/
structure Encloses (stream : List Token) (opening closing : Nat) (paren close : Token) : Prop where
  forward : opening < closing
  opens : stream[opening]? = some paren
  opening_kind : paren.kind = .leftParen
  closes : stream[closing]? = some close
  closing_kind : close.kind = .rightParen
  nested : nestAll [] (inside stream opening closing) = some []
  whole : ∀ t ∈ inside stream opening closing, t.isEof = false

/-- An arrow stands at an index, with the given second half. -/
def ArrowAt (stream : List Token) (index : Nat) (gt : Token) : Prop :=
  (∃ equals, stream[index]? = some equals ∧ equals.isOperator "=" = true) ∧
    stream[index + 1]? = some gt ∧ gt.kind = .ambiguousGt

/-- What stands directly in front of a parameter: the parenthesis, a comma or the three dots of
a rest parameter. -/
def LeadsIn (t : Token) : Prop :=
  t.kind = .leftParen ∨ t.kind = .comma ∨ t.isOperator "..." = true

/-- A plain parameter stands at an index: a name directly behind what leads in a parameter, with
no bracket open but the parenthesis of the list. -/
def ParamAt (stream : List Token) (opening index : Nat) : Prop :=
  ∃ previous t, stream[index - 1]? = some previous ∧ LeadsIn previous ∧
    stream[index]? = some t ∧ t.kind = .identifier ∧
    nestAll [] (inside stream opening index) = some []

/-- Some names are the plain parameters behind one index and in front of another, in their
order. -/
def Params (stream : List Token) (opening first stop : Nat) (names : List Identifier) : Prop :=
  ∃ indices : List Nat, indices.Pairwise (· < ·) ∧
    (∀ i, i ∈ indices ↔ first < i ∧ i < stop ∧ ParamAt stream opening i) ∧
    indices.map (fun i => stream[i]?.map Token.identifier) = names.map some

section Region
variable {stream inner after : List Token} {stack : List Token.Kind}

theorem drop_of_getElem? (here : stream[i]? = some t) : stream.drop i = t :: stream.drop (i + 1) := by
  obtain ⟨within, rfl⟩ := List.getElem?_eq_some_iff.mp here
  exact List.drop_eq_getElem_cons within

theorem inside_next (behind : opening < i) (here : stream[i]? = some t) :
    inside stream opening (i + 1) = inside stream opening i ++ [t] := by
  have within : i < stream.length := (List.getElem?_eq_some_iff.mp here).1
  unfold inside
  rw [List.take_add_one, here, Option.toList_some]
  exact List.drop_append_of_le_length (by rw [List.length_take]; omega)

/-- Behind the parenthesis come the tokens between the two, the one that closes it and what is
behind that. -/
theorem Encloses.split (encloses : Encloses stream opening closing paren close) :
    stream.drop (opening + 1) =
      inside stream opening closing ++ close :: stream.drop (closing + 1) := by
  have within : closing < stream.length := (List.getElem?_eq_some_iff.mp encloses.closes).1
  have forward := encloses.forward
  rw [← drop_of_getElem? encloses.closes, inside, ← List.drop_append_of_le_length,
    List.take_append_drop]
  rw [List.length_take]
  omega

/-- What a token does to the number of open parentheses. -/
theorem count_nest (nests : nest stack kind = some below) :
    (kind = .leftParen ∧ below.count .rightParen = stack.count .rightParen + 1) ∨
      (kind = .rightParen ∧ stack.count .rightParen = below.count .rightParen + 1) ∨
      (kind ≠ .leftParen ∧ kind ≠ .rightParen ∧
        below.count .rightParen = stack.count .rightParen) := by
  rcases nest_cases nests with ⟨notClose, rfl⟩ | ⟨closes, rfl⟩
  · cases kind with
    | leftParen => exact .inl ⟨rfl, by simp [opened, Token.Kind.closing?]⟩
    | rightParen => cases notClose
    | _ => exact .inr (.inr ⟨by simp, by simp, by simp [opened, Token.Kind.closing?]⟩)
  · cases kind with
    | rightParen => exact .inr (.inl ⟨rfl, by simp⟩)
    | rightBrace | rightBracket => exact .inr (.inr ⟨by simp, by simp, by simp⟩)
    | _ => cases closes

/-- Counting parentheses only, the one that closes a region is found. -/
theorem arrowFollows_nested (nested : nestAll stack inner = some [])
    (whole : ∀ t ∈ inner, t.isEof = false) (closes : close.kind = .rightParen) :
    Cursor.arrowFollows (stack.count .rightParen) (inner ++ close :: after) =
      (Cursor.arrow? after).isSome := by
  induction inner generalizing stack with
  | nil =>
    cases nested
    rw [List.nil_append, Cursor.arrowFollows.eq_def]
    simp [closes]
  | cons t inner ih =>
    obtain ⟨below, nests, nested⟩ := Option.bind_eq_some_iff.mp nested
    obtain ⟨here, whole⟩ := List.forall_mem_cons.mp whole
    rw [List.cons_append, ← ih nested whole, Cursor.arrowFollows.eq_def]
    dsimp only
    rcases count_nest nests with ⟨kind, count⟩ | ⟨kind, count⟩ | ⟨notOpen, notClose, count⟩
    · simp only [kind, count]
    · simp only [kind, count]
    · rw [count]
      split
      · contradiction
      · contradiction
      · rename_i kind
        simp [Token.isEof, kind] at here
      · rfl

/-- Skipping a parenthesis comes to the same end. -/
theorem toClosing_nested (nested : nestAll stack inner = some [])
    (whole : ∀ t ∈ inner, t.isEof = false) (closes : close.kind = .rightParen) (last : Token) :
    Cursor.toClosing .leftParen .rightParen (stack.count .rightParen) last
      (inner ++ close :: after) = ⟨close, after⟩ := by
  induction inner generalizing stack last with
  | nil =>
    cases nested
    simp [Cursor.toClosing, Token.isEof, closes]
  | cons t inner ih =>
    obtain ⟨below, nests, nested⟩ := Option.bind_eq_some_iff.mp nested
    obtain ⟨here, whole⟩ := List.forall_mem_cons.mp whole
    have more := ih nested whole t
    simp only [List.cons_append, Cursor.toClosing, here, Bool.false_eq_true, ↓reduceIte]
    rcases count_nest nests with ⟨kind, count⟩ | ⟨kind, count⟩ | ⟨notOpen, notClose, count⟩
    · rwa [if_pos kind, ← count]
    · rwa [kind, count]
    · rwa [if_neg notOpen, if_neg notClose, ← count]

end Region

section Consuming
variable {stream inner after : List Token} {stack : List Token.Kind} {names : List Identifier}

/-- A plain parameter goes before those behind it. -/
theorem Params.cons (params : Params stream opening (i + 1) stop names) (inFront : i + 1 < stop)
    (here : stream[i + 1]? = some t) (param : ParamAt stream opening (i + 1)) :
    Params stream opening i stop (t.identifier :: names) := by
  obtain ⟨indices, ordered, all, same⟩ := params
  refine ⟨(i + 1) :: indices, List.pairwise_cons.mpr ⟨fun j member => ?_, ordered⟩, fun j => ?_, ?_⟩
  · exact ((all j).mp member).1
  · rw [List.mem_cons, all]
    constructor
    · rintro (rfl | ⟨behind, rest⟩)
      · exact ⟨Nat.lt_succ_self i, inFront, param⟩
      · exact ⟨Nat.lt_of_succ_lt behind, rest⟩
    · rintro ⟨behind, rest⟩
      rcases Nat.eq_or_lt_of_le behind with rfl | further
      · exact .inl rfl
      · exact .inr ⟨further, rest⟩
  · simp [here, same]

/-- Any other token is passed over. -/
theorem Params.skip (params : Params stream opening (i + 1) stop names)
    (other : ¬ParamAt stream opening (i + 1)) : Params stream opening i stop names := by
  obtain ⟨indices, ordered, all, same⟩ := params
  refine ⟨indices, ordered, fun j => ?_, same⟩
  rw [all]
  constructor
  · rintro ⟨behind, rest⟩
    exact ⟨Nat.lt_of_succ_lt behind, rest⟩
  · rintro ⟨behind, inFront, param⟩
    rcases Nat.eq_or_lt_of_le behind with rfl | further
    · exact absurd param other
    · exact ⟨further, inFront, param⟩

theorem precedesParam_iff (t : Token) : precedesParam t = true ↔ LeadsIn t := by
  simp [precedesParam, LeadsIn, or_assoc]

/-- What is asked of a token while the list is consumed is whether it is a plain parameter. -/
private theorem paramAt_iff (here : stream[i]? = some last) (next : stream[i + 1]? = some t)
    (before : nestAll [] (inside stream opening (i + 1)) = some stack) :
    ParamAt stream opening (i + 1) ↔
      (t.kind == .identifier && stack.length == 0 && precedesParam last) = true := by
  simp only [ParamAt, Nat.add_sub_cancel, here, next, before, Option.some.injEq,
    Bool.and_eq_true, beq_iff_eq, List.length_eq_zero_iff, precedesParam_iff]
  constructor
  · rintro ⟨_, _, rfl, leads, rfl, kind, rfl⟩
    exact ⟨⟨kind, rfl⟩, leads⟩
  · rintro ⟨⟨kind, rfl⟩, leads⟩
    exact ⟨last, t, rfl, leads, rfl, kind, rfl⟩

/-- One token of the list takes the depth from the brackets open in front of it to those open
behind it, and its name goes before the later ones if it is a plain parameter. A bracket is no
name, and any other token leaves the depth as it is. -/
private theorem arrowParams_step (nests : nest stack t.kind = some below)
    (notEof : t.isEof = false) (last : Token) (rest : List Token) :
    arrowParams stack.length last (t :: rest) =
      if t.kind == .identifier && stack.length == 0 && precedesParam last then
        (t.identifier :: (arrowParams below.length t rest).1, (arrowParams below.length t rest).2)
      else arrowParams below.length t rest := by
  simp only [arrowParams, notEof, Bool.false_eq_true, ↓reduceIte]
  rcases nest_cases nests with ⟨notClose, rfl⟩ | ⟨closing, rfl⟩
  · cases opens : t.kind.isOpen with
    | true =>
      have notName : t.kind ≠ .identifier := by
        intro name
        simp [name, Token.Kind.isOpen] at opens
      obtain ⟨kind, found⟩ := Option.isSome_iff_exists.mp (isOpen_eq_isSome _ ▸ opens)
      simp [notName, opened, found]
    | false => simp only [notClose, Bool.false_eq_true, ↓reduceIte, opened_of_not_open opens]
  · simp [not_isOpen_of_isClose closing, closing]

/-- Counting brackets of every kind, the list is consumed through the parenthesis that closes it,
and its names are the plain parameters. -/
theorem arrowParams_nested (standing : stream.drop i = last :: (inner ++ close :: after))
    (behind : opening ≤ i) (before : nestAll [] (inside stream opening (i + 1)) = some stack)
    (nested : nestAll stack inner = some []) (whole : ∀ t ∈ inner, t.isEof = false)
    (closes : close.kind = .rightParen) :
    ∃ names, arrowParams stack.length last (inner ++ close :: after) = (names, ⟨close, after⟩) ∧
      Params stream opening i (i + 1 + inner.length) names := by
  induction inner generalizing i last stack with
  | nil =>
    cases nested
    refine ⟨[], ?_, [], .nil, fun j => ?_, rfl⟩
    · simp [arrowParams, Token.isEof, closes, Token.Kind.isOpen, Token.Kind.isClose]
    · simp only [List.not_mem_nil, List.length_nil, false_iff]
      omega
  | cons t inner ih =>
    obtain ⟨below, nests, nested⟩ := Option.bind_eq_some_iff.mp nested
    obtain ⟨notEof, whole⟩ := List.forall_mem_cons.mp whole
    have here : stream[i]? = some last := by rw [← List.head?_drop, standing, List.head?_cons]
    have further : stream.drop (i + 1) = t :: (inner ++ close :: after) := by
      rw [← List.tail_drop, standing]
      rfl
    have next : stream[i + 1]? = some t := by rw [← List.head?_drop, further, List.head?_cons]
    have grown : nestAll [] (inside stream opening (i + 1 + 1)) = some below := by
      rw [inside_next (Nat.lt_succ_of_le behind) next, nestAll_append, before]
      simpa [nestAll] using nests
    obtain ⟨names, consumed, params⟩ := ih further (Nat.le_succ_of_le behind) grown nested whole
    have stop : i + 1 + (t :: inner).length = i + 1 + 1 + inner.length := by
      rw [List.length_cons]
      omega
    have asked := paramAt_iff here next before
    rw [stop, List.cons_append, arrowParams_step nests notEof, consumed]
    split
    · rename_i name
      exact ⟨_, rfl, params.cons (by omega) next (asked.mpr name)⟩
    · rename_i other
      exact ⟨names, rfl, params.skip fun param => other (asked.mp param)⟩

end Consuming

/-- An arrow at an index is the one that reading finds there. -/
theorem arrow?_drop (stream : List Token) (i : Nat) (c : Cursor) :
    Cursor.arrow? (stream.drop i) = some c ↔
      ∃ gt, ArrowAt stream i gt ∧ c = ⟨gt, stream.drop (i + 2)⟩ := by
  constructor
  · intro found
    obtain ⟨equals, gt, rest, shape⟩ : ∃ equals gt rest, stream.drop i = equals :: gt :: rest := by
      unfold Cursor.arrow? at found
      split at found
      · rename_i shape
        exact ⟨_, _, _, shape⟩
      · cases found
    have behind : stream.drop (i + 1) = gt :: rest := by
      rw [← List.tail_drop, shape]
      rfl
    have further : stream.drop (i + 2) = rest := by
      rw [← List.tail_drop, behind]
      rfl
    simp only [shape, Cursor.arrow?, Option.ite_none_right_eq_some, Bool.and_eq_true,
      beq_iff_eq, Option.some.injEq] at found
    obtain ⟨⟨isEquals, isGreater⟩, rfl⟩ := found
    refine ⟨gt, ⟨⟨equals, ?_, isEquals⟩, ?_, isGreater⟩, by rw [further]⟩
    · rw [← List.head?_drop, shape, List.head?_cons]
    · rw [← List.head?_drop, behind, List.head?_cons]
  · rintro ⟨gt, ⟨⟨equals, here, isEquals⟩, next, isGreater⟩, rfl⟩
    rw [drop_of_getElem? here, drop_of_getElem? next]
    simp [Cursor.arrow?, isEquals, isGreater]

section Encloses
variable {stream : List Token} {opening closing : Nat} {paren close : Token}

/-- Looking ahead finds an arrow if and only if one stands behind the closing parenthesis. -/
theorem Encloses.arrowFollows_iff (encloses : Encloses stream opening closing paren close) :
    Cursor.arrowFollows 0 (stream.drop (opening + 1)) = true ↔
      ∃ gt, ArrowAt stream (closing + 1) gt := by
  have looks : Cursor.arrowFollows 0 (inside stream opening closing ++
      close :: stream.drop (closing + 1)) = (Cursor.arrow? (stream.drop (closing + 1))).isSome :=
    arrowFollows_nested encloses.nested encloses.whole encloses.closing_kind
  simp only [encloses.split, looks, Option.isSome_iff_exists, arrow?_drop]
  constructor
  · rintro ⟨_, gt, arrow, -⟩
    exact ⟨gt, arrow⟩
  · rintro ⟨gt, arrow⟩
    exact ⟨_, gt, arrow, rfl⟩

/-- The list is consumed through the closing parenthesis, and yields its plain parameters. -/
theorem Encloses.arrowParams_eq (encloses : Encloses stream opening closing paren close) :
    ∃ names, arrowParams 0 paren (stream.drop (opening + 1)) =
        (names, ⟨close, stream.drop (closing + 1)⟩) ∧
      Params stream opening opening closing names := by
  have standing : stream.drop opening =
      paren :: (inside stream opening closing ++ close :: stream.drop (closing + 1)) := by
    rw [drop_of_getElem? encloses.opens, encloses.split]
  have nothing : inside stream opening (opening + 1) = [] := by
    rw [inside, List.drop_eq_nil_iff, List.length_take]
    omega
  obtain ⟨names, consumed, params⟩ := arrowParams_nested standing (Nat.le_refl _)
    (by rw [nothing]; rfl) encloses.nested encloses.whole encloses.closing_kind
  have within : closing < stream.length := (List.getElem?_eq_some_iff.mp encloses.closes).1
  have stop : opening + 1 + (inside stream opening closing).length = closing := by
    have forward := encloses.forward
    rw [inside, List.length_drop, List.length_take]
    omega
  rw [stop] at params
  rw [← encloses.split] at consumed
  exact ⟨names, consumed, params⟩

theorem Encloses.toClosing_eq (encloses : Encloses stream opening closing paren close) :
    Cursor.toClosing .leftParen .rightParen 0 paren (stream.drop (opening + 1)) =
      ⟨close, stream.drop (closing + 1)⟩ := by
  rw [encloses.split]
  exact toClosing_nested encloses.nested encloses.whole encloses.closing_kind paren

end Encloses

/-- Between two parentheses that match, looking ahead finds an arrow if and only if one stands
behind the closing parenthesis. The list is consumed through exactly that parenthesis, and
yields its plain parameters in their order. So the arrow that was seen is read, and the body
behind it. Looking ahead moves nothing: where there is no arrow, reading goes on behind the
opening parenthesis and skips to the closing one. -/
theorem lookahead_agrees (encloses : Encloses stream opening closing paren close) :
    (Cursor.arrowFollows 0 (stream.drop (opening + 1)) = true ↔
      ∃ gt, ArrowAt stream (closing + 1) gt) ∧
    ∃ names, Params stream opening opening closing names ∧
      arrowParams 0 paren (stream.drop (opening + 1)) =
        (names, ⟨close, stream.drop (closing + 1)⟩) ∧
      (∀ gt, ArrowAt stream (closing + 1) gt → ∀ n,
        (∀ start isAsync,
          (readParenArrow start isAsync paren (stream.drop (opening + 1)) n).outcome =
            (readArrowBody start names isAsync gt (stream.drop (closing + 3)) n).outcome) ∧
        (readPrimary paren (stream.drop (opening + 1)) n).outcome =
          (readArrowBody paren names false gt (stream.drop (closing + 3)) n).outcome) ∧
      ((¬∃ gt, ArrowAt stream (closing + 1) gt) → ∀ n,
        (readPrimary paren (stream.drop (opening + 1)) n).outcome =
          (none, ⟨close, stream.drop (closing + 1)⟩, n)) := by
  obtain ⟨names, consumed, params⟩ := encloses.arrowParams_eq
  have seen := encloses.arrowFollows_iff
  have reads (gt : Token) (arrow : ArrowAt stream (closing + 1) gt) (n : Nat) (start : Token)
      (isAsync : Bool) :
      (readParenArrow start isAsync paren (stream.drop (opening + 1)) n).outcome =
        (readArrowBody start names isAsync gt (stream.drop (closing + 3)) n).outcome := by
    have found := (arrow?_drop stream (closing + 1) _).mpr ⟨gt, arrow, rfl⟩
    rw [outcome_readParenArrow, consumed]
    simp only [found]
  refine ⟨seen, names, params, consumed, fun gt arrow n => ⟨reads gt arrow n, ?_⟩, fun none n => ?_⟩
  · rw [outcome_readPrimary, encloses.opening_kind]
    simp only [seen.mpr ⟨gt, arrow⟩, ↓reduceIte]
    exact reads gt arrow n paren false
  · rw [outcome_readPrimary, encloses.opening_kind]
    simp only [mt seen.mp none, Bool.false_eq_true, ↓reduceIte, Cursor.skipBalanced,
      encloses.opening_kind, Token.Kind.closing?]
    exact congrArg (Option.none, ·, n) encloses.toClosing_eq

/-- A list with a default value, a pattern and a rest parameter, and an arrow behind it. -/
theorem lookahead_agrees_defaults :
    let word (kind : Token.Kind) (text : String) : Token := ⟨kind, text, default⟩
    let stream := [word .leftParen "(", word .identifier "a", word .operator "=",
      word .leftBracket "[", word .identifier "b", word .comma ",", word .identifier "c",
      word .rightBracket "]", word .comma ",", word .leftBrace "\x7b", word .identifier "d",
      word .rightBrace "\x7d", word .comma ",", word .operator "...", word .identifier "e",
      word .rightParen ")", word .operator "=", word .ambiguousGt ">", word .eof ""]
    Encloses stream 0 15 (word .leftParen "(") (word .rightParen ")") ∧
      Cursor.arrowFollows 0 (stream.drop 1) = true ∧
      ∃ names, Params stream 0 0 15 names ∧ names.map (·.name) = ["a", "e"] ∧
        arrowParams 0 (word .leftParen "(") (stream.drop 1) =
          (names, ⟨word .rightParen ")", stream.drop 16⟩) := by
  intro word stream
  have encloses : Encloses stream 0 15 (word .leftParen "(") (word .rightParen ")") :=
    ⟨by decide, rfl, rfl, rfl, rfl, rfl, by decide⟩
  obtain ⟨looks, names, params, consumed, -⟩ := lookahead_agrees encloses
  have listed : (arrowParams 0 (word .leftParen "(") (stream.drop 1)).1.map (·.name) =
      ["a", "e"] := by decide
  rw [consumed] at listed
  exact ⟨encloses, looks.mpr ⟨word .ambiguousGt ">", ⟨_, rfl, rfl⟩, rfl, rfl⟩, names, params,
    listed, consumed⟩

end ImportAtlas.ParameterList
