import ImportAtlas.Tree.Module

/-! What the routines that read expressions yield, told apart from the bound that
their types carry. Each routine has one equation, and the proofs about reading
start from these equations rather than from the definitions. -/
namespace ImportAtlas

/-- The value, the cursor and the next number of a reading. -/
def Reading.outcome (r : Reading α bound) : α × Cursor × Nat :=
  (r.value, r.cursor, r.nextId)

namespace Expr

theorem outcome_read (first : Token) (rest : List Token) (n : Nat) :
    (read first rest n).outcome =
      let primary := readPrimary first rest n
      if primary.cursor.atBoundary then primary.outcome
      else (none, primary.cursor.skipExpression, primary.nextId) := by
  rw [read]
  dsimp only
  split
  · rfl
  · rfl

theorem outcome_readPrimary (first : Token) (rest : List Token) (n : Nat) :
    (readPrimary first rest n).outcome =
      match first.kind with
      | .string => (some (.string first.stringLiteral), ⟨first, rest⟩, n)
      | .number => (some (.number ⟨first.span, first.value⟩), ⟨first, rest⟩, n)
      | .identifier => (readName first rest n).outcome
      | .leftBrace =>
        let members := readMembers first rest (n + 1)
        (some (.object ⟨first.through members.cursor.last, n, members.value⟩),
          members.cursor, members.nextId)
      | .leftBracket =>
        let items := readItems .rightBracket first rest n
        (some (.array (first.through items.cursor.last) items.value), items.cursor, items.nextId)
      | .leftParen =>
        if Cursor.arrowFollows 0 rest then (readParenArrow first false first rest n).outcome
        else (none, Cursor.skipBalanced ⟨first, rest⟩, n)
      | .keyword =>
        if first.value = "function" then (none, Cursor.skipFunction ⟨first, rest⟩, n)
        else if first.value = "import" ∧ Cursor.nextIs (·.kind == .leftParen) ⟨first, rest⟩ then
          let chain := readChain first (.dynamicImport first.span) first rest n
          (some chain.value, chain.cursor, chain.nextId)
        else (none, Cursor.skipExpression ⟨first, rest⟩, n)
      | _ => (none, Cursor.skipExpression ⟨first, rest⟩, n) := by
  rw [readPrimary]
  cases first.kind with
  | leftParen =>
    dsimp only
    split
    · rfl
    · rfl
  | keyword =>
    dsimp only
    split
    · rfl
    split
    · rfl
    · rfl
  | _ => rfl

theorem outcome_readName (first : Token) (rest : List Token) (n : Nat) :
    (readName first rest n).outcome =
      match asyncParam? first rest with
      | some (param, after) =>
        (readArrowBody first [param.identifier] true after.last after.rest n).outcome
      | none =>
        match asyncParens? first rest with
        | some paren => (readParenArrow first true paren.last paren.rest n).outcome
        | none =>
          match Cursor.arrow? rest with
          | some after =>
            (readArrowBody first [first.identifier] false after.last after.rest n).outcome
          | none =>
            let chain := readChain first (.identifier first.identifier) first rest n
            (some chain.value, chain.cursor, chain.nextId) := by
  rw [readName]
  split
  · rename_i found
    simp only [found]
    rfl
  rename_i noParam
  simp only [noParam]
  split
  · rename_i found
    simp only [found]
    rfl
  rename_i noParens
  simp only [noParens]
  split
  · rename_i found
    simp only [found]
    rfl
  · rename_i noArrow
    simp only [noArrow]
    rfl

theorem outcome_readChain (start : Token) (expr : Expr) (last : Token) (rest : List Token)
    (n : Nat) :
    (readChain start expr last rest n).outcome =
      match member? rest with
      | some name =>
        (readChain start (.member (start.through name.last) expr name.last.identifier false)
          name.last name.rest n).outcome
      | none =>
        match rest with
        | [] => (expr, ⟨last, []⟩, n)
        | paren :: later =>
          if paren.kind = .leftParen then
            let items := readItems .rightParen paren later n
            (readChain start (.call (start.through items.cursor.last) expr items.value)
              items.cursor.last items.cursor.rest items.nextId).outcome
          else (expr, ⟨last, paren :: later⟩, n) := by
  rw [readChain.eq_def]
  split
  · rename_i found
    simp only [found]
    rfl
  rename_i noMember
  simp only [noMember]
  cases rest with
  | nil => rfl
  | cons paren later =>
    dsimp only
    split
    · rfl
    · rfl

theorem outcome_readItems (closing : Token.Kind) (last : Token) (rest : List Token) (n : Nat) :
    (readItems closing last rest n).outcome =
      match rest with
      | [] => ([], ⟨last, []⟩, n)
      | t :: later =>
        if t.isEof then ([], ⟨last, t :: later⟩, n)
        else if t.kind = closing then ([], ⟨t, later⟩, n)
        else if t.kind = .comma then (readItems closing t later n).outcome
        else
          let item := read t later n
          let more := readItems closing item.cursor.last item.cursor.rest item.nextId
          (item.value.toList ++ more.value, more.cursor, more.nextId) := by
  cases rest with
  | nil =>
    rw [readItems]
    rfl
  | cons t later =>
    rw [readItems]
    dsimp only
    split
    · rfl
    split
    · rfl
    split
    · rfl
    · rfl

theorem outcome_readParenArrow (start : Token) (isAsync : Bool) (paren : Token)
    (rest : List Token) (n : Nat) :
    (readParenArrow start isAsync paren rest n).outcome =
      let list := arrowParams 0 paren rest
      match Cursor.arrow? list.2.rest with
      | some after => (readArrowBody start list.1 isAsync after.last after.rest n).outcome
      | none => (readArrowBody start list.1 isAsync list.2.last list.2.rest n).outcome := by
  rw [readParenArrow]
  dsimp only
  split
  · rename_i found
    simp only [found]
    rfl
  · rename_i noArrow
    simp only [noArrow]
    rfl

theorem outcome_readArrowBody (start : Token) (params : List Identifier) (isAsync : Bool)
    (arrow : Token) (rest : List Token) (n : Nat) :
    (readArrowBody start params isAsync arrow rest n).outcome =
      match rest with
      | [] => (some (.arrow (start.through arrow) params none isAsync), ⟨arrow, []⟩, n)
      | t :: later =>
        if t.kind = .leftBrace then
          let block := Cursor.skipBalanced ⟨t, later⟩
          (some (.arrow (start.through block.last) params none isAsync), block, n)
        else if Cursor.atBoundary ⟨arrow, t :: later⟩ then
          (some (.arrow (start.through arrow) params none isAsync), ⟨arrow, t :: later⟩, n)
        else
          let body := read t later n
          (some (.arrow (start.through body.cursor.last) params body.value isAsync),
            body.cursor, body.nextId) := by
  cases rest with
  | nil =>
    rw [readArrowBody]
    rfl
  | cons t later =>
    rw [readArrowBody]
    dsimp only
    split
    · rfl
    split
    · rfl
    · rfl

theorem outcome_readMembers (last : Token) (rest : List Token) (n : Nat) :
    (readMembers last rest n).outcome =
      match rest with
      | [] => ([], ⟨last, []⟩, n)
      | t :: later =>
        match t.kind with
        | .eof => ([], ⟨last, t :: later⟩, n)
        | .rightBrace => ([], ⟨t, later⟩, n)
        | .comma => (readMembers t later n).outcome
        | .identifier | .keyword | .string =>
          let property := readProperty t later n
          let more := readMembers property.cursor.last property.cursor.rest property.nextId
          (property.value.toList ++ more.value, more.cursor, more.nextId)
        | .leftBracket =>
          let computed := readComputed t later n
          (readMembers computed.cursor.last computed.cursor.rest computed.nextId).outcome
        | _ =>
          let after := Cursor.skipExpression ⟨t, later⟩
          (readMembers after.last after.rest n).outcome := by
  cases rest with
  | nil =>
    rw [readMembers]
    rfl
  | cons t later =>
    rw [readMembers.eq_def]
    dsimp only
    cases t.kind with
    | _ => rfl

theorem outcome_readProperty (key : Token) (rest : List Token) (n : Nat) :
    (readProperty key rest n).outcome =
      if isModifier key rest then (none, Cursor.skipExpression ⟨key, rest⟩, n)
      else
        match rest with
        | [] => (none, ⟨key, []⟩, n)
        | t :: later =>
          if t.isOperator ":" then
            let value := readValue t later n
            (some ⟨key.through value.cursor.last, key.propertyKey, value.value, false, false,
              false⟩, value.cursor, value.nextId)
          else
            match t.kind with
            | .comma | .rightBrace | .eof =>
              (some ⟨key.span, key.propertyKey, shorthandValue key.propertyKey, true, false,
                false⟩, ⟨key, t :: later⟩, n)
            | .leftParen =>
              let method := Cursor.skipMethod ⟨key, t :: later⟩
              (some ⟨key.through method.last, key.propertyKey, none, false, false, true⟩,
                method, n)
            | _ => (none, Cursor.skipExpression ⟨key, t :: later⟩, n) := by
  rw [readProperty.eq_def]
  split
  · rfl
  cases rest with
  | nil => rfl
  | cons t later =>
    dsimp only
    split
    · rfl
    cases t.kind with
    | _ => rfl

theorem outcome_readValue (colon : Token) (rest : List Token) (n : Nat) :
    (readValue colon rest n).outcome =
      match rest with
      | [] => (none, ⟨colon, []⟩, n)
      | t :: later =>
        if Cursor.atBoundary ⟨colon, t :: later⟩ then (none, ⟨colon, t :: later⟩, n)
        else (read t later n).outcome := by
  cases rest with
  | nil =>
    rw [readValue]
    rfl
  | cons t later =>
    rw [readValue]
    dsimp only
    split
    · rfl
    · rfl

theorem outcome_readComputed (bracket : Token) (rest : List Token) (n : Nat) :
    (readComputed bracket rest n).outcome =
      match Cursor.skipBalanced ⟨bracket, rest⟩ with
      | ⟨last, []⟩ => (none, ⟨last, []⟩, n)
      | ⟨last, t :: later⟩ =>
        if t.isOperator ":" then (readValue t later n).outcome
        else if t.kind = .leftParen then (none, Cursor.skipMethod ⟨last, t :: later⟩, n)
        else (none, ⟨last, t :: later⟩, n) := by
  rw [readComputed]
  dsimp only
  split
  · rename_i ends _
    simp only [ends]
    rfl
  · rename_i ends _
    simp only [ends]
    split
    · rfl
    split
    · rfl
    · rfl

end Expr

namespace VariableDeclaration

theorem outcome_readDeclarators (last : Token) (rest : List Token) (n : Nat) :
    (readDeclarators last rest n).outcome =
      match rest with
      | [] => ([], ⟨last, []⟩, n)
      | t :: later =>
        if t.kind = .identifier ∨ t.kind = .leftBrace ∨ t.kind = .leftBracket then
          let first := readDeclarator t later n
          match first.cursor with
          | ⟨last, []⟩ => (first.value.toList, ⟨last, []⟩, first.nextId)
          | ⟨last, comma :: after⟩ =>
            if comma.kind = .comma then
              let more := readDeclarators comma after first.nextId
              (first.value.toList ++ more.value, more.cursor, more.nextId)
            else (first.value.toList, ⟨last, comma :: after⟩, first.nextId)
        else if endsList t then ([], ⟨last, t :: later⟩, n)
        else (readDeclarators t later n).outcome := by
  cases rest with
  | nil =>
    rw [readDeclarators]
    rfl
  | cons t later =>
    rw [readDeclarators]
    dsimp only
    split
    · generalize readDeclarator t later n = first
      obtain ⟨value, ⟨last, _ | ⟨comma, after⟩⟩, ids, fits⟩ := first
      · rfl
      · dsimp only
        split
        · rfl
        · rfl
    split
    · rfl
    · rfl

end VariableDeclaration
end ImportAtlas
