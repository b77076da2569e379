import ImportAtlas.Proofs.Consumption
import ImportAtlas.Proofs.Outcome

/-! Which tokens a node was read from. A node is spelled by a run of tokens: its
children are spelled by disjoint parts of the run, in the order of the run, and
what lies between them belongs to no node. The relation speaks about trees and
tokens only; the routines that read expressions are then shown to yield nothing
that is not spelled by what they consume, on any token stream whatsoever. -/
namespace ImportAtlas.Spelling
open ImportAtlas.Expr Consumption

mutual

/-- The token and the run after it spell an expression, whose object literals
carry numbers from the first one given up to the second, exclusive. -/
inductive Spells : Token → List Token → Nat → Expr → Nat → Prop where
  | identifier : Spells t [] n (.identifier t.identifier) n
  | string : Spells t [] n (.string t.stringLiteral) n
  | number : Spells t [] n (.number ⟨t.span, t.value⟩) n
  | dynamicImport : Spells t [] n (.dynamicImport t.span) n
  | object (opens : t.kind = .leftBrace) (ends : last = used.getLastD t)
      (members : SpellsMembers used (n + 1) properties m) :
      Spells t used n (.object ⟨t.through last, n, properties⟩) m
  | array (ends : last = used.getLastD t) (items : SpellsItems used n elements m) :
      Spells t used n (.array (t.through last) elements) m
  | member (target : Spells t used n e m) :
      Spells t (used ++ [dot, name]) n (.member (t.through name) e name.identifier false) m
  | call (callee : Spells t used n e k) (ends : last = later.getLastD paren)
      (items : SpellsItems later k arguments m) :
      Spells t (used ++ paren :: later) n (.call (t.through last) e arguments) m
  /-- An arrow function of whose body nothing is kept. -/
  | arrow {names : List Token} (params : names.Sublist (t :: used))
      (ends : last = used.getLastD t) (grows : n ≤ m) :
      Spells t used n (.arrow (t.through last) (names.map Token.identifier) none isAsync) m
  | arrowBody {names : List Token} (params : names.Sublist (t :: head))
      (ends : last = later.getLastD b) (body : Spells b later n e m) :
      Spells t (head ++ b :: later) n
        (.arrow (t.through last) (names.map Token.identifier) (some e) isAsync) m

/-- A run spells some expressions. A token outside them may stand for a dropped
expression, which keeps its numbers. -/
inductive SpellsItems : List Token → Nat → List Expr → Nat → Prop where
  | nil : SpellsItems [] n [] n
  | skip (grows : n ≤ k) (more : SpellsItems later k es m) : SpellsItems (t :: later) n es m
  | item (item : Spells t used n e k) (more : SpellsItems later k es m) :
      SpellsItems (t :: (used ++ later)) n (e :: es) m

/-- A run spells some properties. -/
inductive SpellsMembers : List Token → Nat → List Property → Nat → Prop where
  | nil : SpellsMembers [] n [] n
  | skip (grows : n ≤ k) (more : SpellsMembers later k ps m) : SpellsMembers (t :: later) n ps m
  | property (property : SpellsProperty t used n p k) (more : SpellsMembers later k ps m) :
      SpellsMembers (t :: (used ++ later)) n (p :: ps) m

/-- A key and the run after it spell a property. -/
inductive SpellsProperty : Token → List Token → Nat → Property → Nat → Prop where
  | shorthand : SpellsProperty key [] n
      ⟨key.span, key.propertyKey, shorthandValue key.propertyKey, true, false, false⟩ n
  | method (ends : last = used.getLastD key) : SpellsProperty key used n
      ⟨key.through last, key.propertyKey, none, false, false, true⟩ n
  | valueless (ends : last = used.getLastD key) (grows : n ≤ m) : SpellsProperty key used n
      ⟨key.through last, key.propertyKey, none, false, false, false⟩ m
  | value (ends : last = later.getLastD t) (value : Spells t later n e m) :
      SpellsProperty key (colon :: t :: later) n
        ⟨key.through last, key.propertyKey, some e, false, false, false⟩ m

end

mutual

/-- Numbers are only ever given out. -/
theorem Spells.le : Spells t used n e m → n ≤ m
  | .identifier | .string | .number | .dynamicImport => Nat.le_refl n
  | .object _ _ members => Nat.le_of_succ_le members.le
  | .array _ items => items.le
  | .member target => target.le
  | .call callee _ items => Nat.le_trans callee.le items.le
  | .arrow _ _ grows => grows
  | .arrowBody _ _ body => body.le

theorem SpellsItems.le : SpellsItems used n es m → n ≤ m
  | .nil => Nat.le_refl n
  | .skip grows more => Nat.le_trans grows more.le
  | .item item more => Nat.le_trans item.le more.le

theorem SpellsMembers.le : SpellsMembers used n ps m → n ≤ m
  | .nil => Nat.le_refl n
  | .skip grows more => Nat.le_trans grows more.le
  | .property property more => Nat.le_trans property.le more.le

theorem SpellsProperty.le : SpellsProperty key used n p m → n ≤ m
  | .shorthand | .method _ => Nat.le_refl n
  | .valueless _ grows => grows
  | .value _ value => value.le

end

/-- Where a routine ends is reached by a run that spells what it yields. -/
def Yields (spells : List Token → Nat → α → Nat → Prop) (start : Cursor) (n : Nat)
    (result : α × Cursor × Nat) : Prop :=
  ∃ used, Reaches start used result.2.1 ∧ spells used n result.1 result.2.2

/-- A value is spelled if it is kept. -/
def Kept (spells : List Token → Nat → α → Nat → Prop) (used : List Token) (n : Nat)
    (value : Option α) (m : Nat) : Prop :=
  n ≤ m ∧ ∀ x, value = some x → spells used n x m

/-- A run spells the expression behind a colon, an equals sign or a keyword. -/
def SpellsValue (used : List Token) (n : Nat) (e : Expr) (m : Nat) : Prop :=
  ∃ t later, used = t :: later ∧ Spells t later n e m

theorem kept_none (grows : n ≤ m) : Kept spells used n none m :=
  ⟨grows, fun _ impossible => nomatch impossible⟩

theorem kept_some (spelled : spells used n x m) (grows : n ≤ m) :
    Kept spells used n (some x) m :=
  ⟨grows, fun _ same => Option.some.inj same ▸ spelled⟩

theorem yields_skipped (advanced : Advances start stop) (grows : n ≤ m) :
    Yields (Kept spells) start n (none, stop, m) := by
  obtain ⟨used, reached⟩ := advanced
  exact ⟨used, reached, kept_none grows⟩

/-- Any run may stand before some expressions, as long as it has a token for the
numbers it uses up. -/
private theorem SpellsItems.skipRun (run : List Token) (grows : n ≤ k)
    (more : SpellsItems later k es m) : SpellsItems (t :: (run ++ later)) n es m := by
  refine .skip grows ?_
  induction run with
  | nil => exact more
  | cons _ _ ih => exact .skip (Nat.le_refl k) ih

private theorem SpellsMembers.skipRun (run : List Token) (grows : n ≤ k)
    (more : SpellsMembers later k ps m) : SpellsMembers (t :: (run ++ later)) n ps m := by
  refine .skip grows ?_
  induction run with
  | nil => exact more
  | cons _ _ ih => exact .skip (Nat.le_refl k) ih

/-- What a run after a place spells, together with the tokens before that place,
is spelled from the start. -/
private theorem yields_after {spells : List Token → Nat → α → Nat → Prop}
    (reached : Reaches start before middle)
    (yields : Yields (Kept fun used n x m => spells (before ++ used) n x m) middle n result) :
    Yields (Kept spells) start n result := by
  obtain ⟨used, more, kept⟩ := yields
  exact ⟨before ++ used, reached.trans more, kept⟩

/-- Reading the arguments of a call extends an expression that is spelled. -/
private theorem spells_call {items : Reading (List Expr) later.length}
    (spelled : Spells start before n e k) (last : Token) (opens : paren.kind = .leftParen)
    (yields : Yields SpellsItems ⟨paren, later⟩ k items.outcome) :
    ∃ used, Reaches ⟨last, paren :: later⟩ used items.cursor ∧
      Spells start (before ++ used) n (.call (start.through items.cursor.last) e items.value)
        items.nextId := by
  obtain ⟨used, reached, spelledItems⟩ := yields
  exact ⟨paren :: used, .step (isEof_eq_false_of_kind (by simp [opens])) reached,
    .call spelled reached.last_eq spelledItems⟩

/-- A property and the properties after it, if the first one is kept. -/
private theorem spells_property {read : Reading (Option Property) later.length}
    {more : Reading (List Property) read.cursor.rest.length} (inside : t.isEof = false)
    (yields : Yields (Kept (SpellsProperty t)) ⟨t, later⟩ n read.outcome)
    (yieldsMore : Yields SpellsMembers read.cursor read.nextId more.outcome) (last : Token) :
    Yields SpellsMembers ⟨last, t :: later⟩ n
      (read.value.toList ++ more.value, more.cursor, more.nextId) := by
  obtain ⟨used, reached, kept⟩ := yields
  obtain ⟨usedMore, reachedMore, members⟩ := yieldsMore
  refine ⟨t :: (used ++ usedMore), .step inside (reached.trans reachedMore), ?_⟩
  cases value : read.value with
  | none => exact .skipRun used kept.1 members
  | some p => exact .property (kept.2 p value) members

mutual

theorem read_yields (first : Token) (rest : List Token) (n : Nat) :
    Yields (Kept (Spells first)) ⟨first, rest⟩ n (read first rest n).outcome := by
  obtain ⟨used, reached, kept⟩ := readPrimary_yields first rest n
  rw [outcome_read]
  dsimp only
  split
  · exact ⟨used, reached, kept⟩
  · exact yields_skipped (.trans ⟨used, reached⟩ (advances_skipExpression _)) kept.1
termination_by 4 * rest.length + 3

theorem readPrimary_yields (first : Token) (rest : List Token) (n : Nat) :
    Yields (Kept (Spells first)) ⟨first, rest⟩ n (readPrimary first rest n).outcome := by
  rw [outcome_readPrimary]
  split
  · exact ⟨[], .here _, kept_some .string (Nat.le_refl n)⟩
  · exact ⟨[], .here _, kept_some .number (Nat.le_refl n)⟩
  · exact readName_yields first rest n
  · rename_i opens
    obtain ⟨used, reached, members⟩ := readMembers_yields first rest (n + 1)
    exact ⟨used, reached,
      kept_some (.object opens reached.last_eq members) (Nat.le_of_succ_le members.le)⟩
  · obtain ⟨used, reached, items⟩ := readItems_yields .rightBracket first rest n
    exact ⟨used, reached, kept_some (.array reached.last_eq items) items.le⟩
  · split
    · exact readParenArrow_yields first false first [] rest n rfl
    · exact yields_skipped (advances_skipBalanced _) (Nat.le_refl n)
  · split
    · exact yields_skipped (advances_skipFunction _) (Nat.le_refl n)
    split
    · obtain ⟨used, reached, spelled⟩ :=
        readChain_yields first _ first [] rest n n .dynamicImport
      exact ⟨used, reached, kept_some spelled spelled.le⟩
    · exact yields_skipped (advances_skipExpression _) (Nat.le_refl n)
  · exact yields_skipped (advances_skipExpression _) (Nat.le_refl n)
termination_by 4 * rest.length + 2

theorem readName_yields (first : Token) (rest : List Token) (n : Nat) :
    Yields (Kept (Spells first)) ⟨first, rest⟩ n (readName first rest n).outcome := by
  rw [outcome_readName]
  split
  · rename_i param after found
    have shorter : after.rest.length < rest.length := length_lt_of_asyncParam? found
    obtain ⟨equals, reached⟩ := reaches_of_asyncParam? found
    exact yields_after reached (readArrowBody_yields first [param] true after.last
      [param, equals, after.last] after.rest n reached.last_eq
      (List.Sublist.cons _ (List.singleton_sublist.mpr (by simp))))
  split
  · rename_i paren found
    have shorter := length_lt_of_asyncParens? found
    have reached := reaches_of_asyncParens? found
    exact yields_after reached
      (readParenArrow_yields first true paren.last [paren.last] paren.rest n reached.last_eq)
  split
  · rename_i after found
    have shorter := Cursor.length_lt_of_arrow? found
    obtain ⟨equals, reached⟩ := reaches_of_arrow? found first
    exact yields_after reached (readArrowBody_yields first [first] false after.last
      [equals, after.last] after.rest n reached.last_eq
      (List.singleton_sublist.mpr (by simp)))
  · obtain ⟨used, reached, spelled⟩ :=
      readChain_yields first _ first [] rest n n .identifier
    exact ⟨used, reached, kept_some spelled spelled.le⟩
termination_by 4 * rest.length + 1

/-- A chain goes on from an expression that is spelled by the tokens before it. -/
theorem readChain_yields (start : Token) (expr : Expr) (last : Token) (before rest : List Token)
    (n k : Nat) (spelled : Spells start before n expr k) :
    Yields (fun used _ e m => Spells start (before ++ used) n e m) ⟨last, rest⟩ k
      (readChain start expr last rest k).outcome := by
  rw [outcome_readChain]
  split
  · rename_i name found
    have shorter := length_lt_of_member? found
    obtain ⟨dot, reached⟩ := reaches_of_member? found last
    obtain ⟨used, more, spelled⟩ := readChain_yields start _ name.last
      (before ++ [dot, name.last]) name.rest n k (.member spelled)
    exact ⟨_, reached.trans more, by simpa using spelled⟩
  obtain _ | ⟨paren, later⟩ := rest
  · exact ⟨[], .here _, by simpa using spelled⟩
  dsimp only
  split
  · rename_i opens
    have shorter := (readItems .rightParen paren later k).fits
    obtain ⟨used, reached, called⟩ :=
      spells_call spelled last opens (readItems_yields .rightParen paren later k)
    obtain ⟨more, reachedMore, spelled⟩ := readChain_yields start _ _ (before ++ used)
      (readItems .rightParen paren later k).cursor.rest n _ called
    exact ⟨used ++ more, reached.trans reachedMore, by simpa using spelled⟩
  · exact ⟨[], .here _, by simpa using spelled⟩
termination_by 4 * rest.length + 0

theorem readItems_yields (closing : Token.Kind) (last : Token) (rest : List Token) (n : Nat) :
    Yields SpellsItems ⟨last, rest⟩ n (readItems closing last rest n).outcome := by
  rw [outcome_readItems]
  obtain _ | ⟨t, later⟩ := rest
  · exact ⟨[], .here _, .nil⟩
  dsimp only
  split
  · exact ⟨[], .here _, .nil⟩
  rename_i inside
  have inside : t.isEof = false := by simpa using inside
  split
  · exact ⟨[t], .single inside, .skip (Nat.le_refl n) .nil⟩
  split
  · obtain ⟨used, reached, items⟩ := readItems_yields closing t later n
    exact ⟨t :: used, .step inside reached, .skip (Nat.le_refl n) items⟩
  · have shorter := (read t later n).fits
    obtain ⟨used, reached, kept⟩ := read_yields t later n
    obtain ⟨more, reachedMore, items⟩ := readItems_yields closing
      (read t later n).cursor.last (read t later n).cursor.rest (read t later n).nextId
    refine ⟨t :: (used ++ more), .step inside (reached.trans reachedMore), ?_⟩
    dsimp only
    cases value : (read t later n).value with
    | none => exact .skipRun used kept.1 items
    | some e => exact .item (kept.2 e value) items
termination_by 4 * rest.length + 0

theorem readParenArrow_yields (start : Token) (isAsync : Bool) (paren : Token)
    (before rest : List Token) (n : Nat) (ends : paren = before.getLastD start) :
    Yields (Kept fun used n e m => Spells start (before ++ used) n e m) ⟨paren, rest⟩ n
      (readParenArrow start isAsync paren rest n).outcome := by
  have fits := length_arrowParams_le 0 paren rest
  obtain ⟨used, names, reached, ordered, same⟩ := reaches_arrowParams 0 paren rest
  have params : names.Sublist (start :: (before ++ used)) :=
    .cons _ (ordered.trans (List.sublist_append_right ..))
  rw [outcome_readParenArrow]
  dsimp only
  rw [same]
  split
  · rename_i after found
    have shorter := Cursor.length_lt_of_arrow? found
    obtain ⟨equals, more⟩ := reaches_of_arrow? found (arrowParams 0 paren rest).2.last
    refine yields_after (reached.trans more) ?_
    simp only [← List.append_assoc]
    exact readArrowBody_yields start names isAsync after.last _ after.rest n
      (by simp) (params.trans (.cons_cons _ (List.sublist_append_left ..)))
  · refine yields_after reached ?_
    simp only [← List.append_assoc]
    exact readArrowBody_yields start names isAsync _ (before ++ used)
      (arrowParams 0 paren rest).2.rest n (by rw [reached.last_eq, ends, getLastD_append]) params
termination_by 4 * rest.length + 1

theorem readArrowBody_yields (start : Token) (names : List Token) (isAsync : Bool)
    (arrow : Token) (before rest : List Token) (n : Nat) (ends : arrow = before.getLastD start)
    (params : names.Sublist (start :: before)) :
    Yields (Kept fun used n e m => Spells start (before ++ used) n e m) ⟨arrow, rest⟩ n
      (readArrowBody start (names.map Token.identifier) isAsync arrow rest n).outcome := by
  have bodyless : Spells start (before ++ []) n
      (.arrow (start.through arrow) (names.map Token.identifier) none isAsync) n := by
    rw [List.append_nil]
    exact .arrow params ends (Nat.le_refl n)
  rw [outcome_readArrowBody]
  obtain _ | ⟨t, later⟩ := rest
  · exact ⟨[], .here _, kept_some bodyless (Nat.le_refl n)⟩
  dsimp only
  split
  · rename_i opens
    obtain ⟨used, reached⟩ := advances_skipBalanced ⟨t, later⟩
    refine ⟨t :: used, .step (isEof_eq_false_of_kind (by simp [opens])) reached,
      kept_some (.arrow (params.trans ?_) ?_ (Nat.le_refl n)) (Nat.le_refl n)⟩
    · exact .cons_cons _ (List.sublist_append_left ..)
    · rw [getLastD_append_cons]
      exact reached.last_eq
  split
  · exact ⟨[], .here _, kept_some bodyless (Nat.le_refl n)⟩
  · rename_i goes
    obtain ⟨used, reached, kept⟩ := read_yields t later n
    refine ⟨t :: used, .step (isEof_eq_false_of_goes goes) reached, kept_some ?_ kept.1⟩
    dsimp only
    cases value : (read t later n).value with
    | none =>
      refine .arrow (params.trans (.cons_cons _ (List.sublist_append_left ..))) ?_ kept.1
      rw [getLastD_append_cons]
      exact reached.last_eq
    | some e => exact .arrowBody params reached.last_eq (kept.2 e value)
termination_by 4 * rest.length + 0

theorem readMembers_yields (last : Token) (rest : List Token) (n : Nat) :
    Yields SpellsMembers ⟨last, rest⟩ n (readMembers last rest n).outcome := by
  rw [outcome_readMembers]
  obtain _ | ⟨t, later⟩ := rest
  · exact ⟨[], .here _, .nil⟩
  dsimp only
  have inside (kind : t.kind ≠ .eof) : t.isEof = false := isEof_eq_false_of_kind kind
  have shorter := (readProperty t later n).fits
  have property (kind : t.kind ≠ .eof) := spells_property (inside kind)
    (readProperty_yields t later n) (readMembers_yields
      (readProperty t later n).cursor.last (readProperty t later n).cursor.rest
      (readProperty t later n).nextId) last
  split
  · exact ⟨[], .here _, .nil⟩
  · rename_i kind
    exact ⟨[t], .single (inside (by simp [kind])), .skip (Nat.le_refl n) .nil⟩
  · rename_i kind
    obtain ⟨used, reached, members⟩ := readMembers_yields t later n
    exact ⟨t :: used, .step (inside (by simp [kind])) reached, .skip (Nat.le_refl n) members⟩
  · rename_i kind
    exact property (by simp [kind])
  · rename_i kind
    exact property (by simp [kind])
  · rename_i kind
    exact property (by simp [kind])
  · rename_i kind
    have shorter := (readComputed t later n).fits
    obtain ⟨used, reached, grows⟩ := readComputed_yields t later n
    obtain ⟨more, reachedMore, members⟩ := readMembers_yields
      (readComputed t later n).cursor.last (readComputed t later n).cursor.rest
      (readComputed t later n).nextId
    exact ⟨t :: (used ++ more), .step (inside (by simp [kind])) (reached.trans reachedMore),
      .skipRun used grows members⟩
  · rename_i kind _ _ _ _ _ _
    have shorter : (Cursor.skipExpression ⟨t, later⟩).rest.length ≤ later.length :=
      Cursor.length_skipExpression_le _
    obtain ⟨used, reached⟩ := advances_skipExpression ⟨t, later⟩
    obtain ⟨more, reachedMore, members⟩ := readMembers_yields
      (Cursor.skipExpression ⟨t, later⟩).last (Cursor.skipExpression ⟨t, later⟩).rest n
    exact ⟨t :: (used ++ more), .step (inside kind) (reached.trans reachedMore),
      .skipRun used (Nat.le_refl n) members⟩
termination_by 4 * rest.length + 0

theorem readProperty_yields (key : Token) (rest : List Token) (n : Nat) :
    Yields (Kept (SpellsProperty key)) ⟨key, rest⟩ n (readProperty key rest n).outcome := by
  rw [outcome_readProperty]
  split
  · exact yields_skipped (advances_skipExpression _) (Nat.le_refl n)
  obtain _ | ⟨t, later⟩ := rest
  · exact yields_skipped (.refl _) (Nat.le_refl n)
  dsimp only
  split
  · rename_i colon
    obtain ⟨used, reached, kept⟩ := readValue_yields t later n
    refine ⟨t :: used, .step (isEof_eq_false_of_isOperator colon) reached, kept_some ?_ kept.1⟩
    dsimp only
    cases value : (readValue t later n).value with
    | none =>
      refine .valueless ?_ kept.1
      rw [List.getLastD_cons]
      exact reached.last_eq
    | some e =>
      obtain ⟨first, later, rfl, spelled⟩ := kept.2 e value
      refine .value ?_ spelled
      exact reached.last_eq.trans List.getLastD_cons
  split
  · exact ⟨[], .here _, kept_some .shorthand (Nat.le_refl n)⟩
  · exact ⟨[], .here _, kept_some .shorthand (Nat.le_refl n)⟩
  · exact ⟨[], .here _, kept_some .shorthand (Nat.le_refl n)⟩
  · obtain ⟨used, reached⟩ := advances_skipMethod ⟨key, t :: later⟩
    exact ⟨used, reached, kept_some (.method reached.last_eq) (Nat.le_refl n)⟩
  · exact yields_skipped (advances_skipExpression _) (Nat.le_refl n)
termination_by 4 * rest.length + 0

theorem readValue_yields (colon : Token) (rest : List Token) (n : Nat) :
    Yields (Kept SpellsValue) ⟨colon, rest⟩ n (readValue colon rest n).outcome := by
  rw [outcome_readValue]
  obtain _ | ⟨t, later⟩ := rest
  · exact yields_skipped (.refl _) (Nat.le_refl n)
  dsimp only
  split
  · exact yields_skipped (.refl _) (Nat.le_refl n)
  · rename_i goes
    obtain ⟨used, reached, kept⟩ := read_yields t later n
    exact ⟨t :: used, .step (isEof_eq_false_of_goes goes) reached, kept.1,
      fun e value => ⟨t, used, rfl, kept.2 e value⟩⟩
termination_by 4 * rest.length + 0

theorem readComputed_yields (bracket : Token) (rest : List Token) (n : Nat) :
    Yields (fun _ n _ m => n ≤ m) ⟨bracket, rest⟩ n (readComputed bracket rest n).outcome := by
  have fits := Cursor.length_skipBalanced_le ⟨bracket, rest⟩
  obtain ⟨used, reached⟩ := advances_skipBalanced ⟨bracket, rest⟩
  rw [outcome_readComputed]
  split
  · rename_i ends
    exact ⟨used, ends ▸ reached, Nat.le_refl n⟩
  · rename_i last t later ends
    rw [ends] at fits reached
    have fits : later.length + 1 ≤ rest.length := fits
    split
    · rename_i colon
      obtain ⟨more, reachedMore, kept⟩ := readValue_yields t later n
      exact ⟨used ++ t :: more,
        reached.trans (.step (isEof_eq_false_of_isOperator colon) reachedMore), kept.1⟩
    split
    · obtain ⟨more, reachedMore⟩ := advances_skipMethod ⟨last, t :: later⟩
      exact ⟨used ++ more, reached.trans reachedMore, Nat.le_refl n⟩
    · exact ⟨used, reached, Nat.le_refl n⟩
termination_by 4 * rest.length + 0

end

/-- A node covers its run from the first token to the last one. -/
theorem Spells.span_eq (spelled : Spells t used n e m) :
    e.span = t.through (used.getLastD t) := by
  cases spelled with
  | identifier => rfl
  | string => rfl
  | number => rfl
  | dynamicImport => rfl
  | object _ ends _ => rw [← ends]; rfl
  | array ends _ => rw [← ends]; rfl
  | member _ => rw [getLastD_append_cons]; rfl
  | call _ ends _ => rw [getLastD_append_cons, ← ends]; rfl
  | arrow _ ends _ => rw [← ends]; rfl
  | arrowBody _ ends _ => rw [getLastD_append_cons, ← ends]; rfl

theorem atBoundary_read (first : Token) (rest : List Token) (n : Nat) :
    (read first rest n).cursor.atBoundary = true := by
  change (read first rest n).outcome.2.1.atBoundary = true
  rw [outcome_read]
  dsimp only
  split
  · assumption
  · exact atBoundary_skipExpression _

/-- What a caller relies on after reading the expression that starts at one index
of a stream: the index of the last token consumed tells where the cursor is, the
end of the source is still to come, the expression is over, and a kept node
covers all of it. -/
structure Resynchronized (stream : List Token) (first : Nat) (r : Reading (Option Expr) bound)
    (last : Nat) : Prop where
  forward : first ≤ last
  consumed : stream[last]? = some r.cursor.last
  next : r.cursor.rest = stream.drop (last + 1)
  inside : ∀ i t, first < i → i ≤ last → stream[i]? = some t → t.isEof = false
  boundary : r.cursor.atBoundary = true
  covers : ∀ e, r.value = some e →
    ∃ t, stream[first]? = some t ∧ e.span = t.through r.cursor.last

/-- The token a run ends with stands at the index where the run ends. -/
private theorem getElem?_getLastD (before : List Token) (t : Token) (used after : List Token) :
    (before ++ t :: (used ++ after))[before.length + used.length]? = some (used.getLastD t) := by
  induction used generalizing before t with
  | nil => simp
  | cons u used ih =>
    have step := ih (before ++ [t]) u
    rw [List.getLastD_cons, ← step]
    simp [Nat.add_assoc, Nat.add_comm 1]

private theorem drop_behind (before : List Token) (t : Token) (used after : List Token) :
    (before ++ t :: (used ++ after)).drop (before.length + used.length + 1) = after := by
  rw [Nat.add_assoc, List.drop_append, List.drop_eq_nil_of_le (by omega)]
  simp

/-- The tokens behind the first one, up to where a run ends, are those of the run. -/
private theorem mem_of_between {before used after : List Token} {t u : Token} {i : Nat}
    (above : before.length < i) (below : i ≤ before.length + used.length)
    (found : (before ++ t :: (used ++ after))[i]? = some u) : u ∈ used := by
  obtain ⟨k, rfl⟩ : ∃ k, i = before.length + (k + 1) := ⟨i - before.length - 1, by omega⟩
  have within : k < used.length := by omega
  rw [List.getElem?_append_right (by omega)] at found
  have among : used[k]? = some u := by
    simpa [List.getElem?_append_left within] using found
  exact List.mem_of_getElem? among

private theorem resynchronized_at (before : List Token) (t : Token) (rest : List Token) (n : Nat) :
    ∃ last, Resynchronized (before ++ t :: rest) before.length (read t rest n) last := by
  obtain ⟨used, reached, kept⟩ := read_yields t rest n
  have split : rest = used ++ (read t rest n).cursor.rest := reached.rest_eq
  have ends : (read t rest n).cursor.last = used.getLastD t := reached.last_eq
  have atLast := getElem?_getLastD before t used (read t rest n).cursor.rest
  have behind := drop_behind before t used (read t rest n).cursor.rest
  rw [← split] at atLast behind
  refine ⟨before.length + used.length, Nat.le_add_right .., ends ▸ atLast, behind.symm, ?_,
    atBoundary_read t rest n, ?_⟩
  · intro i u above below found
    rw [split] at found
    exact reached.inside u (mem_of_between above below found)
  · intro e value
    refine ⟨t, by simp, ?_⟩
    rw [ends]
    exact (kept.2 e value).span_eq

/-- Reading an expression resynchronizes, from every index of every stream: the
tokens may come from a source or not, their brackets need not match, and the end
of the source may stand anywhere among them. -/
theorem read_resynchronizes (tokens : List Token) (first n : Nat) (t : Token)
    (here : (Module.significant tokens)[first]? = some t) :
    ∃ last, Resynchronized (Module.significant tokens) first
      (read t ((Module.significant tokens).drop (first + 1)) n) last := by
  generalize Module.significant tokens = stream at here ⊢
  obtain ⟨within, rfl⟩ := List.getElem?_eq_some_iff.mp here
  have split : stream = stream.take first ++ stream[first] :: stream.drop (first + 1) := by simp
  have starts : (stream.take first).length = first := List.length_take_of_le (by omega)
  have found := resynchronized_at (stream.take first) stream[first] (stream.drop (first + 1)) n
  rwa [← split, starts] at found

/-- A call that the end of the source cuts off behind a brace that closes nothing. -/
theorem read_resynchronizes_cut_off :
    let word (kind : Token.Kind) (text : String) : Token := ⟨kind, text, default⟩
    let tokens := [word .identifier "f", word .comment "//", word .leftParen "(",
      word .rightBrace "\x7d", word .eof "", word .rightBracket "]"]
    (Module.significant tokens)[0]? = some (word .identifier "f") ∧
      ∃ last, Resynchronized (Module.significant tokens) 0
        (read (word .identifier "f") ((Module.significant tokens).drop 1) 0) last :=
  ⟨rfl, read_resynchronizes _ 0 0 _ rfl⟩

end ImportAtlas.Spelling
