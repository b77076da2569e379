import ImportAtlas.Tree.Expression

/-! What moving a cursor consumes. A run is the list of tokens between two
cursors of one stream, and no run holds the end of the source. Every function
that moves past a construct which is not modelled consumes such a run, whether or
not the brackets around it match. -/
namespace ImportAtlas.Consumption
open ImportAtlas.Expr

/-- The second cursor stands behind the first one by exactly the given tokens,
none of which ends the source. -/
inductive Reaches : Cursor → List Token → Cursor → Prop where
  | here (c : Cursor) : Reaches c [] c
  | step (inside : t.isEof = false) (more : Reaches ⟨t, rest⟩ used stop) :
      Reaches ⟨last, t :: rest⟩ (t :: used) stop

/-- Some run leads from the first cursor to the second. -/
def Advances (start stop : Cursor) : Prop :=
  ∃ used, Reaches start used stop

theorem Reaches.trans (first : Reaches start before middle) (second : Reaches middle after stop) :
    Reaches start (before ++ after) stop := by
  induction first with
  | here => exact second
  | step inside _ ih => exact .step inside (ih second)

/-- One token consumed. -/
theorem Reaches.single (inside : t.isEof = false) : Reaches ⟨last, t :: rest⟩ [t] ⟨t, rest⟩ :=
  .step inside (.here _)

theorem getLastD_append (before after : List α) (default : α) :
    (before ++ after).getLastD default = after.getLastD (before.getLastD default) := by
  induction before generalizing default with
  | nil => rfl
  | cons y before ih => rw [List.cons_append, List.getLastD_cons, List.getLastD_cons, ih]

/-- The last of some elements is the last one behind any of them. -/
theorem getLastD_append_cons (before : List α) (x : α) (after : List α) (default : α) :
    (before ++ x :: after).getLastD default = after.getLastD x := by
  rw [getLastD_append, List.getLastD_cons]

/-- The tokens to come are the run and what is left after it. -/
theorem Reaches.rest_eq (reached : Reaches start used stop) :
    start.rest = used ++ stop.rest := by
  induction reached with
  | here => rfl
  | step _ _ ih => exact congrArg (_ :: ·) ih

/-- The cursor behind a run remembers its last token. -/
theorem Reaches.last_eq (reached : Reaches start used stop) :
    stop.last = used.getLastD start.last := by
  induction reached with
  | here => rfl
  | step _ _ ih => rw [ih, List.getLastD_cons]

/-- The tokens from the one before a run to its end have the one that the cursor
behind the run remembers last. -/
theorem Reaches.run_eq (reached : Reaches start used stop) :
    ∃ before, start.last :: used = before ++ [stop.last] := by
  induction reached with
  | here c => exact ⟨[], rfl⟩
  | step _ _ ih =>
    obtain ⟨before, same⟩ := ih
    exact ⟨_ :: before, congrArg (_ :: ·) same⟩

theorem Reaches.inside (reached : Reaches start used stop) : ∀ t ∈ used, t.isEof = false := by
  induction reached with
  | here => simp
  | step inside _ ih =>
    intro t member
    rcases List.mem_cons.mp member with rfl | member
    · exact inside
    · exact ih t member

theorem Advances.refl (c : Cursor) : Advances c c :=
  ⟨[], .here c⟩

theorem Advances.trans (first : Advances start middle) (second : Advances middle stop) :
    Advances start stop := by
  obtain ⟨before, first⟩ := first
  obtain ⟨after, second⟩ := second
  exact ⟨before ++ after, first.trans second⟩

theorem Advances.step (inside : t.isEof = false) (more : Advances ⟨t, rest⟩ stop) :
    Advances ⟨last, t :: rest⟩ stop := by
  obtain ⟨used, more⟩ := more
  exact ⟨t :: used, .step inside more⟩

/-- A token of any other kind does not end the source. -/
theorem isEof_eq_false_of_kind {t : Token} (kind : t.kind ≠ .eof) : t.isEof = false := by
  simpa [Token.isEof] using kind

theorem advances_skipIf {p : Token → Bool} (stops : ∀ t, p t = true → t.isEof = false)
    (c : Cursor) : Advances c (c.skipIf p) := by
  obtain ⟨last, _ | ⟨t, rest⟩⟩ := c
  · exact .refl _
  · simp only [Cursor.skipIf]
    split
    · rename_i accepted
      exact .step (stops t accepted) (.refl _)
    · exact .refl _

/-- A token that is asked for and stands there is consumed. -/
theorem reaches_skipIf {p : Token → Bool} {c : Cursor} (next : c.nextIs p = true)
    (stops : ∀ t, p t = true → t.isEof = false) : Reaches c [(c.skipIf p).last] (c.skipIf p) := by
  obtain ⟨last, _ | ⟨t, rest⟩⟩ := c
  · simp [Cursor.nextIs] at next
  · have accepted : p t = true := next
    simp only [Cursor.skipIf, accepted, ↓reduceIte]
    exact .single (stops t accepted)

private theorem advances_toClosing (opening closing : Token.Kind) (depth : Nat) (last : Token)
    (rest : List Token) :
    Advances ⟨last, rest⟩ (Cursor.toClosing opening closing depth last rest) := by
  induction rest generalizing depth last with
  | nil => exact .refl _
  | cons t rest ih =>
    simp only [Cursor.toClosing]
    split
    · exact .refl _
    rename_i inside
    have inside : t.isEof = false := by simpa using inside
    split
    · exact .step inside (ih _ t)
    split
    · split
      · exact .step inside (.refl _)
      · exact .step inside (ih _ t)
    · exact .step inside (ih _ t)

theorem advances_skipBalanced (c : Cursor) : Advances c c.skipBalanced := by
  unfold Cursor.skipBalanced
  split
  · exact advances_toClosing ..
  · exact .refl _

theorem advances_skipBracket {opening : Token.Kind} (opens : opening ≠ .eof) (c : Cursor) :
    Advances c (c.skipBracket opening) := by
  obtain ⟨last, _ | ⟨t, rest⟩⟩ := c
  · exact .refl _
  · simp only [Cursor.skipBracket]
    split
    · rename_i same
      exact .step (isEof_eq_false_of_kind (same ▸ opens)) (advances_skipBalanced _)
    · exact .refl _

theorem advances_skipMethod (c : Cursor) : Advances c c.skipMethod :=
  (advances_skipBracket (by decide) c).trans (advances_skipBracket (by decide) _)

/-- An operator is not the end of the source. -/
theorem isEof_eq_false_of_isOperator {t : Token} (operator : t.isOperator text = true) : t.isEof = false := by
  simp only [Token.isOperator, Bool.and_eq_true, beq_iff_eq] at operator
  exact isEof_eq_false_of_kind (by simp [operator.1])

theorem advances_skipFunction (c : Cursor) : Advances c c.skipFunction := by
  have star := advances_skipIf (p := (·.isOperator "*"))
    (fun _ accepted => isEof_eq_false_of_isOperator accepted) c
  have name := advances_skipIf (p := (·.kind == .identifier))
    (fun t accepted => isEof_eq_false_of_kind (by simp_all)) (c.skipIf (·.isOperator "*"))
  exact (star.trans name).trans (advances_skipMethod _)

/-- A token that is no boundary does not end the source. -/
theorem isEof_eq_false_of_goes {t : Token}
    (goes : ¬Cursor.atBoundary ⟨last, t :: rest⟩ = true) : t.isEof = false := by
  cases ends : t.isEof with
  | false => rfl
  | true => exact absurd (by simp [Cursor.atBoundary, Cursor.isTerminator, ends]) goes

private theorem advances_toBoundary (depth : Cursor.Depth) (last : Token) (rest : List Token) :
    Advances ⟨last, rest⟩ (Cursor.toBoundary depth last rest) := by
  induction rest generalizing depth last with
  | nil => exact .refl _
  | cons t rest ih =>
    simp only [Cursor.toBoundary]
    split
    · exact .refl _
    · rename_i goes
      refine .step ?_ (ih _ t)
      -- Whatever the depth, the end of the source is a place to stop.
      unfold Cursor.stopsAt at goes
      split at goes
      · simpa [Cursor.nextIs] using goes
      · exact isEof_eq_false_of_goes goes

theorem advances_skipExpression (c : Cursor) : Advances c c.skipExpression :=
  advances_toBoundary ..

/-- Skipping an expression ends at a boundary. -/
private theorem atBoundary_toBoundary (depth : Cursor.Depth) (last : Token) (rest : List Token) :
    (Cursor.toBoundary depth last rest).atBoundary = true := by
  induction rest generalizing depth last with
  | nil => rfl
  | cons t rest ih =>
    simp only [Cursor.toBoundary]
    split
    · rename_i stops
      unfold Cursor.stopsAt at stops
      split at stops
      · have ends : t.isEof = true := by simpa [Cursor.nextIs] using stops
        simp [Cursor.atBoundary, Cursor.isTerminator, ends]
      · exact stops
    · exact ih _ t

theorem atBoundary_skipExpression (c : Cursor) : c.skipExpression.atBoundary = true :=
  atBoundary_toBoundary ..

/-- The two halves of an arrow, consumed. -/
theorem reaches_of_arrow? (found : Cursor.arrow? rest = some after) (last : Token) :
    ∃ equals, Reaches ⟨last, rest⟩ [equals, after.last] after := by
  unfold Cursor.arrow? at found
  split at found
  · rename_i equals gt later
    split at found
    · rename_i both
      cases found
      simp only [Bool.and_eq_true, beq_iff_eq] at both
      exact ⟨equals, .step (isEof_eq_false_of_isOperator both.1)
        (.single (isEof_eq_false_of_kind (by simp [both.2])))⟩
    · cases found
  · cases found

/-- The dot and the name of a member access, consumed. -/
theorem reaches_of_member? (found : member? rest = some after) (last : Token) :
    ∃ dot, Reaches ⟨last, rest⟩ [dot, after.last] after := by
  unfold member? at found
  split at found
  · rename_i dot name later
    split at found
    · rename_i both
      cases found
      simp only [Bool.and_eq_true, Bool.or_eq_true, beq_iff_eq] at both
      refine ⟨dot, .step ?_ (.single (isEof_eq_false_of_kind ?_))⟩
      · exact both.1.elim isEof_eq_false_of_isOperator isEof_eq_false_of_isOperator
      · rcases both.2 with kind | kind <;> simp [kind]
    · cases found
  · cases found

/-- The parameter and the arrow after `async`, consumed. -/
theorem reaches_of_asyncParam? (found : asyncParam? first rest = some (param, after)) :
    ∃ equals, Reaches ⟨first, rest⟩ [param, equals, after.last] after := by
  unfold asyncParam? at found
  split at found
  · split at found
    · rename_i both
      obtain ⟨_, atArrow, same⟩ := Option.map_eq_some_iff.mp found
      cases same
      obtain ⟨equals, reached⟩ := reaches_of_arrow? atArrow param
      exact ⟨equals, .step (isEof_eq_false_of_kind (by simp [both.2])) reached⟩
    · cases found
  · cases found

/-- The parenthesis after `async`, consumed. -/
theorem reaches_of_asyncParens? (found : asyncParens? first rest = some after) :
    Reaches ⟨first, rest⟩ [after.last] after := by
  unfold asyncParens? at found
  split at found
  · split at found
    · rename_i both
      cases found
      exact .single (isEof_eq_false_of_kind (by simp [both.2.1]))
    · cases found
  · cases found

/-- A parameter list consumes a run, and its parameters are tokens of that run in
their order. -/
theorem reaches_arrowParams (depth : Nat) (last : Token) (rest : List Token) :
    ∃ (used names : List Token), Reaches ⟨last, rest⟩ used (arrowParams depth last rest).2 ∧
      names.Sublist used ∧ (arrowParams depth last rest).1 = names.map Token.identifier := by
  induction rest generalizing depth last with
  | nil => exact ⟨[], [], .here _, .slnil, rfl⟩
  | cons t rest ih =>
    simp only [arrowParams]
    split
    · exact ⟨[], [], .here _, .slnil, rfl⟩
    rename_i inside
    have inside : t.isEof = false := by simpa using inside
    have passed (depth : Nat) : ∃ (used names : List Token),
        Reaches ⟨last, t :: rest⟩ used (arrowParams depth t rest).2 ∧
          names.Sublist used ∧ (arrowParams depth t rest).1 = names.map Token.identifier := by
      obtain ⟨used, names, reached, ordered, same⟩ := ih depth t
      exact ⟨t :: used, names, .step inside reached, ordered.cons t, same⟩
    split
    · exact passed _
    split
    · split
      · exact ⟨[t], [], .single inside, List.nil_sublist _, rfl⟩
      · exact passed _
    split
    · obtain ⟨used, names, reached, ordered, same⟩ := ih depth t
      exact ⟨t :: used, t :: names, .step inside reached, ordered.cons_cons t,
        congrArg (t.identifier :: ·) same⟩
    · exact passed _

end ImportAtlas.Consumption
