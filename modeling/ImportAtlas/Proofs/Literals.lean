import ImportAtlas.Proofs.Trivia

/-! The grammar of literals, as it is nested. A template holds substitutions, a substitution
holds braces, strings and templates, and these hold each other again to any depth. A literal of
this grammar is a single token whatever stands in front of it and behind it: the scan that keeps
its open constructs in a list ends exactly where the grammar ends. -/
namespace ImportAtlas.Literals
open Extent Tiling Token

/-- What may stand between the quotes of a string: characters other than the quote, a backslash
and a line feed, and backslashes with any character behind them but a line feed. -/
inductive StringBody (quote : Char) : List Char → Prop where
  | nil : StringBody quote []
  | plain (inside : c ≠ quote) (unescaped : c ≠ '\\') (sameLine : c ≠ '\n')
      (more : StringBody quote rest) : StringBody quote (c :: rest)
  | escape (sameLine : c ≠ '\n') (more : StringBody quote rest) :
      StringBody quote ('\\' :: c :: rest)

/-- A string literal between two single or two double quotes. -/
inductive IsString : List Char → Prop where
  | between (isQuote : quote = '\x27' ∨ quote = '\x22') (body : StringBody quote text) :
      IsString (quote :: (text ++ [quote]))

mutual

/-- A template literal between two backticks. -/
inductive IsTemplate : List Char → Prop where
  | between (items : TemplateItems text) : IsTemplate ('\x60' :: (text ++ ['\x60']))

/-- What may stand between backticks: characters other than a backtick and a backslash, where a
dollar is not followed by a brace; backslashes with any character behind them; and
substitutions. -/
inductive TemplateItems : List Char → Prop where
  | nil : TemplateItems []
  | plain (inside : c ≠ '\x60') (unescaped : c ≠ '\\') (free : c = '$' → rest.head? ≠ some '{')
      (more : TemplateItems rest) : TemplateItems (c :: rest)
  | escape (more : TemplateItems rest) : TemplateItems ('\\' :: c :: rest)
  | substitution (inner : SubstitutionItems text) (more : TemplateItems rest) :
      TemplateItems ('$' :: '{' :: (text ++ '}' :: rest))

/-- What may stand inside a substitution: characters other than braces, quotes and backticks;
braces around more of the same; strings and templates. -/
inductive SubstitutionItems : List Char → Prop where
  | nil : SubstitutionItems []
  | plain (notOpen : c ≠ '{') (notClose : c ≠ '}') (notQuote : ¬(c = '\x27' ∨ c = '\x22'))
      (notTemplate : c ≠ '\x60') (more : SubstitutionItems rest) : SubstitutionItems (c :: rest)
  | braces (inner : SubstitutionItems text) (more : SubstitutionItems rest) :
      SubstitutionItems ('{' :: (text ++ '}' :: rest))
  | string (literal : IsString text) (more : SubstitutionItems rest) :
      SubstitutionItems (text ++ rest)
  | template (literal : IsTemplate text) (more : SubstitutionItems rest) :
      SubstitutionItems (text ++ rest)

end

/-- A string or template literal. -/
inductive WellFormed : List Char → Prop where
  | string (literal : IsString text) : WellFormed text
  | template (literal : IsTemplate text) : WellFormed text

/-- The closing quote ends the string that its body leaves open. -/
theorem StringBody.closed (body : StringBody quote text) : Quoted quote (text ++ [quote]) := by
  induction body with
  | nil => exact .close
  | plain inside unescaped sameLine _ ih => exact .plain inside unescaped sameLine ih
  | escape sameLine _ ih => exact .escape sameLine ih

/-- A string inside a substitution leaves its braces as they are. -/
theorem IsString.inSubstitution (literal : IsString text) (more : Substitution braces rest) :
    Substitution braces (text ++ rest) := by
  obtain @⟨quote, text, isQuote, body⟩ := literal
  exact .quoted isQuote body.closed more

mutual

/-- The closing backtick ends the template that its items leave open. -/
theorem TemplateItems.closed : TemplateItems text → Template (text ++ ['\x60'])
  | .nil => .close
  | @TemplateItems.plain _ rest inside unescaped free items => by
    refine .plain inside unescaped (fun dollar => ?_) items.closed
    -- Behind the last item comes the backtick, and no brace.
    cases rest with
    | nil => simp
    | cons d rest => exact free dollar
  | .escape items => .escape items.closed
  | @TemplateItems.substitution text _ inner items => by
    have whole := Template.substitution (inner.before .close) items.closed
    rwa [← List.append_assoc, List.append_assoc text, List.singleton_append] at whole

/-- The items of a substitution leave its braces as they are. -/
theorem SubstitutionItems.before (more : Substitution braces after) :
    SubstitutionItems text → Substitution braces (text ++ after)
  | .nil => more
  | .plain notOpen notClose notQuote notTemplate items =>
    .plain notOpen notClose notQuote notTemplate (items.before more)
  | .braces inner items => by
    have whole := Substitution.openInner (inner.before (.closeInner (items.before more)))
    rwa [List.cons_append, List.append_assoc]
  | .string literal items => by
    rw [List.append_assoc]
    exact literal.inSubstitution (items.before more)
  | .template literal items => by
    rw [List.append_assoc]
    exact literal.inSubstitution (items.before more)

/-- So does a template. -/
theorem IsTemplate.inSubstitution (more : Substitution braces after) :
    IsTemplate text → Substitution braces (text ++ after)
  | .between items => .template items.closed more

end

theorem WellFormed.isLiteral (shape : WellFormed text) : IsLiteral text := by
  cases shape with
  | string literal =>
    obtain @⟨quote, text, isQuote, body⟩ := literal
    exact .quoted isQuote body.closed
  | template literal =>
    obtain @⟨text, items⟩ := literal
    exact .template items.closed

/-- Lexing a source comes to a place, with some tokens read, the latest first, and some text
left. -/
inductive Comes (source : List Char) : List Token → Position → List Char → Prop where
  | start : Comes source [] .origin source
  | gap (blank : Text.isGap c = true) (here : Comes source before place (c :: rest)) :
      Comes source before (place.advance [c]) rest
  | token {kind : Kind} (filled : Text.isGap c = false)
      (lexed : lexeme before c rest = (kind, extent)) (here : Comes source before place (c :: rest)) :
      Comes source (ofLexeme kind place ((c :: rest).take extent) :: before)
        (place.advance ((c :: rest).take extent)) ((c :: rest).drop extent)

/-- Wherever lexing comes to, what is left there is still to be lexed. -/
theorem ofSource_of_comes {source : String} (comes : Comes source.toList before place text) :
    ofSource source = scan before place text := by
  generalize spelled : source.toList = characters at comes
  induction comes with
  | start => rw [ofSource, spelled]
  | @gap c before place rest blank _ ih =>
    exact ih.trans (Trivia.scan_skip (List.forall_mem_singleton.mpr blank) before place rest)
  | token filled lexed _ ih =>
    exact ih.trans (Trivia.scan_first (List.forall_mem_nil _) filled lexed)

theorem lexeme_wellFormed (shape : WellFormed (c :: text)) (before : List Token)
    (rest : List Char) :
    Text.isGap c = false ∧ lexeme before c (text ++ rest) = (.string, (c :: text).length) :=
  ⟨Writing.isGap_of_isLiteral shape.isLiteral, lexeme_literal before shape.isLiteral rest⟩

/-- The token of a literal. -/
def stringAt (place : Position) (text : List Char) : Token :=
  ⟨.string, String.ofList text, ⟨place, place.advance text⟩⟩

/-- A literal is one step of lexing. -/
theorem comes_literal (shape : WellFormed text) (comes : Comes source before place (text ++ rest)) :
    Comes source (stringAt place text :: before) (place.advance text) rest := by
  obtain _ | ⟨c, more⟩ := text
  · cases shape.isLiteral
  obtain ⟨filled, lexed⟩ := lexeme_wellFormed shape before rest
  have next := comes.token filled lexed
  rwa [← List.cons_append, List.take_left, List.drop_left] at next

theorem scan_literal (shape : WellFormed text) (before : List Token) (place : Position)
    (rest : List Char) :
    scan before place (text ++ rest) =
      scan (stringAt place text :: before) (place.advance text) rest := by
  obtain _ | ⟨c, more⟩ := text
  · cases shape.isLiteral
  obtain ⟨filled, lexed⟩ := lexeme_wellFormed shape before rest
  have next : scan before place ([] ++ c :: (more ++ rest)) = _ :=
    Trivia.scan_first (List.forall_mem_nil _) filled lexed
  rwa [← List.cons_append, List.take_left, List.drop_left] at next

/-- A literal at the start of a token is exactly one token, a string, whatever is in front of it
and behind it. It stands in the result behind the tokens that were read before, and the tokens
after it are those of the rest, which is lexed from the end of the literal on. So it is in the
tokens of every source whose lexing comes to the literal, be it at once or behind other tokens. -/
theorem literal_is_token (shape : WellFormed text) (before : List Token) (place : Position)
    (rest : List Char) :
    let token := stringAt place text
    scan before place (text ++ rest) = scan (token :: before) (place.advance text) rest ∧
    ∃ later, Tiles (place.advance text) rest later ∧
      scan before place (text ++ rest) = before.reverse ++ token :: later ∧
      ∀ source : String, Comes source.toList before place (text ++ rest) →
        ofSource source = before.reverse ++ token :: later ∧
        Comes source.toList (token :: before) (place.advance text) rest := by
  intro token
  have onward : scan before place (text ++ rest) =
      scan (token :: before) (place.advance text) rest := scan_literal shape before place rest
  obtain ⟨later, scanned, tiled⟩ := tiles_scan (token :: before) (place.advance text) rest
  have whole : scan before place (text ++ rest) = before.reverse ++ token :: later := by
    rw [onward, scanned, List.reverse_cons, List.append_assoc, List.singleton_append]
  refine ⟨onward, later, tiled, whole, ?_⟩
  intro source comes
  exact ⟨(ofSource_of_comes comes).trans whole, comes_literal shape comes⟩

/-- A template with a substitution, and in it braces around a string and one more template. It
stands behind an opening parenthesis. -/
theorem literal_is_token_nested :
    let nested := "\x60a$\x7b\x7bb:'\x7d\x60'\x7d+\x60$c\x60\x7d\\\x60\x60".toList
    let source := String.ofList ('(' :: (nested ++ "; f()".toList))
    let place := Position.origin.advance ['(']
    let opening : Token := ⟨.leftParen, "(", ⟨.origin, place⟩⟩
    WellFormed nested ∧ Comes source.toList [opening] place (nested ++ "; f()".toList) ∧
      ∃ later, ofSource source =
        opening :: ⟨.string, String.ofList nested, ⟨place, place.advance nested⟩⟩ :: later := by
  intro nested source place opening
  have string : IsString ['\x27', '}', '\x60', '\x27'] :=
    .between (.inl rfl) (.plain (by decide) (by decide) (by decide)
      (.plain (by decide) (by decide) (by decide) .nil))
  have template : IsTemplate ['\x60', '$', 'c', '\x60'] :=
    .between (.plain (by decide) (by decide) (by decide)
      (.plain (by decide) (by decide) (by decide) .nil))
  have inBraces : SubstitutionItems ('b' :: ':' :: (['\x27', '}', '\x60', '\x27'] ++ [])) :=
    .plain (by decide) (by decide) (by decide) (by decide)
      (.plain (by decide) (by decide) (by decide) (by decide) (.string string .nil))
  have behind : SubstitutionItems ('+' :: (['\x60', '$', 'c', '\x60'] ++ [])) :=
    .plain (by decide) (by decide) (by decide) (by decide) (.template template .nil)
  have escaped : TemplateItems ['\\', '\x60'] := .escape .nil
  have items := TemplateItems.plain (by decide : 'a' ≠ '\x60') (by decide) (by simp)
    (.substitution (.braces inBraces behind) escaped)
  have shape : WellFormed nested := .template (.between items)
  have comes : Comes source.toList [opening] place (nested ++ "; f()".toList) := by
    have first : Comes source.toList [] .origin source.toList := .start
    rw [String.toList_ofList] at first ⊢
    exact first.token rfl rfl
  obtain ⟨-, later, -, -, within⟩ := literal_is_token shape [opening] place "; f()".toList
  exact ⟨shape, comes, later, (within source comes).1⟩

end ImportAtlas.Literals
