import Mathlib.Logic.Relation
import ImportAtlas.Proofs.Relexing

/-! Literals without their quotes. The scan of a literal knows whether a quote closes it: it
keeps what is open, and takes a backslash together with the character behind it. Unquoting sees
only the characters. The two agree on where the content of a literal ends, unless the literal is
not terminated and its last character is nevertheless a quote of its own kind. -/
namespace ImportAtlas.Unquoting
open Lexeme Locality Relexing Text Token

/-- Where the scan of a literal stands: what is open, and the text that is still to come. -/
abbrev Progress : Type :=
  List Enclosure × List Char

/-- The scan takes one turn, and with it at least one character. -/
inductive Steps : Progress → Progress → Prop where
  | turn (taking : turn unclosed c rest.head? = (taken + 1, later)) :
      Steps (unclosed, c :: rest) (later, rest.drop taken)

/-- The scan comes from one place to another, turn by turn. -/
abbrev Goes : Progress → Progress → Prop :=
  Relation.ReflTransGen Steps

/-- What a quote opens. -/
def opened (quote : Char) : Enclosure :=
  if quote = '\x60' then .template else .quoted quote

/-- A substitution is among the open constructs. -/
def Substituting (unclosed : List Enclosure) : Prop :=
  ∃ braces, Enclosure.substitution braces ∈ unclosed

/-- The scan of what stands behind an opening quote ends by taking the quote that closes the
literal: when it comes to this last character, nothing but the literal is open. -/
def Terminated (quote : Char) (body : List Char) : Prop :=
  Goes ([opened quote], body) ([opened quote], [quote])

/-- The scan takes the last character together with a backslash of the literal in front of it. -/
def Escaped (quote : Char) (body : List Char) : Prop :=
  Goes ([opened quote], body) ([opened quote], ['\\', quote])

/-- The scan comes to the end of a template with a substitution still open. -/
def Buried (quote : Char) (body : List Char) : Prop :=
  ∃ unclosed, Goes ([opened quote], body) (unclosed, []) ∧ Substituting unclosed

/-- The last character repeats the opening quote and does not close the literal. -/
def Misread (quote : Char) (body : List Char) : Prop :=
  body.getLast? = some quote ∧ (Escaped quote body ∨ Buried quote body)

/-- The content of a literal: what stands behind the opening quote, and in front of the closing
one if the literal is terminated. -/
def Content (quote : Char) (body content : List Char) : Prop :=
  (Terminated quote body → content = body.dropLast) ∧ (¬Terminated quote body → content = body)

/-- What may be open inside a literal: the literal itself, and in a template the substitutions
with the literals inside them. -/
inductive Nested (quote : Char) : List Enclosure → Prop where
  | outermost : Nested quote [opened quote]
  | substitution (within : Nested quote (.template :: outer)) :
      Nested quote (.substitution braces :: .template :: outer)
  | string (isQuote : c = '\x27' ∨ c = '\x22')
      (within : Nested quote (.substitution braces :: outer)) :
      Nested quote (.quoted c :: .substitution braces :: outer)
  | template (within : Nested quote (.substitution braces :: outer)) :
      Nested quote (.template :: .substitution braces :: outer)

/-- How the scan comes to the quote at the end of a text: with nothing but the literal open, with
a backslash in front of it, or with a substitution open behind it. -/
inductive Reaches (quote : Char) (start : Progress) : Prop where
  | closing (goes : Goes start ([opened quote], [quote]))
  | escaped (goes : Goes start ([opened quote], ['\\', quote]))
  | buried (goes : Goes start (later, [])) (substituting : Substituting later)

section Progress
variable {p q r : Progress} {quote : Char} {body : List Char}

theorem suffix_of_goes (goes : Goes p q) : q.2 <:+ p.2 := by
  induction goes with
  | refl => exact List.suffix_rfl
  | tail _ step ih =>
    cases step with
    | turn taking => exact ((List.drop_suffix _ _).trans (List.suffix_cons _ _)).trans ih

theorem steps_unique : Relator.RightUnique Steps := by
  rintro _ _ _ ⟨taking⟩ ⟨taking'⟩
  obtain ⟨same, rfl⟩ := Prod.mk.inj (taking.symm.trans taking')
  obtain rfl := Nat.succ.inj same
  rfl

/-- The scan goes no further than the end of a text. -/
theorem eq_of_goes_end (goes : Goes (unclosed, []) p) : p = (unclosed, []) := by
  rcases goes.cases_head with rfl | ⟨next, step, -⟩
  · rfl
  · cases step

/-- The quotes are the two of strings and that of templates. -/
theorem opened_cases (isQuote : quote ∈ quotes) :
    (quote = '\x60' ∧ opened quote = .template) ∨
      ((quote = '\x27' ∨ quote = '\x22') ∧ opened quote = .quoted quote) := by
  have listed : quote = '\x27' ∨ quote = '\x22' ∨ quote = '\x60' := by simpa [quotes] using isQuote
  obtain rfl | rfl | rfl := listed
  · exact .inr ⟨.inl rfl, rfl⟩
  · exact .inr ⟨.inr rfl, rfl⟩
  · exact .inl ⟨rfl, rfl⟩

theorem turn_closing (isQuote : quote ∈ quotes) (next : Option Char) :
    turn [opened quote] quote next = (1, []) := by
  obtain ⟨rfl, same⟩ | ⟨rfl | rfl, same⟩ := opened_cases isQuote
  · rfl
  · rfl
  · rfl

theorem turn_escape (isQuote : quote ∈ quotes) :
    turn [opened quote] '\\' (some quote) = (2, [opened quote]) := by
  obtain ⟨rfl, same⟩ | ⟨rfl | rfl, same⟩ := opened_cases isQuote
  · rfl
  · rfl
  · rfl

/-- The closing quote is the last thing that the scan of a literal takes. -/
theorem eq_of_goes_closing (isQuote : quote ∈ quotes) (goes : Goes ([opened quote], [quote]) p) :
    p = ([opened quote], [quote]) ∨ p = ([], []) := by
  rcases goes.cases_head with rfl | ⟨_, ⟨taking⟩, more⟩
  · exact .inl rfl
  · rw [turn_closing isQuote] at taking
    cases taking
    exact .inr (eq_of_goes_end more)

/-- So is a quote behind a backslash, and the literal stays open there. -/
theorem eq_of_goes_escape (isQuote : quote ∈ quotes)
    (goes : Goes ([opened quote], ['\\', quote]) p) :
    p = ([opened quote], ['\\', quote]) ∨ p = ([opened quote], []) := by
  rcases goes.cases_head with rfl | ⟨_, ⟨taking⟩, more⟩
  · exact .inl rfl
  · rw [List.head?_cons, turn_escape isQuote] at taking
    cases taking
    exact .inr (eq_of_goes_end more)

theorem not_terminated_of_escaped (isQuote : quote ∈ quotes) (escaped : Escaped quote body) :
    ¬Terminated quote body := by
  intro terminated
  rcases terminated.total_of_right_unique steps_unique escaped with further | further
  · have short := (suffix_of_goes further).length_le
    simp at short
  · rcases eq_of_goes_escape isQuote further with same | same
    · simp at same
    · simp at same

theorem not_terminated_of_buried (isQuote : quote ∈ quotes) (buried : Buried quote body) :
    ¬Terminated quote body := by
  intro terminated
  obtain ⟨unclosed, goes, braces, substituting⟩ := buried
  rcases terminated.total_of_right_unique steps_unique goes with further | further
  · rcases eq_of_goes_closing isQuote further with same | same
    · simp at same
    · obtain rfl : unclosed = [] := congrArg Prod.fst same
      cases substituting
  · have same := eq_of_goes_end further
    simp at same

theorem getLast?_of_terminated (terminated : Terminated quote body) :
    body.getLast? = some quote := by
  obtain ⟨front, rfl⟩ := suffix_of_goes terminated
  exact List.getLast?_concat

end Progress

section Last
variable {unclosed later : List Enclosure} {quote c : Char} {rest body : List Char}

theorem nested_turn (isQuote : quote ∈ quotes) (nested : Nested quote unclosed) (c : Char)
    (next : Option Char) :
    (turn unclosed c next).2 = [] ∨ Nested quote (turn unclosed c next).2 := by
  cases nested with
  | outermost =>
    obtain ⟨rfl, same⟩ | ⟨-, same⟩ := opened_cases isQuote
    · have base : Nested '\x60' [.template] := .outermost
      rw [same]
      cases next with
      | _ => grind [turn, Nested]
    · have base : Nested quote [.quoted quote] := same ▸ .outermost
      rw [same]
      cases next with
      | _ => grind [turn]
  | @substitution outer braces within =>
    have whole (braces : Nat) : Nested quote (.substitution braces :: .template :: outer) :=
      .substitution within
    cases braces with
    | _ => grind [turn, Nested]
  | string isQuote within =>
    cases next with
    | _ => grind [turn, Nested]
  | template within =>
    cases next with
    | _ => grind [turn, Nested]

/-- Inside a substitution only a brace ends the substitution. A backslash or a dollar at the very
end of a text ends the scan. -/
theorem substituting_turn (nested : Nested quote unclosed) (inner : unclosed ≠ [opened quote])
    (stays : c ≠ '}') (seen : next = none → c ≠ '\\' ∧ c ≠ '$') :
    Substituting (turn unclosed c next).2 := by
  unfold Substituting
  cases nested with
  | outermost => exact absurd rfl inner
  | substitution within =>
    rw [turn.eq_def]
    grind
  | string isQuote within =>
    cases next with
    | _ => grind [turn]
  | template within =>
    cases next with
    | _ => grind [turn]

/-- A turn takes more than one character only at a backslash or where a substitution starts, and
then it takes two. -/
theorem turn_two (taking : turn unclosed c next = (taken + 2, later)) :
    taken = 0 ∧ (c = '\\' ∨ next = some '{') := by
  cases unclosed with
  | nil => simp [turn] at taking
  | cons top outer =>
    cases top with
    | quoted quote =>
      cases next with
      | _ => grind [turn]
    | template =>
      cases next with
      | _ => grind [turn]
    | substitution braces =>
      cases braces with
      | _ => grind [turn]

theorem Reaches.head (step : Steps p q) (reaches : Reaches quote q) : Reaches quote p := by
  cases reaches with
  | closing goes => exact .closing (goes.head step)
  | escaped goes => exact .escaped (goes.head step)
  | buried goes substituting => exact .buried (goes.head step) substituting

/-- The turn that takes the quote at the end of a text. -/
private theorem reaches_of_last (isQuote : quote ∈ quotes) (nested : Nested quote unclosed)
    (taking : turn unclosed c rest.head? = (rest.length + 1, later))
    (ends : (c :: rest).getLast? = some quote) : Reaches quote (unclosed, c :: rest) := by
  have plain : quote ≠ '}' ∧ quote ≠ '{' ∧ quote ≠ '\\' ∧ quote ≠ '$' := by
    obtain ⟨rfl, -⟩ | ⟨rfl | rfl, -⟩ := opened_cases isQuote
    all_goals decide
  have buried (inner : unclosed ≠ [opened quote]) (stays : c ≠ '}')
      (seen : rest.head? = none → c ≠ '\\' ∧ c ≠ '$') : Reaches quote (unclosed, c :: rest) := by
    have substituting := substituting_turn nested inner stays seen
    have step := Steps.turn taking
    rw [taking] at substituting
    rw [List.drop_length] at step
    exact .buried (.single step) substituting
  obtain _ | ⟨d, rest⟩ := rest
  · obtain rfl : c = quote := Option.some.inj ends
    by_cases outermost : unclosed = [opened c]
    · subst outermost
      exact .closing .refl
    · exact buried outermost plain.1 fun _ => plain.2.2
  · obtain ⟨one, backslash | brace⟩ := turn_two taking
    · obtain rfl := List.eq_nil_of_length_eq_zero one
      obtain rfl : d = quote := Option.some.inj ends
      subst backslash
      by_cases outermost : unclosed = [opened d]
      · subst outermost
        exact .escaped .refl
      · exact buried outermost (by decide) (by simp)
    · obtain rfl := List.eq_nil_of_length_eq_zero one
      obtain rfl : d = quote := Option.some.inj ends
      exact absurd (Option.some.inj brace) plain.2.1

/-- A quote at the end of a text that the scan takes whole is reached in one of the three ways. -/
theorem reaches_of_whole (isQuote : quote ∈ quotes) (nested : Nested quote unclosed)
    (whole : enclosed unclosed body = body.length) (ends : body.getLast? = some quote) :
    Reaches quote (unclosed, body) := by
  induction unclosed, body using turn_induction with
  | closed text => cases nested
  | done unclosed => cases ends
  | turn unclosed c rest ih =>
    rcases taking : turn unclosed c rest.head? with ⟨n, later⟩
    have kept := nested_turn isQuote nested c rest.head?
    have short := turn_le unclosed c rest
    rw [enclosed_turn, taking, List.length_cons] at whole
    rw [taking] at ih kept short
    dsimp only at ih whole kept short
    obtain _ | n := n
    · have ended := turn_of_none (congrArg Prod.fst taking) rest.head?
      rw [taking] at ended
      cases ended
      simp [enclosed] at whole
    rw [List.drop_succ_cons] at ih whole
    obtain rfl | further := Nat.eq_or_lt_of_le (Nat.le_of_succ_le_succ short)
    · exact reaches_of_last isQuote nested taking ends
    · have goesOn : later ≠ [] := by
        rintro rfl
        rw [enclosed] at whole
        omega
      have rests : enclosed later (rest.drop n) = (rest.drop n).length := by
        rw [List.length_drop]
        omega
      have last := List.getLast?_drop (l := c :: rest) (i := n + 1)
      rw [List.length_cons, if_neg (by omega), List.drop_succ_cons] at last
      exact (ih (kept.resolve_left goesOn) rests (last.trans ends)).head (.turn taking)

end Last

section Tokens
variable {before : List Token} {c quote : Char} {rest body : List Char}

/-- A lexeme that is a string is a quote and what the scan behind the quote takes. -/
theorem lexeme_string (string : (lexeme before c rest).1 = .string) :
    c ∈ quotes ∧ (lexeme before c rest).2 = enclosed [opened c] rest + 1 := by
  unfold lexeme at string ⊢
  cases single : single? c with
  | some kind =>
    rw [single] at string
    subst string
    unfold single? at single
    split_ifs at single
    all_goals cases single
  | none =>
    simp only [single] at string ⊢
    split_ifs at string ⊢ with quote template slash
    · rcases quote with rfl | rfl
      · exact ⟨by decide, rfl⟩
      · exact ⟨by decide, rfl⟩
    · subst template
      exact ⟨by decide, rfl⟩
    · subst slash
      unfold Token.slash at string
      split_ifs at string
      split at string
      · cases string
      · cases string

/-- A string of a source is a quote with a body that the scan behind the quote takes whole. -/
theorem literal_of_token {source : String} (member : t ∈ ofSource source)
    (string : t.kind = .string) :
    ∃ quote body, quote ∈ quotes ∧ t.value.toList = quote :: body ∧
      enclosed [opened quote] body = body.length := by
  have inside : t.isEof = false := by
    rw [isEof, string]
    rfl
  obtain ⟨before, place, c, rest, -, rfl⟩ := cut_ofSource member inside
  have found : (lexeme before c rest).1 = .string := by
    rw [ofLexeme] at string
    dsimp only at string
    unfold reserve at string
    split at string
    · cases string
    · exact string
  obtain ⟨isQuote, width⟩ := lexeme_string found
  refine ⟨c, rest.take (enclosed [opened c] rest), isQuote, ?_, ?_⟩
  · rw [ofLexeme, String.toList_ofList, width, List.take_succ_cons]
  · rw [enclosed_take, List.length_take_of_le (enclosed_le _ rest)]

theorem inner_quote (isQuote : quote ∈ quotes) (body : List Char) :
    Text.inner (quote :: body) = if body.getLast? = some quote then body.dropLast else body := by
  rw [Text.inner, if_pos (List.contains_iff_mem.mpr isQuote)]

/-- A body that ends with the opening quote is terminated, or it is misread. -/
theorem terminated_or_misread (isQuote : quote ∈ quotes)
    (whole : enclosed [opened quote] body = body.length) (ends : body.getLast? = some quote) :
    Terminated quote body ∨ Misread quote body := by
  cases reaches_of_whole isQuote .outermost whole ends with
  | closing goes => exact .inl goes
  | escaped goes => exact .inr ⟨ends, .inl goes⟩
  | buried goes substituting => exact .inr ⟨ends, .inr ⟨_, goes, substituting⟩⟩

theorem not_terminated_of_misread (isQuote : quote ∈ quotes) (misread : Misread quote body) :
    ¬Terminated quote body :=
  misread.2.elim (not_terminated_of_escaped isQuote) (not_terminated_of_buried isQuote)

theorem dropLast_ne (ends : body.getLast? = some quote) : body.dropLast ≠ body := by
  intro same
  obtain ⟨front, rfl⟩ := List.getLast?_eq_some_iff.mp ends
  have width := congrArg List.length same
  simp at width

/-- Every string of a source starts with a quote, and unquoting it gives its content if and only
if it is not misread. An unterminated literal is misread when its last character is its own quote
behind a backslash, or a backtick inside an open substitution; it then loses this character with
its opening quote. -/
theorem unquoted_content {source : String} (member : t ∈ ofSource source)
    (string : t.kind = .string) :
    ∃ quote body, quote ∈ quotes ∧ t.value.toList = quote :: body ∧
      (Content quote body (unquoted t.value).toList ↔ ¬Misread quote body) ∧
      (Misread quote body →
        ¬Terminated quote body ∧ (unquoted t.value).toList = body.dropLast) := by
  obtain ⟨quote, body, isQuote, spelled, whole⟩ := literal_of_token member string
  refine ⟨quote, body, isQuote, spelled, ?_⟩
  have content : (unquoted t.value).toList =
      if body.getLast? = some quote then body.dropLast else body := by
    rw [unquoted, String.toList_ofList, spelled, inner_quote isQuote]
  rw [content]
  by_cases ends : body.getLast? = some quote
  · rw [if_pos ends]
    have open' : Misread quote body → ¬Terminated quote body := not_terminated_of_misread isQuote
    refine ⟨⟨fun said misread => dropLast_ne ends (said.2 (open' misread)), fun read => ?_⟩,
      fun misread => ⟨open' misread, rfl⟩⟩
    have terminated := (terminated_or_misread isQuote whole ends).resolve_right read
    exact ⟨fun _ => rfl, fun never => absurd terminated never⟩
  · rw [if_neg ends]
    have read : ¬Misread quote body := fun misread => ends misread.1
    have never : ¬Terminated quote body := fun terminated => ends (getLast?_of_terminated terminated)
    exact ⟨⟨fun _ => read, fun _ => ⟨fun terminated => absurd terminated never, fun _ => rfl⟩⟩,
      fun misread => absurd misread read⟩

/-- A string that ends with the source behind an escaped quote loses this quote. -/
theorem unquoted_content_escaped :
    let t : Token := ⟨.string, "'b\\'", ⟨⟨1, 4, 4⟩, ⟨1, 8, 8⟩⟩⟩
    (t ∈ ofSource "a = 'b\\'" ∧ t.kind = .string) ∧
      Misread '\x27' ['b', '\\', '\x27'] ∧ ¬Terminated '\x27' ['b', '\\', '\x27'] ∧
      (unquoted t.value).toList = ['b', '\\'] := by
  intro t
  have member : t ∈ ofSource "a = 'b\\'" := by decide +kernel
  have taking : turn [.quoted '\x27'] 'b' ['\\', '\x27'].head? = (0 + 1, [.quoted '\x27']) := rfl
  have misread : Misread '\x27' ['b', '\\', '\x27'] := ⟨rfl, .inl (.single (.turn taking))⟩
  have characters : t.value.toList = '\x27' :: ['b', '\\', '\x27'] := by decide
  obtain ⟨quote, body, -, spelled, -, lost⟩ := unquoted_content member rfl
  obtain ⟨rfl, rfl⟩ := List.cons.inj (characters.symm.trans spelled)
  exact ⟨⟨member, rfl⟩, misread, lost misread⟩

end Tokens
end ImportAtlas.Unquoting
