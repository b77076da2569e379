import Mathlib.Data.List.NodupEquivFin
import ImportAtlas.Proofs.Lossless
import ImportAtlas.Proofs.ModuleSpelling
import ImportAtlas.Tree.Walk

/-! The names and literals of a module are tokens of its source. A walk meets them in
the order of the tokens and no token twice, so that nothing is invented, altered or
repeated, however malformed the source is. The only text that differs from its token is
a quoted name that an import specifier imports. -/
namespace ImportAtlas

/-- A name or a literal that a walk meets. -/
inductive Leaf where
  | identifier (name : Identifier)
  | string (literal : StringLiteral)
  | number (literal : NumberLiteral)
  deriving DecidableEq

/-- The place of a leaf. -/
def Leaf.span : Leaf → Span
  | identifier name => name.span
  | string literal => literal.span
  | number literal => literal.span

/-- The text of a leaf: a name, a literal with its quotes, or the spelling of a number. -/
def Leaf.text : Leaf → String
  | identifier name => name.name
  | string literal => literal.value
  | number literal => literal.raw

/-- The leaf that a node is, if it is one. -/
def Node.leaf? : Node → Option Leaf
  | identifier name => some (.identifier name)
  | string literal => some (.string literal)
  | number literal => some (.number literal)
  | _ => none

/-- The leaves among some nodes. -/
def Node.leaves (nodes : List Node) : List Leaf :=
  nodes.filterMap Node.leaf?

/-- What a named specifier imports. -/
def ImportSpecifier.namedImport? (specifier : ImportSpecifier) : Option Identifier :=
  if specifier.kind = .named then some specifier.imported else none

def Statement.namedImports : Statement → List Identifier
  | importDeclaration declaration => declaration.specifiers.filterMap ImportSpecifier.namedImport?
  | _ => []

/-- What the named specifiers of a module import. -/
def Module.namedImports (module : Module) : List Identifier :=
  module.body.flatMap Statement.namedImports

namespace Leaves
open Spelling Tiling

section Walks

theorem leaves_append (before after : List Node) :
    Node.leaves (before ++ after) = Node.leaves before ++ Node.leaves after :=
  List.filterMap_append ..

private theorem leaves_identifiers (names : List Identifier) :
    Node.leaves (names.map .identifier) = names.map .identifier := by
  induction names with
  | nil => rfl
  | cons name names ih => exact congrArg (.identifier name :: ·) ih

@[simp] theorem leaves_call (span : Span) (callee : Expr) (arguments : List Expr) :
    Node.leaves (Expr.call span callee arguments).walk =
      Node.leaves callee.walk ++ Node.leaves (Expr.walkAll arguments) :=
  leaves_append ..

@[simp] theorem leaves_arrow (span : Span) (params : List Identifier) (body : Option Expr)
    (isAsync : Bool) :
    Node.leaves (Expr.arrow span params body isAsync).walk =
      params.map .identifier ++ Node.leaves (Expr.walkOption body) := by
  rw [← leaves_identifiers]
  exact leaves_append ..

@[simp] theorem leaves_member (span : Span) (object : Expr) (property : Identifier)
    (computed : Bool) :
    Node.leaves (Expr.member span object property computed).walk =
      Node.leaves object.walk ++ [.identifier property] :=
  leaves_append ..

@[simp] theorem leaves_property (span : Span) (key : PropertyKey) (value : Option Expr)
    (shorthand computed method : Bool) :
    Node.leaves (Property.walk ⟨span, key, value, shorthand, computed, method⟩) =
      Node.leaves key.walk ++ if shorthand then [] else Node.leaves (Expr.walkOption value) := by
  have split := leaves_append key.walk (if shorthand then [] else Expr.walkOption value)
  cases shorthand with
  | _ => exact split

end Walks

/-- A leaf repeats a token: its place, and its text unless it is one of some names that
lose their quotes. -/
structure Copies (names : List Identifier) (leaf : Leaf) (t : Token) : Prop where
  place : leaf.span = t.span
  text : leaf.text = t.value ∨ ∃ name ∈ names, leaf = .identifier name ∧
    name.name = Text.unquoted t.value

/-- The leaves repeat tokens of a run, in the order of the run. -/
def CopiedFrom (names : List Identifier) (run : List Token) (leaves : List Leaf) : Prop :=
  ∃ tokens : List Token, tokens.Sublist run ∧ List.Forall₂ (Copies names) leaves tokens

variable {names : List Identifier}

private theorem copied_nil (run : List Token) : CopiedFrom names run [] :=
  ⟨[], List.nil_sublist run, .nil⟩

theorem CopiedFrom.mono (copied : CopiedFrom names few leaves) (fewer : few.Sublist run) :
    CopiedFrom names run leaves := by
  obtain ⟨tokens, sublist, each⟩ := copied
  exact ⟨tokens, sublist.trans fewer, each⟩

theorem CopiedFrom.cons (t : Token) (copied : CopiedFrom names run leaves) :
    CopiedFrom names (t :: run) leaves :=
  copied.mono (List.sublist_cons_self ..)

theorem CopiedFrom.append (first : CopiedFrom names before xs)
    (second : CopiedFrom names after ys) : CopiedFrom names (before ++ after) (xs ++ ys) := by
  obtain ⟨tokens, sublist, each⟩ := first
  obtain ⟨more, sublistMore, eachMore⟩ := second
  exact ⟨tokens ++ more, sublist.append sublistMore, List.rel_append each eachMore⟩

/-- One leaf and the token it repeats. -/
private theorem copied_one {t : Token} (copies : Copies names leaf t) :
    CopiedFrom names [t] [leaf] :=
  ⟨[t], List.Sublist.refl _, .cons copies .nil⟩

private theorem copied_identifier (t : Token) :
    CopiedFrom names [t] [.identifier t.identifier] :=
  copied_one ⟨rfl, .inl rfl⟩

private theorem copied_string (t : Token) : CopiedFrom names [t] [.string t.stringLiteral] :=
  copied_one ⟨rfl, .inl rfl⟩

/-- The parameters of an arrow function repeat their tokens. -/
private theorem copied_params {params run : List Token} (among : params.Sublist run) :
    CopiedFrom names run ((params.map Token.identifier).map .identifier) := by
  refine CopiedFrom.mono ?_ among
  clear among
  induction params with
  | nil => exact copied_nil _
  | cons t params ih => exact (copied_identifier t).append ih

private theorem copied_key (key : Token) :
    CopiedFrom names [key] (Node.leaves key.propertyKey.walk) := by
  unfold Token.propertyKey
  split
  · exact copied_string key
  · exact copied_identifier key

mutual

/-- The leaves of an expression are tokens of the run that spells it. -/
theorem copied_of_spells : Spells t used n e m → CopiedFrom names (t :: used) (Node.leaves e.walk)
  | .identifier => copied_identifier t
  | .string => copied_string t
  | .number => copied_one ⟨rfl, .inl rfl⟩
  | .dynamicImport => copied_nil _
  | .object _ _ members => (copied_of_members members).cons t
  | .array _ items => (copied_of_items items).cons t
  | .member target => by
    rw [leaves_member]
    exact (copied_of_spells target).append ((copied_identifier _).cons _)
  | .call callee _ items => by
    rw [leaves_call]
    exact (copied_of_spells callee).append ((copied_of_items items).cons _)
  | .arrow params _ _ => by
    rw [leaves_arrow, Expr.walkOption]
    exact (List.append_nil _).symm ▸ copied_params params
  | .arrowBody params _ body => by
    rw [leaves_arrow]
    exact (copied_params params).append (copied_of_spells body)

theorem copied_of_items :
    SpellsItems run n es m → CopiedFrom names run (Node.leaves (Expr.walkAll es))
  | .nil => copied_nil _
  | .skip _ more => (copied_of_items more).cons _
  | .item item more => by
    rw [Expr.walkAll, leaves_append]
    exact (copied_of_spells item).append (copied_of_items more)

theorem copied_of_members :
    SpellsMembers run n ps m → CopiedFrom names run (Node.leaves (Property.walkAll ps))
  | .nil => copied_nil _
  | .skip _ more => (copied_of_members more).cons _
  | .property property more => by
    rw [Property.walkAll, leaves_append]
    exact (copied_of_property property).append (copied_of_members more)

theorem copied_of_property :
    SpellsProperty key used n p m → CopiedFrom names (key :: used) (Node.leaves p.walk)
  | .shorthand | .method _ | .valueless _ _ => by
    rw [leaves_property]
    exact (copied_key key).append (copied_nil _)
  | .value _ value => by
    rw [leaves_property]
    exact (copied_key key).append ((copied_of_spells value).cons _)

end

/-- What repeats tokens one by one does so in a list, if the names of all its members
are known. -/
theorem copied_of_all {spells : Token → List Token → Nat → α → Nat → Prop} {walk : α → List Node}
    (own : α → List Identifier) (spelled : SpellsAll spells run n xs m)
    (each : ∀ {t used n x m}, spells t used n x m → own x ⊆ names →
      CopiedFrom names (t :: used) (Node.leaves (walk x)))
    (known : xs.flatMap own ⊆ names) :
    CopiedFrom names run (Node.leaves (xs.flatMap walk)) := by
  induction spelled with
  | nil => exact copied_nil _
  | skip _ _ ih => exact (ih known).cons _
  | cons first _ ih =>
    rw [List.flatMap_cons] at known ⊢
    obtain ⟨knownFirst, knownRest⟩ := List.append_subset.mp known
    rw [leaves_append]
    exact (each first knownFirst).append (ih knownRest)

theorem copied_of_declarator :
    SpellsDeclarator t used n d m → CopiedFrom names (t :: used) (Node.leaves d.walk)
  | .valueless _ _ => (copied_identifier t).append (copied_nil _)
  | .valued value _ => (copied_identifier t).append ((copied_of_spells value).cons _)

/-- The imported name of a specifier loses its quotes. -/
private theorem copies_importedName {t : Token} (known : [t.importedName] ⊆ names) :
    Copies names (.identifier t.importedName) t :=
  ⟨rfl, .inr ⟨_, known (List.mem_singleton_self _), rfl, rfl⟩⟩

/-- A specifier that renames nothing has one leaf, and any other one has two. -/
theorem copied_of_specifier (spelled : SpellsSpecifier t used n specifier m)
    (known : specifier.namedImport?.toList ⊆ names) :
    CopiedFrom names (t :: used) (Node.leaves specifier.walk) := by
  cases spelled with
  | default =>
    rw [ImportSpecifier.walk, if_pos rfl]
    exact copied_identifier t
  | star =>
    rw [ImportSpecifier.walk, if_pos rfl]
    exact (copied_identifier _).mono (List.sublist_append_right (t :: _) _)
  | named =>
    rw [ImportSpecifier.walk, if_pos rfl]
    exact copied_one (copies_importedName known)
  | renamed =>
    have imported := copied_one (copies_importedName known)
    unfold ImportSpecifier.walk
    split
    · exact imported.mono (List.singleton_sublist.mpr (List.mem_cons_self ..))
    · exact imported.append ((copied_identifier _).mono (List.sublist_append_right ..))

theorem copied_of_import (spelled : SpellsImport t used n d m)
    (known : (Statement.importDeclaration d).namedImports ⊆ names) :
    CopiedFrom names (t :: used) (Node.leaves (Statement.importDeclaration d).walk) := by
  rw [Statement.namedImports, List.filterMap_eq_flatMap_toList] at known
  change CopiedFrom names (t :: used) (Node.leaves (_ ++ _))
  rw [leaves_append]
  cases spelled with
  | sourceless specifiers _ =>
    have inner := copied_of_all _ specifiers copied_of_specifier known
    have whole := (inner.cons t).append (copied_nil [])
    rwa [List.append_nil] at whole
  | sourced specifiers _ =>
    have inner := copied_of_all _ specifiers copied_of_specifier known
    refine (inner.cons t).append (CopiedFrom.mono (copied_string _) ?_)
    exact List.singleton_sublist.mpr (List.mem_cons_self ..)

theorem copied_of_statement (spelled : SpellsStatement t used n s m)
    (known : s.namedImports ⊆ names) : CopiedFrom names (t :: used) (Node.leaves s.walk) := by
  cases spelled with
  | importDeclaration _ spelled => exact copied_of_import spelled known
  | defaultExport _ spelled =>
    cases spelled with
    | valueless => exact copied_nil _
    | valued value _ =>
      exact (((copied_of_spells value).mono (List.sublist_append_left ..)).cons _).cons t
  | variableDeclaration _ spelled =>
    cases spelled with
    | declarators list _ =>
      refine CopiedFrom.cons t (copied_of_all (fun _ => []) list ?_ ?_)
      · exact fun spelled _ => copied_of_declarator spelled
      · intro name member
        obtain ⟨_, -, impossible⟩ := List.mem_flatMap.mp member
        cases impossible

/-- The leaves of a module repeat tokens that it is read from. -/
theorem copied_module (tokens : List Token) (importsOnly : Bool) :
    let module := Module.ofTokens tokens importsOnly
    CopiedFrom module.namedImports (Module.significant tokens) (Node.leaves module.walk) := by
  obtain ⟨used, m, same, spelled⟩ := readBody_spells importsOnly (Module.significant tokens) 0
  have copied := copied_of_all _ spelled copied_of_statement (List.Subset.refl _)
  have taken := List.sublist_append_left used
    (Module.readBody importsOnly (Module.significant tokens) 0).2
  rw [← same] at taken
  exact copied.mono taken

/-- What a named specifier imports is one of its tokens, without quotes. -/
private theorem importedName_of_specifier (spelled : SpellsSpecifier t used n specifier m)
    (named : specifier.namedImport? = some name) : name = t.importedName := by
  cases spelled with
  | default | star => cases named
  | named | renamed => exact (Option.some.inj named).symm

/-- What the named specifiers of a statement import is among its tokens. -/
private theorem importedName_of_statement (spelled : SpellsStatement t used n s m)
    (member : name ∈ s.namedImports) : ∃ u ∈ used, name = u.importedName := by
  have of_list {few list} (specifiers : SpellsAll SpellsSpecifier few n list n)
      (member : name ∈ list.filterMap ImportSpecifier.namedImport?) :
      ∃ u ∈ few, name = u.importedName := by
    obtain ⟨specifier, listed, named⟩ := List.mem_filterMap.mp member
    obtain ⟨u, _, _, _, spelled, within⟩ := specifiers.of_mem listed
    exact ⟨u, within.mem (List.mem_cons_self ..), importedName_of_specifier spelled named⟩
  cases spelled with
  | importDeclaration _ spelled =>
    cases spelled with
    | sourceless specifiers _ => exact of_list specifiers member
    | sourced specifiers _ =>
      obtain ⟨u, among, same⟩ := of_list specifiers member
      exact ⟨u, List.mem_append_left _ among, same⟩
  | defaultExport | variableDeclaration => cases member

theorem importedName_module (tokens : List Token) (importsOnly : Bool)
    (member : name ∈ (Module.ofTokens tokens importsOnly).namedImports) :
    ∃ u ∈ Module.significant tokens, name = u.importedName := by
  obtain ⟨used, m, same, spelled⟩ := readBody_spells importsOnly (Module.significant tokens) 0
  obtain ⟨statement, listed, member⟩ := List.mem_flatMap.mp member
  obtain ⟨t, run, _, _, spelledOne, within⟩ := spelled.of_mem listed
  obtain ⟨u, among, imported⟩ := importedName_of_statement spelledOne member
  refine ⟨u, ?_, imported⟩
  rw [same]
  exact List.mem_append_left _ (within.mem (List.mem_cons_of_mem t among))

/-- A leaf is a token of a source: it has the place and the text of the token, which is
what the source has in that place. One of some names has the text without quotes. -/
structure Repeats (source : String) (names : List Identifier) (leaf : Leaf) (t : Token) : Prop where
  place : leaf.span = t.span
  text : leaf.text = if leaf ∈ names.map .identifier then Text.unquoted t.value else t.value
  covered : t.span.slice? source = some t.value

/-- No two tokens of a source are in the same place. -/
private theorem nodup_span (source : String) :
    ((Module.significant (Token.ofSource source)).map Token.span).Nodup := by
  refine List.pairwise_map.mpr ((starts_significant source).imp ?_)
  intro a b before same
  rw [same] at before
  exact Nat.lt_irrefl _ before

/-- A leaf in the place of a token repeats it, also if another leaf made it one of the
names that lose their quotes. -/
private theorem repeats_of_copies (source : String) (importsOnly : Bool)
    (member : t ∈ Module.significant (Token.ofSource source))
    (copies : Copies (Module.ofSource source importsOnly).namedImports leaf t) :
    Repeats source (Module.ofSource source importsOnly).namedImports leaf t := by
  refine ⟨copies.place, ?_, ?_⟩
  · split
    · rename_i named
      obtain ⟨name, listed, rfl⟩ := List.mem_map.mp named
      obtain ⟨u, among, rfl⟩ := importedName_module (Token.ofSource source) importsOnly listed
      obtain rfl : u = t := List.inj_on_of_nodup_map (nodup_span source) among member copies.place
      rfl
    · rename_i unnamed
      rcases copies.text with same | ⟨name, listed, rfl, -⟩
      · exact same
      · exact absurd (List.mem_map_of_mem listed) unnamed
  · rw [significant_eq_filter] at member
    exact Lossless.slice?_of_mem source (List.mem_filter.mp member).1

/-- The leaves of every module are tokens of its source. The indices of the tokens
increase from leaf to leaf, and no place is met twice. -/
theorem leaves_are_tokens (source : String) (importsOnly : Bool) :
    let module := Module.ofSource source importsOnly
    let stream := Module.significant (Token.ofSource source)
    let leaves := Node.leaves module.walk
    (∃ index : Nat → Nat, StrictMono index ∧ ∀ i leaf, leaves[i]? = some leaf →
      ∃ t, stream[index i]? = some t ∧ Repeats source module.namedImports leaf t) ∧
    (leaves.map Leaf.span).Nodup := by
  intro module stream leaves
  obtain ⟨tokens, sublist, each⟩ := copied_module (Token.ofSource source) importsOnly
  obtain ⟨index, found⟩ := List.sublist_iff_exists_orderEmbedding_getElem?_eq.mp sublist
  refine ⟨⟨index, index.strictMono, ?_⟩, ?_⟩
  · intro i leaf atLeaf
    obtain ⟨within, rfl⟩ := List.getElem?_eq_some_iff.mp atLeaf
    have withinTokens : i < tokens.length := each.length_eq ▸ within
    have atToken := found i
    rw [List.getElem?_eq_getElem withinTokens] at atToken
    exact ⟨tokens[i], atToken.symm, repeats_of_copies source importsOnly
      (List.mem_of_getElem? atToken.symm) (each.get within withinTokens)⟩
  · have places : leaves.map Leaf.span = tokens.map Token.span := by
      rw [← List.forall₂_eq_eq_eq, List.forall₂_map_left_iff, List.forall₂_map_right_iff]
      exact each.imp fun _ _ copies => copies.place
    rw [places]
    exact (nodup_span source).sublist (sublist.map Token.span)

end Leaves
end ImportAtlas
