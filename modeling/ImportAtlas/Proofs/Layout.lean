import ImportAtlas.Proofs.ModuleSpelling
import ImportAtlas.Proofs.Tiling

/-! Where the nodes of a module lie. The layout of a module keeps of every node
only the part of the source it covers and the nodes inside it. A node that merely
repeats a sibling, as the value of a shorthand property and the binding of a
specifier that renames nothing do, is set apart from the children in their order. -/
namespace ImportAtlas

/-- The place of a node, its children in source order, and the children that
repeat one of these. -/
inductive Layout where
  | node (span : Span) (children repeats : List Layout)

namespace Layout

/-- The place of a node. -/
def span : Layout → Span
  | node span _ _ => span

/-- A node without children. -/
def leaf (span : Span) : Layout :=
  node span [] []

/-- The first node is over where the second one starts. -/
def Before (a b : Layout) : Prop :=
  a.span.stop.offset ≤ b.span.start.offset

/-- A node and all nodes inside it lie well on a source: they cover a part of it
without running backwards, children lie inside their parents and follow each other
without overlap. -/
inductive WellPlaced (source : String) : Layout → Prop where
  | node {place : Span} (forward : place.start.offset ≤ place.stop.offset)
      (covers : (place.slice? source).isSome = true)
      (within : ∀ child ∈ children, place.contains child.span = true)
      (ordered : children.Pairwise Before)
      (repeated : ∀ child ∈ repeats, child ∈ children)
      (inner : ∀ child ∈ children, WellPlaced source child) :
      WellPlaced source (node place children repeats)

end Layout

def Identifier.layout (name : Identifier) : Layout :=
  .leaf name.span

def StringLiteral.layout (literal : StringLiteral) : Layout :=
  .leaf literal.span

def PropertyKey.layout (key : PropertyKey) : Layout :=
  .leaf key.span

mutual

/-- The layout of an expression. -/
def Expr.layout : Expr → Layout
  | .identifier name => name.layout
  | .string literal => literal.layout
  | .number literal => .leaf literal.span
  | .object literal => literal.layout
  | .array span elements => .node span (Expr.layouts elements) []
  | .call span callee arguments => .node span (callee.layout :: Expr.layouts arguments) []
  | .arrow span params body _ =>
    .node span (params.map Identifier.layout ++ Expr.layoutOption body) []
  | .dynamicImport span => .leaf span
  | .member span object property _ => .node span [object.layout, property.layout] []

def Expr.layouts : List Expr → List Layout
  | [] => []
  | expr :: rest => expr.layout :: Expr.layouts rest

def Expr.layoutOption : Option Expr → List Layout
  | none => []
  | some expr => [expr.layout]

def ObjectLiteral.layout : ObjectLiteral → Layout
  | ⟨span, _, properties⟩ => .node span (Property.layouts properties) []

/-- The layout of a property. The value of a shorthand property is the key again. -/
def Property.layout : Property → Layout
  | ⟨span, key, value, shorthand, _, _⟩ =>
    if shorthand then .node span [key.layout] (Expr.layoutOption value)
    else .node span (key.layout :: Expr.layoutOption value) []

def Property.layouts : List Property → List Layout
  | [] => []
  | property :: rest => property.layout :: Property.layouts rest

end

/-- The layout of a specifier. Without a new name it binds what it imports. -/
def ImportSpecifier.layout (specifier : ImportSpecifier) : Layout :=
  if specifier.bound = specifier.imported then
    .node specifier.span [specifier.imported.layout] [specifier.bound.layout]
  else .node specifier.span [specifier.imported.layout, specifier.bound.layout] []

def VariableDeclarator.layout (declarator : VariableDeclarator) : Layout :=
  .node declarator.span (declarator.name.layout :: Expr.layoutOption declarator.init) []

/-- The layout of a statement. -/
def Statement.layout : Statement → Layout
  | importDeclaration ⟨span, specifiers, source⟩ =>
    .node span (specifiers.map ImportSpecifier.layout ++ source.toList.map StringLiteral.layout) []
  | defaultExport ⟨span, value⟩ => .node span (Expr.layoutOption value) []
  | variableDeclaration ⟨span, _, declarators⟩ =>
    .node span (declarators.map VariableDeclarator.layout) []

/-- The layout of a module: a file, and in it the program with its statements. -/
def Module.layout (module : Module) : Layout :=
  .node module.span [.node module.span (module.body.map Statement.layout) []] []

namespace Layout
open Spelling Tiling Consumption

/-- Some nodes lie well on a source, one after the other, and each of them from one
token of a run to another. -/
structure Laid (source : String) (run : List Token) (layouts : List Layout) : Prop where
  placed : ∀ layout ∈ layouts, WellPlaced source layout
  spanned : ∀ layout ∈ layouts, ∃ a ∈ run, ∃ b ∈ run, layout.span = a.through b
  ordered : layouts.Pairwise Before

theorem laid_nil (source : String) (run : List Token) : Laid source run [] where
  placed := by simp
  spanned := by simp
  ordered := .nil

theorem Laid.mono (laid : Laid source few layouts) (fewer : few.Sublist run) :
    Laid source run layouts where
  placed := laid.placed
  ordered := laid.ordered
  spanned := by
    intro layout member
    obtain ⟨a, starts, b, stops, same⟩ := laid.spanned layout member
    exact ⟨a, fewer.mem starts, b, fewer.mem stops, same⟩

/-- Nodes of one run lie before the nodes of the run after it. -/
theorem Laid.append (placed : Placed source.toList (before ++ after))
    (first : Laid source before xs) (second : Laid source after ys) :
    Laid source (before ++ after) (xs ++ ys) where
  placed := by
    intro layout member
    rcases List.mem_append.mp member with member | member
    · exact first.placed layout member
    · exact second.placed layout member
  spanned := by
    intro layout member
    rcases List.mem_append.mp member with member | member
    · exact (first.mono (List.sublist_append_left ..)).spanned layout member
    · exact (second.mono (List.sublist_append_right ..)).spanned layout member
  ordered := by
    refine List.pairwise_append.mpr ⟨first.ordered, second.ordered, ?_⟩
    intro x memberX y memberY
    obtain ⟨_, _, b, stops, spanX⟩ := first.spanned x memberX
    obtain ⟨c, starts, _, _, spanY⟩ := second.spanned y memberY
    have apart := (List.pairwise_append.mp placed.apart).2.2 b stops c starts
    rwa [Before, spanX, spanY]

/-- The first token of a run starts it, and the last one stops it. -/
private theorem bounds_of_placed (placed : Placed source (t :: used)) (member : u ∈ t :: used) :
    t.span.start.offset ≤ u.span.start.offset ∧
      u.span.stop.offset ≤ (used.getLastD t).span.stop.offset := by
  induction used generalizing t u with
  | nil =>
    obtain rfl : u = t := by simpa using member
    exact ⟨Nat.le_refl _, Nat.le_refl _⟩
  | cons v used ih =>
    have later := placed.sublist (List.sublist_cons_self t (v :: used))
    have apart := (List.pairwise_cons.mp placed.apart).1
    have forward := placed.forward t (by simp)
    rw [List.getLastD_cons]
    rcases List.mem_cons.mp member with rfl | member
    · have last := (ih later (List.mem_cons_self ..)).2
      have gap := apart v (by simp)
      have forwardNext := placed.forward v (by simp)
      exact ⟨Nat.le_refl _, by omega⟩
    · have gap := apart u member
      exact ⟨by omega, (ih later member).2⟩

/-- A node from the first token of a run to the last one holds what lies between. -/
theorem Laid.node (placed : Placed source.toList (t :: used))
    (laid : Laid source (t :: used) children) (ends : last = used.getLastD t)
    (repeated : ∀ child ∈ repeats, child ∈ children) :
    Laid source (t :: used) [.node (t.through last) children repeats] := by
  have stopping : last ∈ t :: used := ends ▸ List.getLastD_mem_cons ..
  have forward : t.span.start.offset ≤ last.span.stop.offset :=
    Nat.le_trans (placed.forward t (by simp)) (ends ▸ (bounds_of_placed placed (by simp)).2)
  refine ⟨?_, ?_, List.pairwise_singleton ..⟩
  · intro layout member
    obtain rfl := List.mem_singleton.mp member
    refine .node forward ?_ ?_ laid.ordered repeated laid.placed
    · exact slice?_isSome (placed.starts t (by simp)) (placed.stops last stopping) forward
    · intro child member
      obtain ⟨a, starts, b, stops, same⟩ := laid.spanned child member
      have start := (bounds_of_placed placed starts).1
      have stop := (bounds_of_placed placed stops).2
      rw [← ends] at stop
      simp [Span.contains, same, Token.through, Span.between, start, stop]
  · intro layout member
    obtain rfl := List.mem_singleton.mp member
    exact ⟨t, by simp, last, stopping, rfl⟩

/-- A token is a node without children. -/
private theorem laid_leaf (placed : Placed source.toList [t]) : Laid source [t] [.leaf t.span] :=
  .node placed (laid_nil ..) rfl (by simp)

/-- The first token of a run is a node inside it. -/
private theorem laid_first (placed : Placed source.toList (t :: used)) :
    Laid source (t :: used) [.leaf t.span] := by
  have first : [t].Sublist (t :: used) := List.singleton_sublist.mpr (List.mem_cons_self ..)
  exact (laid_leaf (placed.sublist first)).mono first

/-- The last token of a run is a node inside it. -/
private theorem laid_last (placed : Placed source.toList (before ++ [name])) :
    Laid source (before ++ [name]) [.leaf name.span] := by
  have last := List.sublist_append_right before [name]
  exact (laid_leaf (placed.sublist last)).mono last

/-- Some tokens of a run, in their order, are nodes without children. -/
private theorem laid_leaves {names : List Token} (placed : Placed source.toList run)
    (among : names.Sublist run) :
    Laid source run ((names.map Token.identifier).map Identifier.layout) := by
  refine Laid.mono ?_ among
  have placed := placed.sublist among
  clear among
  induction names with
  | nil => exact laid_nil ..
  | cons t names ih =>
    have first := placed.sublist (List.singleton_sublist.mpr (List.mem_cons_self ..))
    exact .append placed (laid_leaf first) (ih (placed.sublist (List.sublist_cons_self ..)))

private theorem laid_append_cons (placed : Placed source.toList (before ++ t :: after))
    (first : Laid source before xs) (second : Laid source after ys) :
    Laid source (before ++ t :: after) (xs ++ ys) :=
  .append placed first (second.mono (List.sublist_cons_self ..))

/-- A key is its token. -/
private theorem laid_key (placed : Placed source.toList (key :: used)) :
    Laid source (key :: used) [key.propertyKey.layout] := by
  have same : key.propertyKey.layout = .leaf key.span := by
    unfold Token.propertyKey
    split
    · rfl
    · rfl
  rw [same]
  exact laid_first placed

/-- The value of a shorthand property lies where its key lies. -/
private theorem shorthandValue_repeats :
    ∀ child ∈ Expr.layoutOption (Expr.shorthandValue key), child ∈ [key.layout] := by
  cases key with
  | identifier name => exact fun child member => member
  | string literal => exact fun child member => absurd member List.not_mem_nil

private theorem laid_value (placed : Placed source.toList (key :: colon :: t :: later))
    (value : Placed source.toList (t :: later) → Laid source (t :: later) [layout])
    (ends : last = later.getLastD t) :
    Laid source (key :: colon :: t :: later)
      [.node (key.through last) [key.propertyKey.layout, layout] []] := by
  have first := laid_key (placed.sublist (List.singleton_sublist.mpr (List.mem_cons_self ..)))
  have second := value (placed.sublist (List.sublist_append_right [key, colon] _))
  refine .node placed (laid_append_cons placed first second) ?_ (by simp)
  rw [List.getLastD_cons, List.getLastD_cons]
  exact ends

private theorem laid_member (placed : Placed source.toList (t :: (before ++ [dot, name])))
    (object : Placed source.toList (t :: before) → Laid source (t :: before) [layout]) :
    Laid source (t :: (before ++ [dot, name]))
      [.node (t.through name) [layout, name.identifier.layout] []] := by
  have first := object (placed.sublist (List.sublist_append_left (t :: before) _))
  have behind := placed.sublist (List.sublist_append_right (t :: before) _)
  have second := laid_leaf (behind.sublist (List.sublist_cons_self ..))
  exact .node placed (laid_append_cons placed first second)
    (getLastD_append_cons before dot [name] t).symm (by simp)

private theorem laid_call (placed : Placed source.toList (t :: (before ++ paren :: later)))
    (callee : Placed source.toList (t :: before) → Laid source (t :: before) [layout])
    (arguments : Placed source.toList later → Laid source later layouts)
    (ends : last = later.getLastD paren) :
    Laid source (t :: (before ++ paren :: later))
      [.node (t.through last) (layout :: layouts) []] := by
  have first := callee (placed.sublist (List.sublist_append_left (t :: before) _))
  have behind := placed.sublist (List.sublist_append_right (t :: before) _)
  have second := arguments (behind.sublist (List.sublist_cons_self ..))
  refine .node placed (laid_append_cons placed first second) ?_ (by simp)
  rw [getLastD_append_cons]
  exact ends

private theorem laid_arrowBody {names : List Token}
    (placed : Placed source.toList (t :: (head ++ b :: later)))
    (params : names.Sublist (t :: head))
    (body : Placed source.toList (b :: later) → Laid source (b :: later) [layout])
    (ends : last = later.getLastD b) :
    Laid source (t :: (head ++ b :: later)) [.node (t.through last)
      ((names.map Token.identifier).map Identifier.layout ++ [layout]) []] := by
  have first := laid_leaves (placed.sublist (List.sublist_append_left (t :: head) _)) params
  have second := body (placed.sublist (List.sublist_append_right (t :: head) _))
  refine .node placed (.append placed first second) ?_ (by simp)
  rw [getLastD_append_cons]
  exact ends

mutual

/-- The nodes of an expression lie well on the tokens that spell it. -/
theorem laid_of_spells (placed : Placed source.toList (t :: used)) :
    Spells t used n e m → Laid source (t :: used) [e.layout]
  | .identifier | .string | .number | .dynamicImport => laid_leaf placed
  | .object _ ends members =>
    .node placed (.mono (laid_of_members (placed.sublist (List.sublist_cons_self ..)) members)
      (List.sublist_cons_self ..)) ends (by simp)
  | .array ends items =>
    .node placed (.mono (laid_of_items (placed.sublist (List.sublist_cons_self ..)) items)
      (List.sublist_cons_self ..)) ends (by simp)
  | .member target => laid_member placed fun placed => laid_of_spells placed target
  | .call callee ends items =>
    laid_call placed (fun placed => laid_of_spells placed callee)
      (fun placed => laid_of_items placed items) ends
  | .arrow params ends _ => by
    refine .node placed ?_ ends (by simp)
    rw [Expr.layoutOption, List.append_nil]
    exact laid_leaves placed params
  | .arrowBody params ends body =>
    laid_arrowBody placed params (fun placed => laid_of_spells placed body) ends

theorem laid_of_items (placed : Placed source.toList run) :
    SpellsItems run n es m → Laid source run (Expr.layouts es)
  | .nil => laid_nil ..
  | .skip _ more =>
    .mono (laid_of_items (placed.sublist (List.sublist_cons_self ..)) more)
      (List.sublist_cons_self ..)
  | .item item more =>
    .append placed
      (laid_of_spells (placed.sublist (List.sublist_append_left (_ :: _) _)) item)
      (laid_of_items (placed.sublist (List.sublist_append_right (_ :: _) _)) more)

theorem laid_of_members (placed : Placed source.toList run) :
    SpellsMembers run n ps m → Laid source run (Property.layouts ps)
  | .nil => laid_nil ..
  | .skip _ more =>
    .mono (laid_of_members (placed.sublist (List.sublist_cons_self ..)) more)
      (List.sublist_cons_self ..)
  | .property property more =>
    .append placed
      (laid_of_property (placed.sublist (List.sublist_append_left (_ :: _) _)) property)
      (laid_of_members (placed.sublist (List.sublist_append_right (_ :: _) _)) more)

theorem laid_of_property (placed : Placed source.toList (key :: used)) :
    SpellsProperty key used n p m → Laid source (key :: used) [p.layout]
  | .shorthand => .node placed (laid_key placed) rfl shorthandValue_repeats
  | .method ends | .valueless ends _ => .node placed (laid_key placed) ends (by simp)
  | .value ends value => laid_value placed (fun placed => laid_of_spells placed value) ends

end

/-- What lies well one by one lies well in a list. -/
theorem laid_of_all {spells : Token → List Token → Nat → α → Nat → Prop} {layout : α → Layout}
    (placed : Placed source.toList run) (spelled : SpellsAll spells run n xs m)
    (each : ∀ {t used n x m}, Placed source.toList (t :: used) → spells t used n x m →
      Laid source (t :: used) [layout x]) :
    Laid source run (xs.map layout) := by
  induction spelled with
  | nil => exact laid_nil ..
  | skip _ _ ih =>
    exact (ih (placed.sublist (List.sublist_cons_self ..))).mono (List.sublist_cons_self ..)
  | @cons t used n x k later xs m first _ ih =>
    have here := each (placed.sublist (List.sublist_append_left (t :: used) later)) first
    have behind := ih (placed.sublist (List.sublist_append_right (t :: used) later))
    exact .append placed here behind

private theorem laid_renamed (placed : Placed source.toList (t :: (before ++ [name]))) :
    Laid source (t :: (before ++ [name])) [ImportSpecifier.layout
      ⟨t.through name, .named, t.importedName, name.identifier⟩] := by
  have ends : name = (before ++ [name]).getLastD t := by simp
  unfold ImportSpecifier.layout
  split
  · rename_i same
    refine .node placed (laid_first placed) ends ?_
    rw [same]
    exact fun child member => member
  · have first := laid_first (placed.sublist (List.sublist_append_left (t :: before) [name]))
    have second := laid_leaf (placed.sublist (List.sublist_append_right (t :: before) [name]))
    exact .node placed (.append placed first second) ends (by simp)

theorem laid_of_specifier (placed : Placed source.toList (t :: used)) :
    SpellsSpecifier t used n specifier m → Laid source (t :: used) [specifier.layout]
  | .default | .named => by
    unfold ImportSpecifier.layout
    rw [if_pos rfl]
    exact .node placed (laid_leaf placed) rfl (by simp)
  | .star => by
    unfold ImportSpecifier.layout
    rw [if_pos rfl]
    refine .node placed ?_ (by simp) (by simp)
    rw [← List.cons_append] at placed ⊢
    exact laid_last placed
  | .renamed => laid_renamed placed

theorem laid_of_declarator (placed : Placed source.toList (t :: used)) :
    SpellsDeclarator t used n d m → Laid source (t :: used) [d.layout]
  | .valueless ends _ => .node placed (laid_first placed) ends (by simp)
  | .valued value ends => by
    have name := laid_leaf (placed.sublist (List.singleton_sublist.mpr (List.mem_cons_self ..)))
    have init := laid_of_spells (placed.sublist (List.sublist_append_right [_, _] _)) value
    refine .node placed (laid_append_cons placed name init) ?_ (by simp)
    rw [List.getLastD_cons, List.getLastD_cons]
    exact ends

private theorem laid_exportValue (placed : Placed source.toList (keyword :: word :: t :: (later ++ after)))
    (value : Placed source.toList (t :: later) → Laid source (t :: later) [layout])
    (ends : last = (later ++ after).getLastD t) :
    Laid source (keyword :: word :: t :: (later ++ after))
      [.node (keyword.through last) [layout] []] := by
  have within : (t :: later).Sublist (keyword :: word :: t :: (later ++ after)) :=
    ((List.sublist_append_left (t :: later) after).cons word).cons keyword
  refine .node placed ((value (placed.sublist within)).mono within) ?_ (by simp)
  rw [List.getLastD_cons, List.getLastD_cons]
  exact ends

theorem laid_of_export (placed : Placed source.toList (t :: used)) :
    SpellsExport t used n d m → Laid source (t :: used) [(Statement.defaultExport d).layout]
  | .valueless ends _ => .node placed (laid_nil ..) ends (by simp)
  | .valued value ends => laid_exportValue placed (fun placed => laid_of_spells placed value) ends

private theorem laid_source (placed : Placed source.toList (keyword :: (before ++ word :: after)))
    (specifiers : Placed source.toList before → Laid source before layouts)
    (ends : last = after.getLastD word) :
    Laid source (keyword :: (before ++ word :: after))
      [.node (keyword.through last) (layouts ++ [word.stringLiteral.layout]) []] := by
  have behind := placed.sublist (List.sublist_cons_self ..)
  have first := specifiers (behind.sublist (List.sublist_append_left ..))
  have second := laid_first (behind.sublist (List.sublist_append_right before (word :: after)))
  refine .node placed (.mono (.append behind first second) (List.sublist_cons_self ..)) ?_ (by simp)
  rw [getLastD_append_cons]
  exact ends

theorem laid_of_import (placed : Placed source.toList (t :: used)) :
    SpellsImport t used n d m → Laid source (t :: used) [(Statement.importDeclaration d).layout]
  | .sourceless specifiers ends => by
    have inner := laid_of_all (placed.sublist (List.sublist_cons_self ..)) specifiers
      laid_of_specifier
    refine .node placed ?_ ends (by simp)
    rw [Option.toList_none, List.map_nil, List.append_nil]
    exact inner.mono (List.sublist_cons_self ..)
  | .sourced specifiers ends =>
    laid_source placed (fun placed => laid_of_all placed specifiers laid_of_specifier) ends

theorem laid_of_variables (placed : Placed source.toList (t :: used)) :
    SpellsVariables t used n d m → Laid source (t :: used) [(Statement.variableDeclaration d).layout]
  | .declarators list ends =>
    .node placed (.mono (laid_of_all (placed.sublist (List.sublist_cons_self ..)) list
      laid_of_declarator) (List.sublist_cons_self ..)) ends (by simp)

/-- The nodes of a statement lie well on the tokens that spell it. -/
theorem laid_of_statement (placed : Placed source.toList (t :: used)) :
    SpellsStatement t used n statement m → Laid source (t :: used) [statement.layout]
  | .importDeclaration _ spelled => laid_of_import placed spelled
  | .defaultExport _ spelled => laid_of_export placed spelled
  | .variableDeclaration _ spelled => laid_of_variables placed spelled

/-- Nodes inside the tokens of a source lie inside the source. -/
private theorem wellPlaced_whole (placed : Placed source.toList stream)
    (ends : stream = before ++ [Token.endOfSource (Position.origin.advance source.toList)])
    (laid : Laid source stream children) :
    WellPlaced source (.node ⟨.origin, Module.stopOf stream⟩ children []) := by
  have stop : Module.stopOf stream = Position.origin.advance source.toList := by
    simp [Module.stopOf, ends, Token.endOfSource]
  have whole : (Position.origin.advance source.toList).offset = byteCount source.toList := by
    simp [Position.origin]
  refine .node (Nat.zero_le _) ?_ ?_ laid.ordered (by simp) laid.placed
  · refine slice?_isSome ⟨[], source.toList, rfl, rfl⟩ ⟨source.toList, [], by simp, ?_⟩
      (Nat.zero_le _)
    rw [stop, whole]
  · intro child member
    obtain ⟨a, _, b, stops, same⟩ := laid.spanned child member
    obtain ⟨before, after, split, offset⟩ := placed.stops b stops
    have inside : b.span.stop.offset ≤ byteCount source.toList := by
      rw [offset, split, byteCount_append]
      omega
    simp [Span.contains, same, Token.through, Span.between, stop, inside,
      Position.origin]

/-- A node may be the only child of another one in the same place. -/
theorem WellPlaced.wrap (placed : WellPlaced source (.node place children repeats)) :
    WellPlaced source (.node place [.node place children repeats] []) := by
  have inner := placed
  cases placed with
  | node forward covers within ordered repeated _ =>
    refine .node forward covers ?_ (List.pairwise_singleton ..) (by simp) (by simpa using inner)
    simp [Span.contains, span]

/-- Every node of every module lies well on the source it is read from, whether or
not reading stops behind the imports. -/
theorem ofSource_wellPlaced (source : String) (importsOnly : Bool) :
    WellPlaced source (Module.ofSource source importsOnly).layout := by
  obtain ⟨used, m, same, spelled⟩ :=
    readBody_spells importsOnly (Module.significant (Token.ofSource source)) 0
  obtain ⟨inner, ends, -⟩ := ends_significant source
  have placed := placed_significant source
  have within : used.Sublist (Module.significant (Token.ofSource source)) := by
    rw [same]
    exact List.sublist_append_left ..
  have statements := laid_of_all (placed.sublist within) spelled laid_of_statement
  exact (wellPlaced_whole placed ends (statements.mono within)).wrap

end Layout
end ImportAtlas
