import ImportAtlas.Proofs.ModuleSpelling
import ImportAtlas.Tree.Objects

/-! Every object literal of a module is found, once, and under the names around it. The
reference passes the names down the tree and knows neither a stack nor the numbers that
have been met; it speaks of every expression, wherever it stands. A collector agrees with
it because the numbers of the literals it has met stay below those of the literals that
are still to come. -/
namespace ImportAtlas

/-- An object literal with the names around it, the outermost first. -/
structure PlacedObject where
  names : List String
  object : ObjectLiteral

mutual

/-- The object literals of an expression that stands inside some names, in pre-order. -/
def Expr.placed (names : List String) : Expr → List PlacedObject
  | .identifier _ => []
  | .string _ => []
  | .number _ => []
  | .object literal => literal.placed names
  | .array _ elements => Expr.placedAll names elements
  | .call _ callee arguments => callee.placed names ++ Expr.placedAll names arguments
  | .arrow _ _ body _ => Expr.placedOption names body
  | .dynamicImport _ => []
  | .member _ object _ _ => object.placed names

def Expr.placedAll (names : List String) : List Expr → List PlacedObject
  | [] => []
  | expr :: rest => expr.placed names ++ Expr.placedAll names rest

def Expr.placedOption (names : List String) : Option Expr → List PlacedObject
  | none => []
  | some expr => expr.placed names

def ObjectLiteral.placed (names : List String) : ObjectLiteral → List PlacedObject
  | ⟨span, id, properties⟩ =>
    ⟨names, ⟨span, id, properties⟩⟩ :: Property.placedAll names properties

/-- The value of a property stands inside the property's name. -/
def Property.placed (names : List String) : Property → List PlacedObject
  | ⟨_, key, value, _, _, _⟩ => Expr.placedOption (names ++ [key.name]) value

def Property.placedAll (names : List String) : List Property → List PlacedObject
  | [] => []
  | property :: rest => property.placed names ++ Property.placedAll names rest

end

/-- The initial value of a variable stands inside the variable's name. -/
def VariableDeclarator.placed (names : List String) (declarator : VariableDeclarator) :
    List PlacedObject :=
  Expr.placedOption (names ++ [declarator.name.name]) declarator.init

def Statement.placed (names : List String) : Statement → List PlacedObject
  | importDeclaration _ => []
  | defaultExport declaration => Expr.placedOption (names ++ ["default"]) declaration.value
  | variableDeclaration declaration =>
    declaration.declarators.flatMap (VariableDeclarator.placed names)

/-- The object literals of a module. -/
def Module.placed (module : Module) : List PlacedObject :=
  module.body.flatMap (Statement.placed [])

/-- An object literal stands somewhere in an expression, inside the names given. -/
inductive Expr.Holds : Expr → List String → ObjectLiteral → Prop where
  | self : Holds (.object literal) [] literal
  | property {p : Property} (member : p ∈ literal.properties) (value : p.value = some e)
      (inside : Holds e names o) : Holds (.object literal) (p.key.name :: names) o
  | element (member : e ∈ elements) (inside : Holds e names o) :
      Holds (.array place elements) names o
  | callee (inside : Holds callee names o) : Holds (.call place callee arguments) names o
  | argument (member : e ∈ arguments) (inside : Holds e names o) :
      Holds (.call place callee arguments) names o
  | body (inside : Holds e names o) : Holds (.arrow place params (some e) isAsync) names o
  | target (inside : Holds target names o) : Holds (.member place target name computed) names o

inductive Statement.Holds : Statement → List String → ObjectLiteral → Prop where
  | exported (value : declaration.value = some e) (inside : e.Holds names o) :
      Holds (.defaultExport declaration) ("default" :: names) o
  | declared {d : VariableDeclarator} (member : d ∈ declaration.declarators)
      (value : d.init = some e) (inside : e.Holds names o) :
      Holds (.variableDeclaration declaration) (d.name.name :: names) o

/-- An object literal stands somewhere in a module, inside the names given. -/
def Module.Holds (module : Module) (names : List String) (o : ObjectLiteral) : Prop :=
  ∃ statement ∈ module.body, statement.Holds names o

namespace Discovery
open Spelling

section Places

/-- What is found inside some names stands inside these names, and then inside the names
that lead to it from there. -/
private def Under (names : List String) (holds : List String → ObjectLiteral → Prop)
    (p : PlacedObject) : Prop :=
  ∃ inner, p.names = names ++ inner ∧ holds inner p.object

mutual

private theorem holds_of_placed (names : List String) :
    ∀ (e : Expr) (p : PlacedObject), p ∈ e.placed names → Under names e.Holds p
  | .object ⟨_, _, properties⟩, p, member => by
    rcases List.mem_cons.mp member with rfl | member
    · exact ⟨[], (List.append_nil names).symm, .self⟩
    · obtain ⟨property, among, e, value, inner, same, inside⟩ :=
        holds_of_placedProperties names properties p member
      exact ⟨_, same.trans (List.append_assoc ..), .property among value inside⟩
  | .array _ elements, p, member => by
    obtain ⟨e, among, inner, same, inside⟩ := holds_of_placedAll names elements p member
    exact ⟨inner, same, .element among inside⟩
  | .call _ callee arguments, p, member => by
    rcases List.mem_append.mp member with member | member
    · obtain ⟨inner, same, inside⟩ := holds_of_placed names callee p member
      exact ⟨inner, same, .callee inside⟩
    · obtain ⟨e, among, inner, same, inside⟩ := holds_of_placedAll names arguments p member
      exact ⟨inner, same, .argument among inside⟩
  | .arrow _ _ (some body) _, p, member => by
    obtain ⟨inner, same, inside⟩ := holds_of_placed names body p member
    exact ⟨inner, same, .body inside⟩
  | .member _ target _ _, p, member => by
    obtain ⟨inner, same, inside⟩ := holds_of_placed names target p member
    exact ⟨inner, same, .target inside⟩
  | .identifier _, _, member | .string _, _, member | .number _, _, member
  | .dynamicImport _, _, member | .arrow _ _ none _, _, member => nomatch member

private theorem holds_of_placedAll (names : List String) :
    ∀ (es : List Expr) (p : PlacedObject), p ∈ Expr.placedAll names es →
      ∃ e ∈ es, Under names e.Holds p
  | e :: rest, p, member => by
    rcases List.mem_append.mp member with member | member
    · exact ⟨e, List.mem_cons_self, holds_of_placed names e p member⟩
    · obtain ⟨e, among, inside⟩ := holds_of_placedAll names rest p member
      exact ⟨e, List.mem_cons_of_mem _ among, inside⟩
  | [], _, member => nomatch member

private theorem holds_of_placedProperties (names : List String) :
    ∀ (ps : List Property) (p : PlacedObject), p ∈ Property.placedAll names ps →
      ∃ property ∈ ps, ∃ e, property.value = some e ∧
        Under (names ++ [property.key.name]) e.Holds p
  | ⟨span, key, some e, shorthand, computed, method⟩ :: rest, p, member => by
    rcases List.mem_append.mp member with member | member
    · exact ⟨_, List.mem_cons_self, e, rfl, holds_of_placed _ e p member⟩
    · obtain ⟨property, among, inside⟩ := holds_of_placedProperties names rest p member
      exact ⟨property, List.mem_cons_of_mem _ among, inside⟩
  | ⟨_, _, none, _, _, _⟩ :: rest, p, member => by
    obtain ⟨property, among, inside⟩ := holds_of_placedProperties names rest p member
    exact ⟨property, List.mem_cons_of_mem _ among, inside⟩
  | [], _, member => nomatch member

end

private theorem mem_placedAll (member : e ∈ es) (found : p ∈ e.placed names) :
    p ∈ Expr.placedAll names es := by
  induction member with
  | head rest => exact List.mem_append_left _ found
  | tail _ _ ih => exact List.mem_append_right _ ih

private theorem mem_placedProperties {property : Property} (member : property ∈ ps)
    (value : property.value = some e) (found : p ∈ e.placed (names ++ [property.key.name])) :
    p ∈ Property.placedAll names ps := by
  induction member with
  | head rest =>
    obtain ⟨span, key, _, shorthand, computed, method⟩ := property
    cases value
    exact List.mem_append_left _ found
  | tail _ _ ih => exact List.mem_append_right _ ih

private theorem placed_of_holds {e : Expr} {inner : List String} (holds : e.Holds inner o)
    (names : List String) : ⟨names ++ inner, o⟩ ∈ e.placed names := by
  induction holds generalizing names with
  | @self literal =>
    obtain ⟨span, id, properties⟩ := literal
    rw [List.append_nil]
    exact List.mem_cons_self
  | @property e inner o literal p member value _ ih =>
    obtain ⟨span, id, properties⟩ := literal
    have found := ih (names ++ [p.key.name])
    rw [List.append_assoc] at found
    exact List.mem_cons_of_mem _ (mem_placedProperties member value found)
  | element member _ ih => exact mem_placedAll member (ih names)
  | callee _ ih => exact List.mem_append_left _ (ih names)
  | argument member _ ih => exact List.mem_append_right _ (mem_placedAll member (ih names))
  | body _ ih => exact ih names
  | target _ ih => exact ih names

/-- The reference finds the literals that stand in an expression, and no others. -/
theorem mem_placed (e : Expr) (names outer : List String) (o : ObjectLiteral) :
    ⟨outer, o⟩ ∈ e.placed names ↔ ∃ inner, outer = names ++ inner ∧ e.Holds inner o := by
  constructor
  · exact holds_of_placed names e ⟨outer, o⟩
  · rintro ⟨inner, rfl, holds⟩
    exact placed_of_holds holds names

/-- A value that may be missing, inside one name. -/
private theorem mem_placedOption (value : Option Expr) (name : String) (names : List String)
    (o : ObjectLiteral) :
    ⟨names, o⟩ ∈ Expr.placedOption [name] value ↔
      ∃ e inner, value = some e ∧ names = name :: inner ∧ e.Holds inner o := by
  cases value with
  | none => simp [Expr.placedOption]
  | some e => simp [Expr.placedOption, mem_placed]

theorem mem_placed_statement (statement : Statement) (names : List String) (o : ObjectLiteral) :
    ⟨names, o⟩ ∈ statement.placed [] ↔ statement.Holds names o := by
  constructor
  · intro member
    cases statement with
    | importDeclaration _ => cases member
    | defaultExport declaration =>
      obtain ⟨e, inner, value, rfl, inside⟩ := (mem_placedOption ..).mp member
      exact .exported value inside
    | variableDeclaration declaration =>
      obtain ⟨d, among, member⟩ := List.mem_flatMap.mp member
      obtain ⟨e, inner, value, rfl, inside⟩ := (mem_placedOption ..).mp member
      exact .declared among value inside
  · intro holds
    cases holds with
    | exported value inside => exact (mem_placedOption ..).mpr ⟨_, _, value, rfl, inside⟩
    | declared among value inside =>
      exact List.mem_flatMap.mpr ⟨_, among, (mem_placedOption ..).mpr ⟨_, _, value, rfl, inside⟩⟩

theorem mem_placed_module (module : Module) (names : List String) (o : ObjectLiteral) :
    ⟨names, o⟩ ∈ module.placed ↔ module.Holds names o := by
  simp only [Module.placed, List.mem_flatMap, mem_placed_statement, Module.Holds]

end Places

section Numbers

/-- Numbers that ascend from one number up to another, exclusive. -/
structure Numbered (n : Nat) (ids : List Nat) (m : Nat) : Prop where
  grows : n ≤ m
  ascending : ids.Pairwise (· < ·)
  within : ∀ id ∈ ids, n ≤ id ∧ id < m

private theorem numbered_nil (grows : n ≤ m) : Numbered n [] m :=
  ⟨grows, .nil, by simp⟩

private theorem numbered_cons (more : Numbered (n + 1) ids m) : Numbered n (n :: ids) m := by
  have above : ∀ id ∈ ids, n < id := fun id member => (more.within id member).1
  constructor
  · exact Nat.le_of_succ_le more.grows
  · exact List.pairwise_cons.mpr ⟨above, more.ascending⟩
  · intro id member
    rcases List.mem_cons.mp member with rfl | member
    · exact ⟨Nat.le_refl id, more.grows⟩
    · exact ⟨Nat.le_of_lt (above id member), (more.within id member).2⟩

private theorem numbered_append (first : Numbered n ids k) (second : Numbered k more m) :
    Numbered n (ids ++ more) m := by
  constructor
  · exact Nat.le_trans first.grows second.grows
  · refine List.pairwise_append.mpr ⟨first.ascending, second.ascending, ?_⟩
    intro id member other later
    exact Nat.lt_of_lt_of_le (first.within id member).2 (second.within other later).1
  · intro id member
    have left := first.grows
    have right := second.grows
    rcases List.mem_append.mp member with member | member
    · have within := first.within id member
      omega
    · have within := second.within id member
      omega

end Numbers

section Collecting

/-- The names that count in a path: white space around a name does not matter, and blank
names are left out. -/
def labels (names : List String) : List String :=
  (names.map Text.trimmed).filter (· ≠ "")

/-- The path of some names, if any of them counts. -/
def dottedPath (names : List String) : Option String :=
  if labels names = [] then none else some (".".intercalate (labels names))

/-- What is recorded of an object literal. -/
def recordOf (found : PlacedObject) : ObjectRecord :=
  ⟨dottedPath found.names, found.object⟩

/-- The numbers of some object literals. -/
def ids (found : List PlacedObject) : List Nat :=
  found.map (·.object.id)

/-- A collector that has met some more object literals. -/
def extend (c : ObjectCollector) (found : List PlacedObject) : ObjectCollector :=
  { c with seen := (ids found).reverse ++ c.seen, records := c.records ++ found.map recordOf }

theorem extend_nil (c : ObjectCollector) : extend c [] = c := by
  simp [extend, ids]

theorem extend_append (c : ObjectCollector) (found more : List PlacedObject) :
    extend c (found ++ more) = extend (extend c found) more := by
  simp [extend, ids]

theorem mem_seen_extend {c : ObjectCollector} {found : List PlacedObject} {id : Nat}
    (member : id ∈ (extend c found).seen) : id ∈ ids found ∨ id ∈ c.seen := by
  simpa [extend] using member

theorem labels_snoc (names : List String) (name : String) :
    labels (names ++ [name]) = labels names ++ (ObjectCollector.label? (some name)).toList := by
  simp only [labels, List.map_append, List.filter_append, List.map_cons, List.map_nil,
    List.filter_cons, List.filter_nil, ObjectCollector.label?, Option.map_some, Option.filter_some]
  split
  · rfl
  · rfl

/-- A collector stands inside some names. -/
def Inside (names : List String) (c : ObjectCollector) : Prop :=
  c.names = (labels names).reverse

theorem inside_enter {c : ObjectCollector} (inside : Inside names c) (name : String) :
    Inside (names ++ [name]) (c.enter (some name)) := by
  unfold Inside at inside ⊢
  rw [labels_snoc, List.reverse_append, ← inside]
  unfold ObjectCollector.enter
  cases ObjectCollector.label? (some name) with
  | none => rfl
  | some label => rfl

/-- Leaving a name undoes entering it, whatever has been met in between. -/
theorem leave_extend_enter (c : ObjectCollector) (name : Option String)
    (found : List PlacedObject) :
    (extend (c.enter name) found).leave name = extend c found := by
  simp [ObjectCollector.leave, ObjectCollector.enter, extend]

/-- Meeting object literals does not lead inside a name. -/
theorem inside_extend {c : ObjectCollector} (inside : Inside names c) (found : List PlacedObject) :
    Inside names (extend c found) :=
  inside

theorem path_of_inside {c : ObjectCollector} (inside : Inside names c) :
    c.path? = dottedPath names := by
  unfold ObjectCollector.path? dottedPath
  rw [inside, List.reverse_reverse, List.isEmpty_reverse]
  simp only [List.isEmpty_iff]

theorem record_eq {c : ObjectCollector} (inside : Inside names c) (object : ObjectLiteral) :
    c.record object = extend c [⟨names, object⟩] := by
  simp [ObjectCollector.record, extend, ids, recordOf, path_of_inside inside]

/-- Collecting meets exactly the object literals of the reference. Their numbers ascend
from one number up to another, so that no literal is taken for one that was met before. -/
structure Collects (placed : List String → List PlacedObject)
    (collect : ObjectCollector → ObjectCollector) (n m : Nat) : Prop where
  numbered : ∀ names, Numbered n (ids (placed names)) m
  meets : ∀ c names, Inside names c → (∀ id ∈ c.seen, id < n) →
    collect c = extend c (placed names)

theorem Collects.grows (collects : Collects placed collect n m) : n ≤ m :=
  (collects.numbered []).grows

theorem collects_nothing (grows : n ≤ m) : Collects (fun _ => []) id n m := by
  constructor
  · intro names
    exact numbered_nil grows
  · intro c names _ _
    exact (extend_nil c).symm

/-- What is met first has lower numbers than what is met second. -/
theorem Collects.append (first : Collects placed collect n k)
    (second : Collects placedMore collectMore k m) :
    Collects (fun names => placed names ++ placedMore names) (collectMore ∘ collect) n m := by
  constructor
  · intro names
    have numbered := numbered_append (first.numbered names) (second.numbered names)
    rwa [ids, ids, ← List.map_append] at numbered
  · intro c names inside below
    have met := first.meets c names inside below
    have belowMore : ∀ id ∈ (extend c (placed names)).seen, id < k := by
      intro id member
      rcases mem_seen_extend member with new | old
      · exact ((first.numbered names).within id new).2
      · exact Nat.lt_of_lt_of_le (below id old) first.grows
    rw [Function.comp_apply, met, second.meets (extend c (placed names)) names inside belowMore,
      extend_append]

/-- Numbers that are passed over do not matter. -/
theorem Collects.mono (grows : n ≤ k) (collects : Collects placed collect k m) :
    Collects placed collect n m :=
  (collects_nothing grows).append collects

/-- Going inside a name, collecting, and going outside again. -/
theorem Collects.under (name : String) (collects : Collects placed collect n m) :
    Collects (fun names => placed (names ++ [name]))
      (fun c => (collect (c.enter (some name))).leave (some name)) n m := by
  constructor
  · intro names
    exact collects.numbered (names ++ [name])
  · intro c names inside below
    have met := collects.meets (c.enter (some name)) _ (inside_enter inside name) below
    simp only [met, leave_extend_enter]

/-- An object literal is met before the ones inside it. -/
theorem Collects.object (span : Span)
    (members : Collects (fun names => Property.placedAll names properties)
      (Property.collectAll properties) (n + 1) m) :
    Collects (fun names => ObjectLiteral.placed names ⟨span, n, properties⟩)
      (ObjectLiteral.collect ⟨span, n, properties⟩) n m := by
  constructor
  · intro names
    exact numbered_cons (members.numbered names)
  · intro c names inside below
    have fresh : c.seen.contains n = false := by
      rw [List.contains_eq_mem, decide_eq_false_iff_not]
      intro member
      exact Nat.lt_irrefl n (below n member)
    have belowMore : ∀ id ∈ (extend c [⟨names, ⟨span, n, properties⟩⟩]).seen, id < n + 1 := by
      intro id member
      rcases mem_seen_extend member with new | old
      · rw [List.mem_singleton.mp new]
        exact Nat.lt_succ_self n
      · exact Nat.lt_succ_of_lt (below id old)
    unfold ObjectLiteral.collect
    rw [fresh, if_neg Bool.false_ne_true, record_eq inside,
      members.meets _ names (inside_extend inside _) belowMore, ← extend_append]
    rfl

/-- A value that is missing. -/
private theorem collects_none (grows : n ≤ m) :
    Collects (fun names => Expr.placedOption names none) (Expr.collectOption none) n m :=
  collects_nothing grows

/-- The value of a shorthand property is a name, and holds no object literal. -/
private theorem collects_shorthand (key : Token) (n : Nat) :
    Collects
      (fun names => Property.placed names
        ⟨key.span, key.propertyKey, Expr.shorthandValue key.propertyKey, true, false, false⟩)
      (Property.collect
        ⟨key.span, key.propertyKey, Expr.shorthandValue key.propertyKey, true, false, false⟩)
      n n := by
  cases key.propertyKey with
  | identifier _ => exact collects_nothing (Nat.le_refl n)
  | string _ => exact collects_nothing (Nat.le_refl n)

mutual

/-- The object literals of an expression are met, in the order of the numbers that its
spelling gives them. -/
theorem collects_of_spells :
    Spells t used n e m → Collects (fun names => e.placed names) e.collect n m
  | .identifier | .string | .number | .dynamicImport => collects_nothing (Nat.le_refl n)
  | .object _ _ members => (collects_of_members members).object _
  | .array _ items => collects_of_items items
  | .member target => by
    have collects := collects_of_spells target
    exact collects
  | .call callee _ items => (collects_of_spells callee).append (collects_of_items items)
  | .arrow _ _ grows => collects_none grows
  | .arrowBody _ _ body => by
    have collects := collects_of_spells body
    exact collects

theorem collects_of_items : SpellsItems run n es m →
    Collects (fun names => Expr.placedAll names es) (Expr.collectAll es) n m
  | .nil => collects_nothing (Nat.le_refl n)
  | .skip grows more => (collects_of_items more).mono grows
  | .item item more => (collects_of_spells item).append (collects_of_items more)

theorem collects_of_members : SpellsMembers run n ps m →
    Collects (fun names => Property.placedAll names ps) (Property.collectAll ps) n m
  | .nil => collects_nothing (Nat.le_refl n)
  | .skip grows more => (collects_of_members more).mono grows
  | .property property more => (collects_of_property property).append (collects_of_members more)

theorem collects_of_property : SpellsProperty key used n p m →
    Collects (fun names => p.placed names) p.collect n m
  | .shorthand => collects_shorthand ..
  | .method _ => (collects_none (Nat.le_refl n)).under key.propertyKey.name
  | .valueless _ grows => (collects_none grows).under key.propertyKey.name
  | .value _ value => (collects_of_spells value).under key.propertyKey.name

end

/-- What is collected from each of some nodes is collected from all of them in turn. -/
theorem collects_of_all {spells : Token → List Token → Nat → α → Nat → Prop}
    {placed : List String → α → List PlacedObject}
    {collect : ObjectCollector → α → ObjectCollector}
    (spelled : SpellsAll spells run n xs m)
    (each : ∀ {t used n x m}, spells t used n x m →
      Collects (fun names => placed names x) (fun c => collect c x) n m) :
    Collects (fun names => xs.flatMap (placed names)) (fun c => xs.foldl collect c) n m := by
  induction spelled with
  | nil => exact collects_nothing (Nat.le_refl _)
  | skip grows _ ih => exact ih.mono grows
  | cons first _ ih => exact (each first).append ih

theorem collects_of_declarator : SpellsDeclarator t used n d m →
    Collects (fun names => d.placed names) (fun c => d.collect c) n m
  | .valueless _ grows => (collects_none grows).under t.value
  | .valued value _ => (collects_of_spells value).under t.value

theorem collects_of_export : SpellsExport t used n d m →
    Collects (fun names => Statement.placed names (.defaultExport d))
      (fun c => Statement.collect c (.defaultExport d)) n m
  | .valueless _ grows => (collects_none grows).under "default"
  | .valued value _ => (collects_of_spells value).under "default"

/-- An import uses up no numbers. -/
private theorem eq_of_import : SpellsImport t used n d m → n = m
  | .sourceless _ _ => rfl
  | .sourced _ _ => rfl

theorem collects_of_statement : SpellsStatement t used n s m →
    Collects (fun names => s.placed names) (fun c => Statement.collect c s) n m
  | .importDeclaration _ spelled => collects_nothing (Nat.le_of_eq (eq_of_import spelled))
  | .defaultExport _ spelled => collects_of_export spelled
  | .variableDeclaration _ (.declarators list _) => collects_of_all list collects_of_declarator

end Collecting

/-- What is found in a module: one record for each object literal that stands anywhere in
it, in pre-order and under the names around it. The numbers of the literals ascend, so no
literal is recorded twice. -/
structure Discovers (module : Module) (records : List ObjectRecord) : Prop where
  named : records = module.placed.map fun found => ⟨dottedPath found.names, found.object⟩
  complete : ∀ names object, ⟨names, object⟩ ∈ module.placed ↔ module.Holds names object
  ascending : (records.map (·.object.id)).Pairwise (· < ·)

/-- The object literals of a module are discovered, whatever tokens it is read from. -/
theorem objects_discovered (tokens : List Token) (importsOnly : Bool) :
    Discovers (Module.ofTokens tokens importsOnly)
      (Module.ofTokens tokens importsOnly).objects := by
  obtain ⟨used, m, -, spelled⟩ := readBody_spells importsOnly (Module.significant tokens) 0
  have collects := collects_of_all spelled collects_of_statement
  change Collects
    (fun names => (Module.ofTokens tokens importsOnly).body.flatMap (Statement.placed names))
    (fun c => Module.collect c (Module.ofTokens tokens importsOnly)) 0 m at collects
  generalize Module.ofTokens tokens importsOnly = module at collects ⊢
  have met : Module.collect {} module = extend {} module.placed :=
    collects.meets {} [] rfl (by simp)
  have named : module.objects = module.placed.map recordOf := by
    rw [Module.objects, met]
    exact List.nil_append _
  constructor
  · exact named
  · exact mem_placed_module module
  · have ascending := (collects.numbered []).ascending
    rw [named, List.map_map]
    exact ascending

end Discovery
end ImportAtlas
