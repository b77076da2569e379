import ImportAtlas.Proofs.Discovery

/-! One collector visits several trees in turn, of one file or of many, and keeps what it has
recorded. The numbers of object literals may repeat, within one tree and from tree to tree. The
reference first lays out the literals of a tree as a forest, without a look at their numbers, and
then walks the forest without a look at names: a literal whose number has been recorded is passed
over with everything inside it. -/
namespace ImportAtlas

/-- An object literal with the names around it, and the object literals right inside it. -/
inductive ObjectTree where
  | node (found : PlacedObject) (inside : List ObjectTree)

mutual

/-- The object literals of an expression that stands inside some names. -/
def Expr.forest (names : List String) : Expr → List ObjectTree
  | .identifier _ => []
  | .string _ => []
  | .number _ => []
  | .object literal => literal.forest names
  | .array _ elements => Expr.forestAll names elements
  | .call _ callee arguments => callee.forest names ++ Expr.forestAll names arguments
  | .arrow _ _ body _ => Expr.forestOption names body
  | .dynamicImport _ => []
  | .member _ object _ _ => object.forest names

def Expr.forestAll (names : List String) : List Expr → List ObjectTree
  | [] => []
  | expr :: rest => expr.forest names ++ Expr.forestAll names rest

def Expr.forestOption (names : List String) : Option Expr → List ObjectTree
  | none => []
  | some expr => expr.forest names

def ObjectLiteral.forest (names : List String) : ObjectLiteral → List ObjectTree
  | ⟨span, id, properties⟩ =>
    [.node ⟨names, ⟨span, id, properties⟩⟩ (Property.forestAll names properties)]

/-- The value of a property stands inside the property's name, if that is known. Nothing stands
in the value of a shorthand property. -/
def Property.forest (names : List String) : Property → List ObjectTree
  | ⟨_, key, value, shorthand, computed, _⟩ =>
    let name := if computed then none else some key.name
    if shorthand then [] else Expr.forestOption (names ++ name.toList) value

def Property.forestAll (names : List String) : List Property → List ObjectTree
  | [] => []
  | property :: rest => property.forest names ++ Property.forestAll names rest

end

def VariableDeclarator.forest (names : List String) (declarator : VariableDeclarator) :
    List ObjectTree :=
  Expr.forestOption (names ++ [declarator.name.name]) declarator.init

def Statement.forest (names : List String) : Statement → List ObjectTree
  | importDeclaration _ => []
  | defaultExport declaration => Expr.forestOption (names ++ ["default"]) declaration.value
  | variableDeclaration declaration =>
    declaration.declarators.flatMap (VariableDeclarator.forest names)

/-- What a collector may be asked to visit. Names, literals of other kinds and import specifiers
are left out, since they hold no object literals. -/
inductive Visit where
  | file (module : Module)
  | statement (statement : Statement)
  | declarator (declarator : VariableDeclarator)
  | expression (expr : Expr)
  | object (literal : ObjectLiteral)
  | property (property : Property)

/-- The object literals of a visited tree. -/
def Visit.forest (names : List String) : Visit → List ObjectTree
  | .file module => module.body.flatMap (Statement.forest names)
  | .statement s => s.forest names
  | .declarator d => d.forest names
  | .expression e => e.forest names
  | .object literal => literal.forest names
  | .property p => p.forest names

/-- One visit. -/
def ObjectCollector.visit (c : ObjectCollector) : Visit → ObjectCollector
  | .file module => module.collect c
  | .statement s => s.collect c
  | .declarator d => d.collect c
  | .expression e => e.collect c
  | .object literal => literal.collect c
  | .property p => p.collect c

/-- The numbers of some records. -/
def ObjectRecord.numbers (records : List ObjectRecord) : List Nat :=
  records.map (·.object.id)

namespace ObjectTree
open Discovery

mutual

/-- The object literals of a tree in pre-order. -/
def all : ObjectTree → List PlacedObject
  | .node found inside => found :: allOf inside

def allOf : List ObjectTree → List PlacedObject
  | [] => []
  | tree :: rest => tree.all ++ allOf rest

end

mutual

/-- The object literals that a walk meets in a tree, in pre-order, when some numbers have been
recorded. It does not go into a literal with one of these numbers. -/
def fresh (recorded : List Nat) : ObjectTree → List PlacedObject
  | .node found inside =>
    if found.object.id ∈ recorded then []
    else found :: freshOf (found.object.id :: recorded) inside

/-- A walk through some trees in turn. What is met in one has been recorded in the next. -/
def freshOf (recorded : List Nat) : List ObjectTree → List PlacedObject
  | [] => []
  | tree :: rest => tree.fresh recorded ++ freshOf (ids (tree.fresh recorded) ++ recorded) rest

end

end ObjectTree

namespace Visits
open Discovery ObjectTree

section Walks
variable {recorded : List Nat}

private theorem ids_append (found more : List PlacedObject) :
    ids (found ++ more) = ids found ++ ids more :=
  List.map_append

mutual

theorem fresh_congr {recorded others : List Nat} (same : ∀ id, id ∈ recorded ↔ id ∈ others) :
    ∀ tree : ObjectTree, tree.fresh recorded = tree.fresh others
  | .node found inside => by
    have inner : freshOf (found.object.id :: recorded) inside =
        freshOf (found.object.id :: others) inside := freshOf_congr (by simp [same]) inside
    rw [fresh, fresh, inner]
    simp only [same]

/-- It matters which numbers have been recorded, and not in which order. -/
theorem freshOf_congr {recorded others : List Nat} (same : ∀ id, id ∈ recorded ↔ id ∈ others) :
    ∀ trees : List ObjectTree, freshOf recorded trees = freshOf others trees
  | [] => rfl
  | tree :: rest => by
    have later : freshOf (ids (tree.fresh others) ++ recorded) rest =
        freshOf (ids (tree.fresh others) ++ others) rest := freshOf_congr (by simp [same]) rest
    rw [freshOf, freshOf, fresh_congr same tree, later]

end

theorem freshOf_append (trees more : List ObjectTree) :
    freshOf recorded (trees ++ more) =
      freshOf recorded trees ++ freshOf (ids (freshOf recorded trees) ++ recorded) more := by
  induction trees generalizing recorded with
  | nil => rfl
  | cons tree rest ih =>
    rw [List.cons_append, freshOf, ih, freshOf, List.append_assoc, ids_append]
    congr 2
    exact freshOf_congr (by simp [or_left_comm]) more

mutual

theorem new_fresh (recorded : List Nat) :
    ∀ tree : ObjectTree, (ids (tree.fresh recorded)).Nodup ∧
      ∀ id ∈ ids (tree.fresh recorded), id ∉ recorded
  | .node found inside => by
    rw [fresh]
    split
    · exact ⟨.nil, by simp [ids]⟩
    · rename_i unknown
      obtain ⟨distinct, new⟩ := new_freshOf (found.object.id :: recorded) inside
      constructor
      · refine List.nodup_cons.mpr ⟨fun member => ?_, distinct⟩
        exact new _ member List.mem_cons_self
      · refine List.forall_mem_cons.mpr ⟨unknown, fun id member => ?_⟩
        exact mt (List.mem_cons_of_mem _) (new id member)

/-- The numbers that a walk meets are distinct and new. -/
theorem new_freshOf (recorded : List Nat) :
    ∀ trees : List ObjectTree, (ids (freshOf recorded trees)).Nodup ∧
      ∀ id ∈ ids (freshOf recorded trees), id ∉ recorded
  | [] => ⟨.nil, by simp [freshOf, ids]⟩
  | tree :: rest => by
    obtain ⟨distinct, new⟩ := new_fresh recorded tree
    obtain ⟨distinctRest, newRest⟩ := new_freshOf (ids (tree.fresh recorded) ++ recorded) rest
    rw [freshOf, ids_append]
    constructor
    · refine List.nodup_append.mpr ⟨distinct, distinctRest, ?_⟩
      rintro id first _ later rfl
      exact newRest id later (List.mem_append_left _ first)
    · intro id member
      rcases List.mem_append.mp member with first | later
      · exact new id first
      · exact mt (List.mem_append_right _) (newRest id later)

end

mutual

theorem fresh_sublist (recorded : List Nat) :
    ∀ tree : ObjectTree, (tree.fresh recorded).Sublist tree.all
  | .node found inside => by
    rw [fresh, all]
    split
    · exact List.nil_sublist _
    · exact (freshOf_sublist _ inside).cons_cons found

/-- A walk keeps the pre-order of the forest. -/
theorem freshOf_sublist (recorded : List Nat) :
    ∀ trees : List ObjectTree, (freshOf recorded trees).Sublist (allOf trees)
  | [] => List.Sublist.refl _
  | tree :: rest => by
    rw [freshOf, allOf]
    exact (fresh_sublist recorded tree).append (freshOf_sublist _ rest)

end

end Walks

section Meeting

/-- What is collected inside some names is what a walk through the forest meets, whatever the
collector has seen. -/
def Meets (forest : List String → List ObjectTree)
    (collect : ObjectCollector → ObjectCollector) : Prop :=
  ∀ c names, Inside names c → collect c = extend c (freshOf c.seen (forest names))

theorem meets_nothing : Meets (fun _ => []) id :=
  fun c _ _ => (extend_nil c).symm

theorem Meets.append (first : Meets forest collect) (second : Meets forestMore collectMore) :
    Meets (fun names => forest names ++ forestMore names) (collectMore ∘ collect) := by
  intro c names inside
  -- The second walk starts from all numbers seen up to here, in the order of the collector.
  have met := second (extend c (freshOf c.seen (forest names))) names (inside_extend inside _)
  have known : ∀ id, id ∈ (extend c (freshOf c.seen (forest names))).seen ↔
      id ∈ ids (freshOf c.seen (forest names)) ++ c.seen := by
    simp [extend]
  rw [freshOf_congr known, ← extend_append, ← freshOf_append] at met
  rw [Function.comp_apply, first c names inside, met]

/-- A name that is not known is no name to stand inside. -/
private theorem inside_enterOption {c : ObjectCollector} (inside : Inside names c)
    (name : Option String) : Inside (names ++ name.toList) (c.enter name) := by
  cases name with
  | none => rwa [Option.toList_none, List.append_nil]
  | some name => exact inside_enter inside name

theorem Meets.under (name : Option String) (meets : Meets forest collect) :
    Meets (fun names => forest (names ++ name.toList))
      (fun c => (collect (c.enter name)).leave name) := by
  intro c names inside
  have met := meets (c.enter name) _ (inside_enterOption inside name)
  simp only [met, leave_extend_enter]
  rfl

/-- An object literal is met before the ones inside it, or not at all and neither are they. -/
theorem Meets.object (span : Span) (id : Nat)
    (members : Meets (fun names => Property.forestAll names properties)
      (Property.collectAll properties)) :
    Meets (fun names => ObjectLiteral.forest names ⟨span, id, properties⟩)
      (ObjectLiteral.collect ⟨span, id, properties⟩) := by
  intro c names inside
  simp only [ObjectLiteral.forest, ObjectLiteral.collect, freshOf, fresh, List.append_nil,
    List.contains_iff_mem]
  split
  · exact (extend_nil c).symm
  · have met := members (extend c [⟨names, ⟨span, id, properties⟩⟩]) names (inside_extend inside _)
    rw [← extend_append] at met
    rw [record_eq inside, met]
    rfl

mutual

/-- What is collected from an expression is what a walk through its forest meets. -/
theorem meets_expr : ∀ e : Expr, Meets (fun names => e.forest names) e.collect
  | .identifier _ | .string _ | .number _ | .dynamicImport _ => meets_nothing
  | .object literal => meets_object literal
  | .array _ elements => meets_exprs elements
  | .call _ callee arguments => (meets_expr callee).append (meets_exprs arguments)
  | .arrow _ _ body _ => meets_option body
  | .member _ target _ _ => meets_expr target

theorem meets_exprs :
    ∀ es : List Expr, Meets (fun names => Expr.forestAll names es) (Expr.collectAll es)
  | [] => meets_nothing
  | e :: rest => (meets_expr e).append (meets_exprs rest)

theorem meets_option :
    ∀ value : Option Expr, Meets (fun names => Expr.forestOption names value)
      (Expr.collectOption value)
  | none => meets_nothing
  | some e => meets_expr e

theorem meets_object :
    ∀ literal : ObjectLiteral, Meets (fun names => literal.forest names) literal.collect
  | ⟨span, id, properties⟩ => (meets_properties properties).object span id

theorem meets_property :
    ∀ property : Property, Meets (fun names => property.forest names) property.collect
  | ⟨_, _, _, true, _, _⟩ => meets_nothing
  | ⟨_, key, value, false, computed, _⟩ =>
    (meets_option value).under (if computed then none else some key.name)

theorem meets_properties :
    ∀ ps : List Property, Meets (fun names => Property.forestAll names ps) (Property.collectAll ps)
  | [] => meets_nothing
  | property :: rest => (meets_property property).append (meets_properties rest)

end

/-- What is met in each of some nodes is met in all of them in turn. -/
theorem meets_all {forest : List String → α → List ObjectTree}
    {collect : ObjectCollector → α → ObjectCollector}
    (each : ∀ x, Meets (fun names => forest names x) (fun c => collect c x)) :
    ∀ xs : List α, Meets (fun names => xs.flatMap (forest names)) (fun c => xs.foldl collect c)
  | [] => meets_nothing
  | x :: xs => (each x).append (meets_all each xs)

theorem meets_declarator (declarator : VariableDeclarator) :
    Meets (fun names => declarator.forest names) (fun c => declarator.collect c) :=
  (meets_option declarator.init).under (some declarator.name.name)

theorem meets_statement :
    ∀ statement : Statement, Meets (fun names => statement.forest names)
      (fun c => statement.collect c)
  | .importDeclaration _ => meets_nothing
  | .defaultExport declaration => (meets_option declaration.value).under (some "default")
  | .variableDeclaration declaration => meets_all meets_declarator declaration.declarators

theorem meets_visit :
    ∀ visit : Visit, Meets (fun names => visit.forest names) (fun c => c.visit visit)
  | .file module => meets_all meets_statement module.body
  | .statement s => meets_statement s
  | .declarator d => meets_declarator d
  | .expression e => meets_expr e
  | .object literal => meets_object literal
  | .property p => meets_property p

end Meeting

section Runs
variable {c : ObjectCollector}

/-- A collector that stands inside no name and has seen exactly what it has recorded, each number
once. -/
structure Settled (c : ObjectCollector) : Prop where
  outside : c.names = []
  distinct : (ObjectRecord.numbers c.records).Nodup
  seen : ∀ id, id ∈ c.seen ↔ id ∈ ObjectRecord.numbers c.records

/-- What one visit does to a settled collector. -/
theorem visit_eq (settled : Settled c) (visit : Visit) :
    c.visit visit =
      extend c (freshOf (ObjectRecord.numbers c.records) (visit.forest [])) := by
  have met := meets_visit visit c [] settled.outside
  rwa [freshOf_congr settled.seen] at met

private theorem numbers_extend (c : ObjectCollector) (found : List PlacedObject) :
    ObjectRecord.numbers (extend c found).records =
      ObjectRecord.numbers c.records ++ ids found := by
  simp [ObjectRecord.numbers, extend, ids, recordOf]

/-- A visit leaves a collector settled. -/
theorem Settled.visit (settled : Settled c) (visit : Visit) : Settled (c.visit visit) := by
  obtain ⟨distinct, new⟩ := new_freshOf (ObjectRecord.numbers c.records) (visit.forest [])
  rw [visit_eq settled]
  constructor
  · exact settled.outside
  · rw [numbers_extend]
    refine List.nodup_append.mpr ⟨settled.distinct, distinct, ?_⟩
    rintro id known _ met rfl
    exact new id met known
  · intro id
    rw [numbers_extend]
    simp [extend, settled.seen, or_comm]

/-- Some visits in turn. -/
theorem settled_foldl (settled : Settled c) (visits : List Visit) :
    Settled (visits.foldl ObjectCollector.visit c) := by
  induction visits generalizing c with
  | nil => exact settled
  | cons visit visits ih => exact ih (settled.visit visit)

theorem settled_new : Settled {} :=
  ⟨rfl, .nil, fun _ => Iff.rfl⟩

end Runs

/-- What a visit does: it comes back to the names that it set out from, and it adds the records of
the literals that it meets behind those that were there. Afterwards as before, the numbers in the
records are distinct and are the numbers seen. -/
structure Continues (before : ObjectCollector) (visit : Visit) (after : ObjectCollector) :
    Prop where
  names : after.names = before.names
  distinct : (ObjectRecord.numbers after.records).Nodup
  seen : ∀ id, id ∈ after.seen ↔ id ∈ ObjectRecord.numbers after.records
  added : after.records = before.records ++
    (freshOf (ObjectRecord.numbers before.records) (visit.forest [])).map recordOf
  inOrder : (freshOf (ObjectRecord.numbers before.records) (visit.forest [])).Sublist
    (allOf (visit.forest []))

/-- One collector may visit any trees in turn: every visit adds exactly the records of the
literals that a walk meets which passes over the numbers recorded so far. -/
theorem visits_accumulate (earlier : List Visit) (visit : Visit) :
    let before := earlier.foldl ObjectCollector.visit {}
    Continues before visit (before.visit visit) := by
  intro before
  have settled : Settled before := settled_foldl settled_new earlier
  have after := settled.visit visit
  have same := visit_eq settled visit
  constructor
  · rw [after.outside, settled.outside]
  · exact after.distinct
  · exact after.seen
  · rw [same]
    rfl
  · exact freshOf_sublist _ _

end Visits
end ImportAtlas
