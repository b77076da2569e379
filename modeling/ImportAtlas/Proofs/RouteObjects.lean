import ImportAtlas.Project.Route

/-! Routes of objects. A route is read off an object property by property, and what a
property says about it does not depend on where the property stands, with one exception: a
`component` in front of a `lazy` is lost, even where the latter yields no file. -/
namespace ImportAtlas.RouteObjects
open RouteScope

/-- The names of an object's properties, as far as they are known. -/
def names (properties : List Property) : List String :=
  properties.filterMap Property.name?

/-- An object has a value under a key, wherever that stands. -/
def HasValue (object : ObjectLiteral) (key : String) (value : Expr) : Prop :=
  ∃ property ∈ object.properties, property.name? = some key ∧ property.value = some value

/-- An object has a literal with a content under a key. -/
def Says (object : ObjectLiteral) (key text : String) : Prop :=
  ∃ literal, HasValue object key (.string literal) ∧ literal.unquoted = text

/-- An expression is `import(source)`. -/
inductive Imports : Expr → StringLiteral → Prop where
  | call (span place : Span) (source : StringLiteral) (more : List Expr) :
      Imports (.call span (.dynamicImport place) (.string source :: more)) source

/-- An expression is `import(source)`, or an arrow function with that as its body. -/
inductive Loads : Expr → StringLiteral → Prop where
  | direct (imports : Imports value source) : Loads value source
  | arrow (span : Span) (params : List Identifier) (isAsync : Bool)
      (imports : Imports body source) : Loads (.arrow span params (some body) isAsync) source

/-- The dynamic import under `lazy` yields a file. -/
def LazyFile (scope : RouteScope) (object : ObjectLiteral) (file : Path) : Prop :=
  ∃ value source, HasValue object "lazy" value ∧ Loads value source ∧
    scope.resolver.component? scope.files scope.module source.unquoted = some file

/-- The name under `component` is bound to a file by an import. -/
def BoundFile (scope : RouteScope) (object : ObjectLiteral) (file : Path) : Prop :=
  ∃ name, HasValue object "component" (.identifier name) ∧
    scope.components.lookup name.name = some (some file)

/-- The `component` of an object stands in front of its `lazy`. -/
def ComponentFirst (object : ObjectLiteral) : Prop :=
  ["component", "lazy"].Sublist (names object.properties)

instance : Decidable (ComponentFirst object) :=
  inferInstanceAs (Decidable (List.Sublist _ _))

/-- What an object says about its route. The file under `lazy` comes before the one under
`component`, which counts only where it stands behind a `lazy` without a file. -/
structure Describes (scope : RouteScope) (object : ObjectLiteral) (route : Route) : Prop where
  path : Says object "path" route.path
  title : Says object "title" route.title ∨
    (∀ text, ¬Says object "title" text) ∧ route.title = ""
  component : ∀ file, route.component = some file ↔
    LazyFile scope object file ∨
      (∀ other, ¬LazyFile scope object other) ∧ BoundFile scope object file ∧
        ¬ComponentFirst object
  display : route.display = route.component.map scope.resolver.display
  componentExists : route.componentExists = route.component.any scope.files.has

/-- An object has a path and a component with a file, and its `lazy` yields none. -/
structure Undecided (scope : RouteScope) (object : ObjectLiteral) : Prop where
  path : ∃ path, Says object "path" path
  noLazy : ∀ file, ¬LazyFile scope object file
  bound : ∃ file, BoundFile scope object file

/-! One property. -/

/-- What the first property with a key says, as some reading understands it. -/
def reading (properties : List Property) (key : String) (read : Expr → Option α) : Option α :=
  (properties.find? (·.name? == some key)).bind fun property => property.value.bind read

section Distinct
variable {properties rest front back : List Property} {property : Property} {key : String}
  {read : Expr → Option α}

theorem reading_cons_same (same : property.name? = some key) :
    reading (property :: rest) key read = property.value.bind read := by
  simp [reading, same]

theorem reading_cons_other (differs : property.name? ≠ some key) :
    reading (property :: rest) key read = reading rest key read := by
  simp [reading, differs]

theorem mem_names : key ∈ names properties ↔ ∃ property ∈ properties, property.name? = some key :=
  List.mem_filterMap

theorem reading_absent (absent : key ∉ names properties) :
    reading properties key read = none := by
  have unfound : properties.find? (·.name? == some key) = none := by
    refine List.find?_eq_none.mpr fun property member found => absent ?_
    exact mem_names.mpr ⟨property, member, by simpa using found⟩
  rw [reading, unfound]
  rfl

theorem reading_append (absent : key ∉ names front) :
    reading (front ++ back) key read = reading back key read := by
  induction front with
  | nil => rfl
  | cons property rest ih =>
    have differs : property.name? ≠ some key := fun named =>
      absent (mem_names.mpr ⟨property, List.mem_cons_self, named⟩)
    rw [List.cons_append, reading_cons_other differs]
    refine ih fun later => absent ?_
    obtain ⟨other, member, named⟩ := mem_names.mp later
    exact mem_names.mpr ⟨other, List.mem_cons_of_mem _ member, named⟩

theorem names_cons (named : property.name? = some key) :
    names (property :: rest) = key :: names rest :=
  List.filterMap_cons_some named

theorem names_append (front back : List Property) :
    names (front ++ back) = names front ++ names back :=
  List.filterMap_append

/-- Of distinct names, one that a property has is not among the others. -/
private theorem not_mem_rest (distinct : (names (property :: rest)).Nodup)
    (named : property.name? = some key) : key ∉ names rest := by
  rw [names_cons named] at distinct
  exact (List.nodup_cons.mp distinct).1

private theorem distinct_rest (distinct : (names (property :: rest)).Nodup) :
    (names rest).Nodup :=
  distinct.sublist ((List.sublist_cons_self property rest).filterMap _)

/-- If the names are distinct, a reading depends on which properties there are and not on
their order. -/
theorem reading_eq_some (distinct : (names properties).Nodup) :
    reading properties key read = some x ↔
      ∃ property ∈ properties, property.name? = some key ∧ property.value.bind read = some x := by
  induction properties with
  | nil => simp [reading]
  | cons first rest ih =>
    by_cases same : first.name? = some key
    · rw [reading_cons_same same]
      constructor
      · exact fun found => ⟨first, List.mem_cons_self, same, found⟩
      · rintro ⟨property, member, named, found⟩
        rcases List.mem_cons.mp member with rfl | later
        · exact found
        · exact absurd (mem_names.mpr ⟨property, later, named⟩) (not_mem_rest distinct same)
    · rw [reading_cons_other same, ih (distinct_rest distinct)]
      simp [same]

end Distinct

theorem reading_iff_hasValue {object : ObjectLiteral} {read : Expr → Option α}
    (distinct : (names object.properties).Nodup) :
    reading object.properties key read = some x ↔
      ∃ value, HasValue object key value ∧ read value = some x := by
  simp only [reading_eq_some distinct, Option.bind_eq_some_iff, HasValue]
  constructor
  · rintro ⟨property, member, named, value, stands, found⟩
    exact ⟨value, ⟨property, member, named, stands⟩, found⟩
  · rintro ⟨value, ⟨property, member, named, stands⟩, found⟩
    exact ⟨property, member, named, value, stands, found⟩

/-! What the readings understand. -/

theorem literal?_eq_some : literal? value = some text ↔
    ∃ literal, value = .string literal ∧ literal.unquoted = text := by
  cases value with
  | string literal => simp [literal?]
  | _ => simp [literal?]

theorem importCall?_eq_some : importCall? scope value = some file ↔
    ∃ source, Imports value source ∧
      scope.resolver.component? scope.files scope.module source.unquoted = some file := by
  constructor
  · intro found
    unfold importCall? at found
    split at found
    · rename_i span callee arguments
      split at found
      · rename_i dynamic
        split at found
        · rename_i source first
          obtain ⟨place, rfl⟩ : ∃ place, callee = .dynamicImport place := by
            cases callee with
            | dynamicImport place => exact ⟨place, rfl⟩
            | _ => simp [Expr.isDynamicImport] at dynamic
          obtain ⟨more, rfl⟩ := List.head?_eq_some_iff.mp first
          exact ⟨source, .call .., found⟩
        · cases found
      · cases found
    · cases found
  · rintro ⟨source, imports, found⟩
    cases imports
    exact found

theorem lazyComponent?_eq_some : lazyComponent? scope value = some file ↔
    ∃ source, Loads value source ∧
      scope.resolver.component? scope.files scope.module source.unquoted = some file := by
  unfold lazyComponent?
  split
  · rename_i span params body isAsync
    rw [importCall?_eq_some]
    constructor
    · rintro ⟨source, imports, found⟩
      exact ⟨source, .arrow span params isAsync imports, found⟩
    · rintro ⟨source, loads, found⟩
      cases loads with
      | direct imports => cases imports
      | arrow span params isAsync imports => exact ⟨source, imports, found⟩
  · rename_i notArrow
    rw [importCall?_eq_some]
    constructor
    · rintro ⟨source, imports, found⟩
      exact ⟨source, .direct imports, found⟩
    · rintro ⟨source, imports | ⟨span, params, isAsync, imports⟩, found⟩
      · exact ⟨source, imports, found⟩
      · exact (notArrow _ _ _ _ rfl).elim

theorem importedComponent?_eq_some : importedComponent? scope value = some file ↔
    ∃ name, value = .identifier name ∧ scope.components.lookup name.name = some (some file) := by
  cases value with
  | identifier name => simp [importedComponent?, Option.join_eq_some_iff]
  | _ => simp [importedComponent?]

section Object
variable {scope : RouteScope} {object other : ObjectLiteral} {file : Path}

theorem says_iff (distinct : (names object.properties).Nodup) :
    reading object.properties key literal? = some text ↔ Says object key text := by
  rw [reading_iff_hasValue distinct, Says]
  simp only [literal?_eq_some]
  constructor
  · rintro ⟨_, has, literal, rfl, same⟩
    exact ⟨literal, has, same⟩
  · rintro ⟨literal, has, same⟩
    exact ⟨_, has, literal, rfl, same⟩

theorem lazyFile_iff (distinct : (names object.properties).Nodup) :
    reading object.properties "lazy" scope.lazyComponent? = some file ↔
      LazyFile scope object file := by
  rw [reading_iff_hasValue distinct, LazyFile]
  simp only [lazyComponent?_eq_some]
  constructor
  · rintro ⟨value, has, source, loads, found⟩
    exact ⟨value, source, has, loads, found⟩
  · rintro ⟨value, source, has, loads, found⟩
    exact ⟨value, has, source, loads, found⟩

theorem boundFile_iff (distinct : (names object.properties).Nodup) :
    reading object.properties "component" scope.importedComponent? = some file ↔
      BoundFile scope object file := by
  rw [reading_iff_hasValue distinct, BoundFile]
  simp only [importedComponent?_eq_some]
  constructor
  · rintro ⟨_, has, name, rfl, bound⟩
    exact ⟨name, has, bound⟩
  · rintro ⟨name, has, bound⟩
    exact ⟨_, has, name, rfl, bound⟩

end Object

/-! The properties one after another. -/

section Fold
variable {scope : RouteScope} {properties front back : List Property} {draft : Draft}

/-- A part of a draft that each property with a key replaces, and no other property
changes, is what the property with that key says. -/
private theorem foldl_field (part : Draft → Option α) {read : Expr → Option α}
    (step : ∀ draft property, part (scope.refine draft property) =
      if property.name? = some key then property.value.bind read else part draft)
    (distinct : (names properties).Nodup) :
    part (properties.foldl scope.refine draft) =
      if key ∈ names properties then reading properties key read else part draft := by
  induction properties generalizing draft with
  | nil => simp [names]
  | cons property rest ih =>
    rw [List.foldl_cons, ih (distinct_rest distinct), step]
    by_cases same : property.name? = some key
    · rw [if_neg (not_mem_rest distinct same), if_pos same, names_cons same,
        if_pos List.mem_cons_self, reading_cons_same same]
    · have elsewhere : key ∈ names (property :: rest) ↔ key ∈ names rest := by
        simp [mem_names, same]
      simp only [elsewhere, reading_cons_other same, if_neg same]

/-- Such a part of a draft that starts without a value. -/
private theorem foldl_field_none (part : Draft → Option α) {read : Expr → Option α}
    (step : ∀ draft property, part (scope.refine draft property) =
      if property.name? = some key then property.value.bind read else part draft)
    (distinct : (names properties).Nodup) (nothing : part draft = none) :
    part (properties.foldl scope.refine draft) = reading properties key read := by
  rw [foldl_field part step distinct]
  split
  · rfl
  · rename_i absent
    rw [nothing, reading_absent absent]

/-- The parts of a draft that are texts, with the names of their properties. -/
def IsText (key : String) (part : Draft → Option String) : Prop :=
  key = "path" ∧ part = Draft.path ∨ key = "title" ∧ part = Draft.title

theorem text_refine (isText : IsText key part) (draft : Draft) (property : Property) :
    part (scope.refine draft property) =
      if property.name? = some key then property.value.bind literal? else part draft := by
  rcases isText with ⟨rfl, rfl⟩ | ⟨rfl, rfl⟩
  all_goals
    unfold refine
    split
    case h_4 => split <;> simp_all
    all_goals simp_all

theorem component_refine (draft : Draft) (property : Property) :
    (scope.refine draft property).component =
      if property.name? = some "lazy" then property.value.bind scope.lazyComponent?
      else if property.name? = some "component" then
        draft.component.or (property.value.bind scope.importedComponent?)
      else draft.component := by
  unfold refine
  split
  case h_4 => cases known : draft.component <;> simp_all
  all_goals simp_all

/-- Without a `lazy`, the file of the `component` counts unless one is known. -/
private theorem component_foldl_noLazy (distinct : (names properties).Nodup)
    (noLazy : "lazy" ∉ names properties) :
    (properties.foldl scope.refine draft).component =
      draft.component.or (reading properties "component" scope.importedComponent?) := by
  induction properties generalizing draft with
  | nil => simp [reading]
  | cons property rest ih =>
    have notLazy : property.name? ≠ some "lazy" := fun named =>
      noLazy (mem_names.mpr ⟨property, List.mem_cons_self, named⟩)
    have noneLater : "lazy" ∉ names rest := fun later => by
      obtain ⟨property, member, named⟩ := mem_names.mp later
      exact noLazy (mem_names.mpr ⟨property, List.mem_cons_of_mem _ member, named⟩)
    rw [List.foldl_cons, ih (distinct_rest distinct) noneLater, component_refine, if_neg notLazy]
    by_cases same : property.name? = some "component"
    · rw [if_pos same, reading_cons_same same, reading_absent (not_mem_rest distinct same),
        Option.or_none]
    · rw [if_neg same, reading_cons_other same]

/-- Something stands in front of the last place of something else if it stands before
that place. -/
private theorem pair_sublist_iff {a b : α} {front back : List α} (differs : a ≠ b)
    (last : b ∉ back) : [a, b].Sublist (front ++ b :: back) ↔ a ∈ front := by
  induction front with
  | nil =>
    have absent : ¬[a, b].Sublist back := fun inBack => last (inBack.subset (by simp))
    simp [List.sublist_cons_iff, differs, absent]
  | cons c rest ih =>
    have starts : (∃ more, [a, b] = c :: more ∧ more.Sublist (rest ++ b :: back)) ↔ a = c := by
      constructor
      · rintro ⟨more, same, -⟩
        exact (List.cons.inj same).1
      · rintro rfl
        exact ⟨[b], rfl, by simp⟩
    rw [List.cons_append, List.sublist_cons_iff, ih, starts, List.mem_cons, or_comm]

/-- The file of an object's component: that of its `lazy` or else that of its `component`,
unless the `component` stands in front of the `lazy`. -/
def componentFile (scope : RouteScope) (object : ObjectLiteral) : Option Path :=
  (reading object.properties "lazy" scope.lazyComponent?).or
    (if ComponentFirst object then none
      else reading object.properties "component" scope.importedComponent?)

theorem component_foldl {object : ObjectLiteral} (distinct : (names object.properties).Nodup) :
    (object.properties.foldl scope.refine {}).component = componentFile scope object := by
  unfold componentFile
  by_cases hasLazy : "lazy" ∈ names object.properties
  · obtain ⟨property, member, named⟩ := mem_names.mp hasLazy
    obtain ⟨front, back, split⟩ := List.append_of_mem member
    have parts : names object.properties = names front ++ "lazy" :: names back := by
      rw [split, names_append, names_cons named]
    rw [parts] at distinct
    obtain ⟨-, distinctBehind, apart⟩ := List.nodup_append.mp distinct
    obtain ⟨notBehind, distinctBack⟩ := List.nodup_cons.mp distinctBehind
    have notBefore : "lazy" ∉ names front := fun before =>
      apart _ before _ List.mem_cons_self rfl
    have first : ComponentFirst object ↔ "component" ∈ names front := by
      rw [ComponentFirst, parts]
      exact pair_sublist_iff (by decide) notBehind
    have other : property.name? ≠ some "component" := by simp [named]
    rw [split, List.foldl_append, List.foldl_cons, component_foldl_noLazy distinctBack notBehind,
      component_refine, if_pos named, reading_append notBefore, reading_cons_same named]
    by_cases before : "component" ∈ names front
    · have notLater : "component" ∉ names back := fun later =>
        apart _ before _ (List.mem_cons_of_mem _ later) rfl
      rw [reading_absent notLater, if_pos (first.mpr before)]
    · rw [if_neg fun early => before (first.mp early), reading_append before, reading_cons_other other]
  · have notFirst : ¬ComponentFirst object := fun first => hasLazy (first.subset (by simp))
    rw [component_foldl_noLazy distinct hasLazy, reading_absent hasLazy, if_neg notFirst]

end Fold

section Order
variable {object other : ObjectLiteral}

theorem hasValue_perm (perm : object.properties.Perm other.properties) :
    HasValue object key value ↔ HasValue other key value := by
  simp only [HasValue, perm.mem_iff]

/-- With distinct names, a reading does not depend on the order of the properties. -/
theorem reading_perm {read : Expr → Option α} (distinct : (names object.properties).Nodup)
    (perm : object.properties.Perm other.properties) :
    reading other.properties key read = reading object.properties key read := by
  have alsoDistinct : (names other.properties).Nodup := (perm.filterMap _).nodup_iff.mp distinct
  refine Option.ext fun x => ?_
  rw [reading_iff_hasValue alsoDistinct, reading_iff_hasValue distinct]
  simp only [hasValue_perm perm]

/-- A choice between two values that depends on a condition only where the first one is
missing. -/
private theorem or_ite_inj {first second : Option α} {p q : Prop} [Decidable p] [Decidable q] :
    first.or (if p then none else second) = first.or (if q then none else second) ↔
      (first = none → second.isSome → (p ↔ q)) := by
  cases first with
  | some x => simp
  | none =>
    cases second with
    | none => simp
    | some y => by_cases p <;> by_cases q <;> simp_all

end Order

section Whole
variable {scope : RouteScope} {object other : ObjectLiteral}

/-- A route with all that follows from the file of its component. -/
def page (scope : RouteScope) (path title : String) (component : Option Path) : Route :=
  { path, title, component
    display := component.map scope.resolver.display
    componentExists := component.any scope.files.has }

theorem route?_eq (distinct : (names object.properties).Nodup) :
    scope.route? object = (reading object.properties "path" literal?).map fun path =>
      page scope path ((reading object.properties "title" literal?).getD "")
        (componentFile scope object) := by
  have path : (object.properties.foldl scope.refine {}).path = _ :=
    foldl_field_none Draft.path (text_refine (.inl ⟨rfl, rfl⟩)) distinct rfl
  have title : (object.properties.foldl scope.refine {}).title = _ :=
    foldl_field_none Draft.title (text_refine (.inr ⟨rfl, rfl⟩)) distinct rfl
  rw [route?, path, title, component_foldl distinct]
  rfl

theorem noLazy_iff (distinct : (names object.properties).Nodup) :
    reading object.properties "lazy" scope.lazyComponent? = none ↔
      ∀ file, ¬LazyFile scope object file := by
  simp only [Option.eq_none_iff_forall_ne_some, ne_eq, lazyFile_iff distinct]

theorem componentFile_eq_some (distinct : (names object.properties).Nodup) :
    componentFile scope object = some file ↔ LazyFile scope object file ∨
      (∀ other, ¬LazyFile scope object other) ∧ BoundFile scope object file ∧
        ¬ComponentFirst object := by
  rw [componentFile, Option.or_eq_some_iff, lazyFile_iff distinct, noLazy_iff distinct]
  by_cases first : ComponentFirst object
  · simp [first]
  · simp [first, boundFile_iff distinct]

/-- An object describes the page that is read off it, and no other. -/
theorem describes_iff (distinct : (names object.properties).Nodup) :
    Describes scope object route ↔ ∃ path, reading object.properties "path" literal? = some path ∧
      page scope path ((reading object.properties "title" literal?).getD "")
        (componentFile scope object) = route := by
  have titles {text : String} : reading object.properties "title" literal? = some text ↔
      Says object "title" text := says_iff distinct
  constructor
  · intro describes
    have title : (reading object.properties "title" literal?).getD "" = route.title := by
      rcases describes.title with said | ⟨unsaid, empty⟩
      · rw [titles.mpr said]
        rfl
      · have none : reading object.properties "title" literal? = none :=
          Option.eq_none_iff_forall_ne_some.mpr fun text said => unsaid text (titles.mp said)
        rw [none, empty]
        rfl
    have component : componentFile scope object = route.component := Option.ext fun file =>
      (componentFile_eq_some distinct).trans (describes.component file).symm
    refine ⟨route.path, (says_iff distinct).mpr describes.path, ?_⟩
    rw [title, component, page, ← describes.display, ← describes.componentExists]
  · rintro ⟨path, said, rfl⟩
    refine ⟨(says_iff distinct).mp said, ?_, fun file => componentFile_eq_some distinct, rfl, rfl⟩
    cases title : reading object.properties "title" literal? with
    | some text => exact .inl (titles.mp title)
    | none =>
      refine .inr ⟨fun text said => ?_, rfl⟩
      rw [titles.mpr said] at title
      cases title

/-- Two orders of the same properties give an object's component the same file unless only
one of them keeps it from being lost. -/
theorem componentFile_perm (distinct : (names object.properties).Nodup)
    (perm : object.properties.Perm other.properties) :
    componentFile scope other = componentFile scope object ↔
      ((∀ file, ¬LazyFile scope object file) → (∃ file, BoundFile scope object file) →
        (ComponentFirst other ↔ ComponentFirst object)) := by
  have bound : (reading object.properties "component" scope.importedComponent?).isSome ↔
      ∃ file, BoundFile scope object file := by
    simp only [Option.isSome_iff_exists, boundFile_iff distinct]
  rw [componentFile, componentFile, reading_perm distinct perm, reading_perm distinct perm,
    or_ite_inj, noLazy_iff distinct, bound]

end Whole

/-- With distinct names, the route of an object is the one that it describes, and another
order of the properties changes it only if it swaps a `lazy` without a file and a
`component` with one. -/
theorem route_described (scope : RouteScope) (object : ObjectLiteral)
    (distinct : (names object.properties).Nodup) :
    (∀ route, scope.route? object = some route ↔ Describes scope object route) ∧
    ∀ other : ObjectLiteral, object.properties.Perm other.properties →
      (scope.route? other = scope.route? object ↔
        (Undecided scope object → (ComponentFirst other ↔ ComponentFirst object))) := by
  refine ⟨fun route => ?_, fun other perm => ?_⟩
  · rw [route?_eq distinct, describes_iff distinct, Option.map_eq_some_iff]
  · have alsoDistinct : (names other.properties).Nodup := (perm.filterMap _).nodup_iff.mp distinct
    rw [route?_eq distinct, route?_eq alsoDistinct, reading_perm distinct perm,
      reading_perm distinct perm]
    cases said : reading object.properties "path" literal? with
    | none =>
      refine iff_of_true rfl fun undecided => ?_
      obtain ⟨path, known⟩ := undecided.path
      rw [(says_iff distinct).mpr known] at said
      cases said
    | some path =>
      have onlyComponent {first second : Option Path} {title : String} :
          some (page scope path title first) = some (page scope path title second) ↔
            first = second :=
        ⟨fun same => congrArg Route.component (Option.some.inj same), fun same => by rw [same]⟩
      rw [Option.map_some, Option.map_some, onlyComponent, componentFile_perm distinct perm]
      constructor
      · exact fun kept undecided => kept undecided.noLazy undecided.bound
      · exact fun kept noLazy bound => kept ⟨⟨path, (says_iff distinct).mp said⟩, noLazy, bound⟩

section Lost

/-- An ordinary property. -/
def entry (key : String) (value : Expr) : Property :=
  ⟨default, .identifier ⟨default, key⟩, some value, false, false, false⟩

def homeEntry : Property := entry "component" (.identifier ⟨default, "Home"⟩)
def pathEntry : Property := entry "path" (.string ⟨default, "'/'"⟩)
def loadEntry : Property := entry "lazy" (.identifier ⟨default, "load"⟩)

/-- The scope of a module that imports `Home`. -/
def homeScope : RouteScope where
  resolver := default
  files := default
  module := ⟨"/app/src/routes.js"⟩
  bindings := []
  components := [("Home", some ⟨"/app/src/Home.jsx"⟩)]

/-- A component in front of a `lazy` that is no dynamic import is lost, and behind it is not. -/
theorem route_described_lost :
    let object : ObjectLiteral := ⟨default, 0, [homeEntry, pathEntry, loadEntry]⟩
    let other : ObjectLiteral := ⟨default, 0, [loadEntry, pathEntry, homeEntry]⟩
    (names object.properties).Nodup ∧ object.properties.Perm other.properties ∧
      Undecided homeScope object ∧ homeScope.route? other ≠ homeScope.route? object := by
  intro object other
  have distinct : (names object.properties).Nodup := by decide
  have perm : object.properties.Perm other.properties := (List.reverse_perm _).symm
  have undecided : Undecided homeScope object := by
    refine ⟨⟨"/", (says_iff distinct).mp rfl⟩, fun file found => ?_,
      ⟨⟨"/app/src/Home.jsx"⟩, (boundFile_iff distinct).mp rfl⟩⟩
    cases (lazyFile_iff distinct).mpr found
  refine ⟨distinct, perm, undecided, fun same => ?_⟩
  have kept := ((route_described homeScope object distinct).2 other perm).mp same undecided
  exact absurd (kept.mpr (by decide)) (by decide)

end Lost
end ImportAtlas.RouteObjects
