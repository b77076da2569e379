import Mathlib.Data.List.Induction
import Mathlib.Data.List.Nodup
import Mathlib.Data.List.Perm.Subperm
import ImportAtlas.Proofs.RouteObjects

/-! The array behind an exported expression. A module may export a name, whose value is
another name, and so on. Such a chain is followed until it comes to an array or cannot go
on, and no name is used twice on the way, so that names which are each other's values end
it like any other obstacle. -/
namespace ImportAtlas.RouteBindings
open RouteScope

/-- The declarators of a module in program order. -/
def declarators (tree : Module) : List VariableDeclarator :=
  tree.body.flatMap fun
    | .variableDeclaration declaration => declaration.declarators
    | _ => []

/-- The value of a name is the last one that a declarator of this name has. -/
def valueOf (tree : Module) (name : String) : Option Expr :=
  ((declarators tree).filterMap fun declarator =>
    if declarator.name.name = name then declarator.init else none).getLast?

/-- What the last of the properties called `path` says, if it is a literal. -/
def statedPath? (object : ObjectLiteral) : Option String :=
  (object.properties.filter (·.name? = some "path")).getLast?.bind fun property =>
    property.value.bind literal?

/-- A chain from an expression to another one, with the names on its way. -/
inductive Follows (bound : String → Option Expr) : List String → Expr → Expr → Prop where
  | here : Follows bound [] e e
  | through (binds : bound name.name = some value) (more : Follows bound names value last) :
      Follows bound (name.name :: names) (.identifier name) last

/-- A chain that has used some names cannot go on from an expression, and this is no array
either. -/
inductive Blocked (bound : String → Option Expr) (names : List String) : Expr → Prop where
  | unbound (nothing : bound name.name = none) : Blocked bound names (.identifier name)
  | again (used : name.name ∈ names) : Blocked bound names (.identifier name)
  | foreign (noArray : ∀ span elements, e ≠ .array span elements)
      (noName : ∀ name, e ≠ .identifier name) : Blocked bound names e

theorem Blocked.mono (blocked : Blocked bound names e) (more : names ⊆ names') :
    Blocked bound names' e := by
  cases blocked with
  | unbound nothing => exact .unbound nothing
  | again used => exact .again (more used)
  | foreign noArray noName => exact .foreign noArray noName

section Chains
variable {bound : String → Option Expr} {seen names : List String}
  {unused : List (String × Expr)} {exported last : Expr}

/-- The names of a chain have values. -/
theorem isSome_of_follows (follows : Follows bound names exported last) :
    ∀ name ∈ names, (bound name).isSome := by
  induction follows with
  | here => simp
  | through binds _ ih => exact List.forall_mem_cons.mpr ⟨by simp [binds], ih⟩

/-- Some bindings are left when some names have been used: those of all other names. -/
def Left (bound : String → Option Expr) (seen : List String) (unused : List (String × Expr)) :
    Prop :=
  ∀ name, unused.lookup name = if name ∈ seen then none else bound name

theorem lookup_without (used name : String) (bindings : List (String × Expr)) :
    (without used bindings).lookup name = if name = used then none else bindings.lookup name := by
  induction bindings with
  | nil => simp [without]
  | cons binding rest ih =>
    obtain ⟨other, value⟩ := binding
    rw [without] at ih ⊢
    rw [List.lookup_cons]
    by_cases dropped : other = used
    · rw [List.filter_cons_of_neg (by simp [dropped]), ih]
      by_cases same : name = used
      · rw [if_pos same, if_pos same]
      · have differs : (name == other) = false := by simpa [dropped] using same
        rw [differs]
    · rw [List.filter_cons_of_pos (by simp [dropped]), List.lookup_cons, ih]
      by_cases same : name = other
      · simp [same, dropped]
      · have differs : (name == other) = false := by simpa using same
        rw [differs]

theorem left_without (left : Left bound seen unused) (used : String) :
    Left bound (used :: seen) (without used unused) := by
  intro name
  rw [lookup_without, left name]
  by_cases same : name = used
  · simp [same]
  · simp [same]

theorem elements?_identifier (unused : List (String × Expr)) (name : Identifier) :
    elements? unused (.identifier name) =
      (unused.lookup name.name).bind (elements? (without name.name unused)) := by
  rw [elements?]
  split
  · rename_i value found
    rw [found, Option.bind_some]
  · rename_i missing
    rw [missing, Option.bind_none]

/-- An expression stands for the same array as the end of a chain from it, where the names
of the chain are not used again. -/
theorem elements?_follows (follows : Follows bound names exported last)
    (left : Left bound seen unused) (once : names.Nodup) (fresh : ∀ name ∈ names, name ∉ seen) :
    ∃ remaining, Left bound (names ++ seen) remaining ∧
      elements? unused exported = elements? remaining last := by
  induction follows generalizing seen unused with
  | here => exact ⟨unused, left, rfl⟩
  | @through value names last name binds _ ih =>
    obtain ⟨absent, once⟩ := List.nodup_cons.mp once
    obtain ⟨unseen, fresh⟩ := List.forall_mem_cons.mp fresh
    have found : unused.lookup name.name = some value := by
      rw [left name.name, if_neg unseen, binds]
    have stillFresh : ∀ other ∈ names, other ∉ name.name :: seen := by
      intro other listed used
      rcases List.mem_cons.mp used with rfl | earlier
      · exact absent listed
      · exact fresh other listed earlier
    obtain ⟨remaining, leftThere, same⟩ := ih (left_without left name.name) once stillFresh
    refine ⟨remaining, ?_, ?_⟩
    · intro other
      rw [leftThere other]
      simp [or_left_comm]
    · rw [elements?_identifier, found, Option.bind_some, same]

theorem elements?_blocked (blocked : Blocked bound seen exported)
    (left : Left bound seen unused) : elements? unused exported = none := by
  cases blocked with
  | @unbound name nothing =>
    rw [elements?_identifier, left name.name, nothing, ite_self, Option.bind_none]
  | @again name used => rw [elements?_identifier, left name.name, if_pos used, Option.bind_none]
  | foreign noArray noName =>
    rw [elements?]
    · exact noArray
    · exact noName

/-- A chain can be followed without using a name twice until it comes to an array or is
blocked. -/
theorem exists_end (left : Left bound seen unused) (exported : Expr) :
    ∃ names last, names.Nodup ∧ (∀ name ∈ names, name ∉ seen) ∧
      Follows bound names exported last ∧
      ((∃ span elements, last = .array span elements) ∨ Blocked bound (names ++ seen) last) := by
  fun_induction elements? unused exported generalizing seen with
  | case1 unused span elements =>
    exact ⟨[], _, .nil, by simp, .here, .inl ⟨span, elements, rfl⟩⟩
  | case2 unused name value found ih =>
    have known := (left name.name).symm.trans found
    split at known
    · cases known
    rename_i unseen
    obtain ⟨names, last, once, fresh, follows, ends⟩ := ih (left_without left name.name)
    refine ⟨name.name :: names, last, ?_, ?_, .through known follows, ends.imp_right ?_⟩
    · refine List.nodup_cons.mpr ⟨?_, once⟩
      exact fun listed => fresh _ listed List.mem_cons_self
    · refine List.forall_mem_cons.mpr ⟨unseen, ?_⟩
      exact fun other listed used => fresh other listed (List.mem_cons_of_mem _ used)
    · refine fun blocked => blocked.mono fun other => ?_
      simp [or_left_comm]
  | case3 unused name missing =>
    refine ⟨[], _, .nil, by simp, .here, .inr ?_⟩
    have unknown := (left name.name).symm.trans missing
    split at unknown
    · rename_i used
      exact .again used
    · exact .unbound unknown
  | case4 unused exported noArray noName =>
    exact ⟨[], _, .nil, by simp, .here, .inr (.foreign noArray noName)⟩

end Chains

section Modules
variable {tree : Module}

/-- The values of the names of a module, as its scope keeps them. -/
theorem lookup_bindings (resolver : Resolver) (files : Files) (path : Path) (tree : Module)
    (name : String) :
    (RouteScope.ofModule resolver files path tree).bindings.lookup name = valueOf tree name := by
  have bindings : tree.body.flatMap bindingsOf = (declarators tree).filterMap fun declarator =>
      declarator.init.map fun value => (declarator.name.name, value) := by
    rw [declarators, List.filterMap_flatMap]
    refine congrArg (tree.body.flatMap ·) (funext fun statement => ?_)
    cases statement with
    | _ => rfl
  rw [RouteScope.ofModule, List.lookup_eq_findSome?, ← List.getLast?_filterMap, bindings,
    List.filterMap_filterMap, valueOf]
  refine congrArg (fun read => ((declarators tree).filterMap read).getLast?)
    (funext fun declarator => ?_)
  cases declarator.init with
  | none => simp
  | some value => simp only [Option.map_some, Option.bind_some, beq_iff_eq, eq_comm (a := name)]

theorem left_bindings (resolver : Resolver) (files : Files) (path : Path) (tree : Module) :
    Left (valueOf tree) [] (RouteScope.ofModule resolver files path tree).bindings :=
  fun name => lookup_bindings resolver files path tree name

/-- A name with a value has a declarator. -/
theorem declared_of_isSome (known : (valueOf tree name).isSome) :
    name ∈ (declarators tree).map (·.name.name) := by
  obtain ⟨value, found⟩ := Option.isSome_iff_exists.mp known
  obtain ⟨declarator, listed, stated⟩ := List.mem_filterMap.mp (List.mem_of_getLast? found)
  split at stated
  · rename_i same
    exact List.mem_map.mpr ⟨declarator, listed, same⟩
  · cases stated

/-- A chain that uses no name twice is not longer than there are declarators. -/
theorem length_le_of_follows (once : names.Nodup)
    (follows : Follows (valueOf tree) names exported last) :
    names.length ≤ (declarators tree).length := by
  have declared : names ⊆ (declarators tree).map (·.name.name) :=
    fun name used => declared_of_isSome (isSome_of_follows follows name used)
  have shorter := (List.subperm_of_subset once declared).length_le
  rwa [List.length_map] at shorter

/-- The path that has been read after some properties is that of the last one called
`path`. -/
theorem path_foldl (scope : RouteScope) (properties : List Property) :
    (properties.foldl scope.refine {}).path =
      (properties.filter (·.name? = some "path")).getLast?.bind fun property =>
        property.value.bind literal? := by
  -- From the end, since the last property decides.
  induction properties using List.reverseRec with
  | nil => rfl
  | append_singleton properties property ih =>
    have step (draft : Draft) : (scope.refine draft property).path = _ :=
      RouteObjects.text_refine (.inl ⟨rfl, rfl⟩) draft property
    rw [List.foldl_concat, step, List.filter_append]
    by_cases named : property.name? = some "path"
    · simp [named]
    · simp [named, ih]

theorem path_route? (scope : RouteScope) (object : ObjectLiteral) :
    (scope.route? object).map Route.path = statedPath? object := by
  rw [route?, Option.map_map, statedPath?, ← path_foldl scope]
  exact Option.map_id'

theorem paths_of_elements (scope : RouteScope) (elements : List Expr) :
    (scope.routesOfElements elements).map Route.path =
      (elements.filterMap object?).filterMap statedPath? := by
  rw [routesOfElements, List.map_filterMap]
  exact congrArg (List.filterMap · _) (funext (path_route? scope))

/-- The routes of an expression are those of the array that a chain of names leads to. No
chain goes on for longer than there are declarators, and every one ends: at an array, or
where a name has no value or has been used, or at another kind of expression. There are no
routes in the latter cases. The routes of an array are those of its objects whose last
property called `path` is a literal, one each and in order, with its content as their path. -/
theorem routes_behind_names (resolver : Resolver) (files : Files) (path : Path) (tree : Module)
    (exported : Expr) :
    let scope := RouteScope.ofModule resolver files path tree
    let bound := valueOf tree
    (∀ names last, names.Nodup → Follows bound names exported last →
      names.length ≤ (declarators tree).length) ∧
    (∃ names last, names.Nodup ∧ Follows bound names exported last ∧
      ((∃ span elements, last = .array span elements) ∨ Blocked bound names last)) ∧
    (∀ names span elements, names.Nodup → Follows bound names exported (.array span elements) →
      scope.routesOf exported = scope.routesOfElements elements) ∧
    (∀ names last, names.Nodup → Follows bound names exported last → Blocked bound names last →
      scope.routesOf exported = []) ∧
    (∀ elements, (scope.routesOfElements elements).map Route.path =
      (elements.filterMap object?).filterMap statedPath?) := by
  intro scope bound
  have left : Left bound [] scope.bindings := left_bindings resolver files path tree
  refine ⟨fun names last => length_le_of_follows, ?_, ?_, ?_, paths_of_elements scope⟩
  · obtain ⟨names, last, once, -, follows, ends⟩ := exists_end left exported
    rw [List.append_nil] at ends
    exact ⟨names, last, once, follows, ends⟩
  · intro names span elements once follows
    obtain ⟨remaining, -, same⟩ := elements?_follows follows left once (by simp)
    rw [routesOf, same, elements?, Option.getD_some]
  · intro names last once follows blocked
    obtain ⟨remaining, leftThere, same⟩ := elements?_follows follows left once (by simp)
    rw [List.append_nil] at leftThere
    rw [routesOf, same, elements?_blocked blocked leftThere]
    rfl

end Modules
end ImportAtlas.RouteBindings
