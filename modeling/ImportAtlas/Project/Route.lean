import ImportAtlas.Project.Resolve
import ImportAtlas.Tree.Basic

/-! Routes of a module. The default export of a route module is an array of
objects, possibly through some bindings; each object with a path is a route. -/

namespace ImportAtlas

/-- A page: its path, its title, and the file of its component. -/
structure Route where
  path : String
  title : String
  component : Option Path
  /-- How the component's file is shown. -/
  display : Option String
  componentExists : Bool
  deriving DecidableEq, Repr, Inhabited

/-- What routes of a module may refer to: the values of its bindings and the
files behind its imported names. Later entries stand first. -/
structure RouteScope where
  resolver : Resolver
  files : Files
  module : Path
  bindings : List (String × Expr)
  components : List (String × Option Path)

namespace RouteScope

/-- The bindings of a statement that have a modelled value, in source order. -/
def bindingsOf : Statement → List (String × Expr)
  | .variableDeclaration declaration =>
    declaration.declarators.filterMap fun declarator =>
      declarator.init.map fun value => (declarator.name.name, value)
  | _ => []

/-- The names that a statement imports with the file behind them, in source order.
A name for all exports together is no component. -/
def componentsOf (resolver : Resolver) (files : Files) (module : Path) :
    Statement → List (String × Option Path)
  | .importDeclaration declaration =>
    match declaration.source with
    | none => []
    | some source =>
      let names := (declaration.specifiers.filter (·.kind ≠ .star)).map (·.bound.name)
      let file := resolver.component? files module source.unquoted
      (names.filter (· ≠ "")).map fun name => (name, file)
  | _ => []

/-- The scope of a module's routes. -/
def ofModule (resolver : Resolver) (files : Files) (path : Path) (tree : Module) : RouteScope :=
  { resolver, files, module := path
    bindings := (tree.body.flatMap bindingsOf).reverse
    components := (tree.body.flatMap (componentsOf resolver files path)).reverse }

/-- The file of a dynamic import of a literal source. -/
def importCall? (scope : RouteScope) : Expr → Option Path
  | .call _ callee arguments =>
    if callee.isDynamicImport then
      match arguments.head? with
      | some (.string source) =>
        scope.resolver.component? scope.files scope.module source.unquoted
      | _ => none
    else none
  | _ => none

/-- The file of a component that is loaded when it is needed: a dynamic import, or
an arrow function with one as its body. -/
def lazyComponent? (scope : RouteScope) : Expr → Option Path
  | .arrow _ _ (some body) _ => scope.importCall? body
  | value => scope.importCall? value

/-- The file behind an imported name. -/
def importedComponent? (scope : RouteScope) : Expr → Option Path
  | .identifier name => (scope.components.lookup name.name).join
  | _ => none

/-- The content of a literal. -/
def literal? : Expr → Option String
  | .string literal => some literal.unquoted
  | _ => none

/-- What has been found out about a route. -/
structure Draft where
  path : Option String := none
  title : Option String := none
  component : Option Path := none

/-- Takes a property of a route into account. A later property replaces an earlier
one, except that `component` only counts while no component is known. -/
def refine (scope : RouteScope) (draft : Draft) (property : Property) : Draft :=
  match property.name? with
  | some "path" => { draft with path := property.value.bind literal? }
  | some "title" => { draft with title := property.value.bind literal? }
  | some "lazy" => { draft with component := property.value.bind scope.lazyComponent? }
  | some "component" =>
    if draft.component.isNone then
      { draft with component := property.value.bind scope.importedComponent? }
    else draft
  | _ => draft

/-- The route of an object. Without a path there is none. -/
def route? (scope : RouteScope) (object : ObjectLiteral) : Option Route :=
  let draft := object.properties.foldl scope.refine {}
  draft.path.map fun path =>
    { path
      title := draft.title.getD ""
      component := draft.component
      display := draft.component.map scope.resolver.display
      componentExists := draft.component.any scope.files.has }

/-- The object literal that an expression is. -/
def object? : Expr → Option ObjectLiteral
  | .object literal => some literal
  | _ => none

/-- The routes of an array's elements. -/
def routesOfElements (scope : RouteScope) (elements : List Expr) : List Route :=
  (elements.filterMap object?).filterMap scope.route?

/-- The bindings other than one of a name. -/
def without (name : String) (bindings : List (String × Expr)) : List (String × Expr) :=
  bindings.filter (·.1 ≠ name)

/-- Without a variable that is there, fewer are left. -/
theorem length_without_lt (name : String) :
    ∀ bindings : List (String × Expr), (bindings.lookup name).isSome →
      (without name bindings).length < bindings.length
  | [], found => by simp at found
  | (other, value) :: rest, found => by
    by_cases same : other = name
    · have fewer := List.length_filter_le (fun entry => decide (entry.1 ≠ name)) rest
      simp only [without, List.filter_cons, same, ne_eq, not_true_eq_false, decide_false,
        Bool.false_eq_true, ↓reduceIte, List.length_cons]
      simp only [ne_eq] at fewer
      omega
    · have differs : (name == other) = false := by simpa using Ne.symm same
      have step : ((other, value) :: rest).lookup name =
          match name == other with
          | true => some value
          | false => rest.lookup name := rfl
      have fewer := length_without_lt name rest (by rw [step, differs] at found; exact found)
      simp only [without] at fewer
      simp only [without, List.filter_cons, same, ne_eq, not_false_eq_true, decide_true,
        ↓reduceIte, List.length_cons]
      simp only [ne_eq] at fewer
      omega

/-- The array that an expression stands for, through bindings. Each variable is
used once, so `unused` gets shorter; a name that is not in it is unknown or has
been used. -/
def elements? (unused : List (String × Expr)) : Expr → Option (List Expr)
  | .array _ elements => some elements
  | .identifier name =>
    match _found : unused.lookup name.name with
    | some value => elements? (without name.name unused) value
    | none => none
  | _ => none
termination_by unused.length
decreasing_by exact length_without_lt _ _ (by rw [_found]; rfl)

/-- The routes of an exported expression. -/
def routesOf (scope : RouteScope) (exported : Expr) : List Route :=
  scope.routesOfElements ((elements? scope.bindings exported).getD [])

end RouteScope

/-- The expressions that a module exports by default. -/
def Module.defaultExports (tree : Module) : List Expr :=
  tree.body.filterMap fun
    | .defaultExport declaration => declaration.value
    | _ => none

/-- The routes of a module. -/
def Module.routes (tree : Module) (path : Path) (resolver : Resolver) (files : Files) :
    List Route :=
  tree.defaultExports.flatMap (RouteScope.ofModule resolver files path tree).routesOf

end ImportAtlas
