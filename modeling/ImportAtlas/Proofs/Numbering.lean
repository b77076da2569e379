import ImportAtlas.Proofs.ModuleSpelling
import ImportAtlas.Tree.Walk

/-! The object literals of a module, in the order in which a walk meets them. Each of
them starts at an opening brace, and the braces stand in the same order among the
tokens. -/
namespace ImportAtlas

/-- The object literal that a node is, if it is one. -/
def Node.object? : Node → Option ObjectLiteral
  | compound (.object literal) => some literal
  | _ => none

/-- The object literals among some nodes. -/
def Node.objects (nodes : List Node) : List ObjectLiteral :=
  nodes.filterMap Node.object?

namespace Numbering
open Spelling

section Walks

theorem objects_append (before after : List Node) :
    Node.objects (before ++ after) = Node.objects before ++ Node.objects after :=
  List.filterMap_append ..

private theorem objects_identifiers (names : List Identifier) :
    Node.objects (names.map .identifier) = [] := by
  induction names with
  | nil => rfl
  | cons name names ih => exact ih

private theorem objects_key (key : PropertyKey) : Node.objects key.walk = [] := by
  cases key with
  | _ => rfl

@[simp] theorem objects_call (span : Span) (callee : Expr) (arguments : List Expr) :
    Node.objects (Expr.call span callee arguments).walk =
      Node.objects callee.walk ++ Node.objects (Expr.walkAll arguments) :=
  objects_append ..

@[simp] theorem objects_arrow (span : Span) (params : List Identifier) (body : Option Expr)
    (isAsync : Bool) :
    Node.objects (Expr.arrow span params body isAsync).walk =
      Node.objects (Expr.walkOption body) := by
  have split := objects_append (params.map .identifier) (Expr.walkOption body)
  rwa [objects_identifiers, List.nil_append] at split

@[simp] theorem objects_member (span : Span) (object : Expr) (property : Identifier)
    (computed : Bool) :
    Node.objects (Expr.member span object property computed).walk = Node.objects object.walk := by
  have split := objects_append object.walk [.identifier property]
  rwa [show Node.objects [.identifier property] = [] from rfl, List.append_nil] at split

@[simp] theorem objects_property (span : Span) (key : PropertyKey) (value : Option Expr)
    (shorthand computed method : Bool) :
    Node.objects (Property.walk ⟨span, key, value, shorthand, computed, method⟩) =
      if shorthand then [] else Node.objects (Expr.walkOption value) := by
  have split := objects_append key.walk (if shorthand then [] else Expr.walkOption value)
  rw [objects_key, List.nil_append] at split
  cases shorthand with
  | _ => exact split

private theorem objects_specifier (specifier : ImportSpecifier) : Node.objects specifier.walk = [] := by
  unfold ImportSpecifier.walk
  split
  · rfl
  · rfl

end Walks

/-- The literals start at opening braces of a run, in the order of the run. -/
def OpenedBy (run : List Token) (literals : List ObjectLiteral) : Prop :=
  ∃ braces : List Token, braces.Sublist run ∧ (∀ t ∈ braces, t.kind = .leftBrace) ∧
    literals.map (·.span.start) = braces.map (·.span.start)

private theorem opened_nil (run : List Token) : OpenedBy run [] :=
  ⟨[], List.nil_sublist run, by simp, rfl⟩

theorem OpenedBy.mono (opened : OpenedBy few literals) (fewer : few.Sublist run) :
    OpenedBy run literals := by
  obtain ⟨braces, sublist, kinds, same⟩ := opened
  exact ⟨braces, sublist.trans fewer, kinds, same⟩

theorem OpenedBy.cons (t : Token) (opened : OpenedBy run literals) :
    OpenedBy (t :: run) literals :=
  opened.mono (List.sublist_cons_self ..)

theorem OpenedBy.append (first : OpenedBy before xs) (second : OpenedBy after ys) :
    OpenedBy (before ++ after) (xs ++ ys) := by
  obtain ⟨braces, sublist, kinds, same⟩ := first
  obtain ⟨more, sublistMore, kindsMore, sameMore⟩ := second
  refine ⟨braces ++ more, sublist.append sublistMore, ?_, ?_⟩
  · intro t member
    rcases List.mem_append.mp member with member | member
    · exact kinds t member
    · exact kindsMore t member
  · rw [List.map_append, List.map_append, same, sameMore]

/-- The brace of a literal comes before the braces inside it. -/
private theorem opened_object {t last : Token} (opens : t.kind = .leftBrace)
    (inner : OpenedBy used literals) (n : Nat) (properties : List Property) :
    OpenedBy (t :: used) (⟨t.through last, n, properties⟩ :: literals) := by
  have first : OpenedBy [t] [⟨t.through last, n, properties⟩] :=
    ⟨[t], List.Sublist.refl _, by simp [opens], rfl⟩
  exact first.append inner

mutual

/-- The object literals of an expression are opened by the tokens that spell it. -/
theorem opened_of_spells : Spells t used n e m → OpenedBy (t :: used) (Node.objects e.walk)
  | .identifier | .string | .number | .dynamicImport => opened_nil _
  | .object opens _ members => opened_object opens (opened_of_members members) ..
  | .array _ items => (opened_of_items items).cons t
  | .member target => by
    rw [objects_member]
    exact (opened_of_spells target).mono (List.sublist_append_left ..)
  | .call callee _ items => by
    rw [objects_call]
    exact (opened_of_spells callee).append ((opened_of_items items).cons _)
  | .arrow _ _ _ => by
    rw [objects_arrow]
    exact opened_nil _
  | .arrowBody _ _ body => by
    rw [objects_arrow]
    exact (opened_of_spells body).mono (List.sublist_append_right (_ :: _) _)

theorem opened_of_items : SpellsItems run n es m → OpenedBy run (Node.objects (Expr.walkAll es))
  | .nil => opened_nil _
  | .skip _ more => (opened_of_items more).cons _
  | .item item more => by
    rw [Expr.walkAll, objects_append]
    exact (opened_of_spells item).append (opened_of_items more)

theorem opened_of_members :
    SpellsMembers run n ps m → OpenedBy run (Node.objects (Property.walkAll ps))
  | .nil => opened_nil _
  | .skip _ more => (opened_of_members more).cons _
  | .property property more => by
    rw [Property.walkAll, objects_append]
    exact (opened_of_property property).append (opened_of_members more)

theorem opened_of_property :
    SpellsProperty key used n p m → OpenedBy (key :: used) (Node.objects p.walk)
  | .shorthand | .method _ | .valueless _ _ => by
    rw [objects_property]
    exact opened_nil _
  | .value _ value => by
    rw [objects_property]
    exact ((opened_of_spells value).cons _).cons key

end

/-- What is opened one by one is opened in a list. -/
theorem opened_of_all {spells : Token → List Token → Nat → α → Nat → Prop} {walk : α → List Node}
    (spelled : SpellsAll spells run n xs m)
    (each : ∀ {t used n x m}, spells t used n x m → OpenedBy (t :: used) (Node.objects (walk x))) :
    OpenedBy run (Node.objects (xs.flatMap walk)) := by
  induction spelled with
  | nil => exact opened_nil _
  | skip _ _ ih => exact ih.cons _
  | cons first _ ih =>
    rw [List.flatMap_cons, objects_append]
    exact (each first).append ih

theorem opened_of_declarator :
    SpellsDeclarator t used n d m → OpenedBy (t :: used) (Node.objects d.walk)
  | .valueless _ _ => opened_nil _
  | .valued value _ => ((opened_of_spells value).cons _).cons t

private theorem objects_specifiers (specifiers : List ImportSpecifier) :
    Node.objects (specifiers.flatMap ImportSpecifier.walk) = [] := by
  induction specifiers with
  | nil => rfl
  | cons specifier specifiers ih =>
    rw [List.flatMap_cons, objects_append, objects_specifier, List.nil_append, ih]

/-- An import holds no object literals. -/
theorem objects_import (declaration : ImportDeclaration) :
    Node.objects (Statement.importDeclaration declaration).walk = [] := by
  obtain ⟨span, specifiers, source⟩ := declaration
  have split := objects_append (specifiers.flatMap ImportSpecifier.walk)
    (source.toList.map Node.string)
  have noSource : Node.objects (source.toList.map Node.string) = [] := by
    cases source with
    | _ => rfl
  rwa [objects_specifiers, noSource] at split

theorem opened_of_export :
    SpellsExport t used n d m → OpenedBy (t :: used) (Node.objects (Statement.defaultExport d).walk)
  | .valueless _ _ => opened_nil _
  | .valued value _ =>
    (((opened_of_spells value).mono (List.sublist_append_left ..)).cons _).cons t

theorem opened_of_statement :
    SpellsStatement t used n s m → OpenedBy (t :: used) (Node.objects s.walk)
  | .importDeclaration _ _ => by
    rw [objects_import]
    exact opened_nil _
  | .defaultExport _ spelled => opened_of_export spelled
  | .variableDeclaration _ (.declarators list _) =>
    (opened_of_all list opened_of_declarator).cons t

/-- The object literals of a module start at opening braces, in the order of these. -/
theorem opened_module (tokens : List Token) (importsOnly : Bool) :
    OpenedBy (Module.significant tokens) (Node.objects (Module.ofTokens tokens importsOnly).walk) := by
  obtain ⟨used, m, same, spelled⟩ := readBody_spells importsOnly (Module.significant tokens) 0
  have opened := opened_of_all spelled opened_of_statement
  have taken := List.sublist_append_left used
    (Module.readBody importsOnly (Module.significant tokens) 0).2
  rw [← same] at taken
  exact opened.mono taken

end Numbering
end ImportAtlas
