import ImportAtlas.Proofs.Resolution

/-! Alias imports. An alias stands for the source directory, and counts as an import of the
project when a file is found for it. What is found lies below the source directory if the
rest of the source stays inside it; where that climbs out or starts at the root, the file
found lies elsewhere and still counts. -/
namespace ImportAtlas.Aliases
open ImportAtlas.Path PathForms Resolution Resolver

/-- A source starts with an alias. -/
def IsAlias (source : String) : Prop :=
  starts source "@" = true ∨ starts source "$src" = true

/-- What an alias leaves of a source, as a path from the source directory. -/
def remainder (source : String) : Path :=
  match source.toList with
  | '@' :: '/' :: rest => ⟨String.ofList rest⟩
  | '@' :: rest => ⟨String.ofList rest⟩
  | '$' :: 's' :: 'r' :: 'c' :: '/' :: rest => ⟨String.ofList rest⟩
  | _ => ⟨source⟩

/-- Where an alias leads. -/
def aliasPlace (r : Resolver) (source : String) : Path :=
  (r.src.join (remainder source)).normalize

/-- A path in normal form goes on below a directory in normal form. -/
def LiesBelow (directory p : Path) : Prop :=
  ∃ below, below ≠ [] ∧ normalized p.components = normalized directory.components ++ below

/-- A path in normal form is a way down from where it starts, and not an empty one. -/
def LeadsDown (p : Path) : Prop :=
  normalized p.components ≠ [] ∧ ∀ c ∈ normalized p.components, ∃ text, c = .name text

variable {root base found : Path} {config : Config} {files : Files} {source extension : String}

/-! The base path of an alias. -/

private theorem after?_eq_none {text word : String} (other : starts text word = false) :
    after? text word = none := by
  simp [after?, other]

private theorem after?_eq_some {text word : String} {rest : List Char}
    (same : text.toList = word.toList ++ rest) : after? text word = some (String.ofList rest) := by
  rw [after?, if_pos (starts_iff.mpr ⟨rest, same⟩), same, ← String.length_toList,
    List.drop_left]

private theorem first_of_alias (aliased : IsAlias source) :
    ∃ c rest, source.toList = c :: rest ∧ (c = '@' ∨ c = '$') := by
  rcases aliased with short | long
  · obtain ⟨rest, same⟩ := starts_iff.mp short
    exact ⟨_, _, same, .inl rfl⟩
  · obtain ⟨rest, same⟩ := starts_iff.mp long
    exact ⟨_, _, same, .inr rfl⟩

/-- An alias leads into the source directory, by the path that it leaves. -/
theorem fixedPath_of_alias (r : Resolver) (aliased : IsAlias source) :
    r.fixedPath source = r.src.join (remainder source) := by
  obtain ⟨c, others, first, mark⟩ := first_of_alias aliased
  have notRoot : after? source "/" = none :=
    after?_eq_none (starts_eq_false first rfl (by rcases mark with rfl | rfl <;> decide))
  have notSrc : starts source "src/" = false :=
    starts_eq_false first rfl (by rcases mark with rfl | rfl <;> decide)
  unfold remainder
  split
  · rename_i rest same
    rw [fixedPath, notRoot, notSrc, after?_eq_some same]
    rfl
  · rename_i rest notSlash same
    have notShort : starts source "@/" = false := by
      rw [Bool.eq_false_iff]
      intro slash
      obtain ⟨more, spelled⟩ := starts_iff.mp slash
      exact notSlash more (List.cons.inj (same.symm.trans spelled)).2
    have notLong : starts source "$src/" = false := starts_eq_false same rfl (by decide)
    -- No slash is left to be dropped.
    have kept : rest.dropWhile (· == '/') = rest := by
      cases rest with
      | nil => rfl
      | cons c more =>
        have other : c ≠ '/' := fun slash => notSlash more (by rw [slash])
        simp [other]
    rw [fixedPath, notRoot, notSrc, after?_eq_none notShort, after?_eq_none notLong,
      after?_eq_some same]
    simp [kept]
  · rename_i rest same
    rw [fixedPath, notRoot, notSrc, after?_eq_none (starts_eq_false same rfl (by decide)),
      after?_eq_some same]
    rfl
  · rename_i _ notAt notLong
    have dollar : c ≠ '@' := fun same => notAt others (by rw [first, same])
    have noSlash : starts source "$src/" = false := by
      rw [Bool.eq_false_iff]
      intro slash
      obtain ⟨more, same⟩ := starts_iff.mp slash
      exact notLong more same
    rw [fixedPath, notRoot, notSrc, after?_eq_none (starts_eq_false first rfl dollar),
      after?_eq_none noSlash, after?_eq_none (starts_eq_false first rfl dollar)]
    rfl

theorem basePath?_of_alias (r : Resolver) (importer : Path) (aliased : IsAlias source) :
    r.basePath? importer source = some (aliasPlace r source) := by
  obtain ⟨c, rest, first, mark⟩ := first_of_alias aliased
  have filled : source ≠ "" := by
    rintro rfl
    cases first
  have notPoint : c ≠ '.' := by rcases mark with rfl | rfl <;> decide
  have unmarked : isRelative source = false := by
    rw [isRelative, starts_eq_false first rfl notPoint, starts_eq_false first rfl notPoint]
    rfl
  rw [basePath?, if_neg filled, unmarked, fixedPath_of_alias r aliased]
  rfl

/-! Places below the source directory. -/

/-- An extension has no slash, and more characters than the two points of a step up. -/
theorem plain_of_extension (member : extension ∈ config.resolutionExtensions) :
    '/' ∉ extension.toList ∧ 2 < extension.length := by
  have all : ∀ extension ∈ [".tsx", ".ts", ".jsx", ".js", ".mjs", ".cjs"],
      '/' ∉ extension.toList ∧ 2 < extension.length := by decide
  refine all extension ?_
  unfold Config.resolutionExtensions at member
  grind

theorem isStep_append {text : String} (plain : '/' ∉ text.toList)
    (member : extension ∈ config.resolutionExtensions) : IsStep (.name (text ++ extension)) := by
  obtain ⟨noSlash, long⟩ := plain_of_extension member
  refine isStep_name ?_ ?_
  · simp [plain, noSlash]
  · rw [String.length_append]
    omega

/-- An extension changes the last component of a path, or is an entry of its own where there is
none. -/
theorem addSuffix_written {base : Path} (normal : base.normalize = base)
    (member : extension ∈ config.resolutionExtensions) :
    ∃ (front : List Component) (text : String),
      base.addSuffix extension = ofComponents (front ++ [Component.name text]) ∧
        Folded front.reverse ∧ Spelled (front ++ [Component.name text]) ∧
        (base.components = front ∧ (front = [] ∨ front = [.root]) ∨
          ∃ last, base.components = front ++ [last]) := by
  obtain ⟨plain, long⟩ := plain_of_extension member
  obtain ⟨written, folded⟩ := written_of_normal normal
  have spelled := spelled_components base
  by_cases noEntry : base.components = [] ∨ base.components = [.root]
  · refine ⟨base.components, extension, ?_, folded, spelled_concat base (isStep_name plain long),
      .inl ⟨rfl, noEntry⟩⟩
    rw [← written, components_ofComponents spelled]
    rcases noEntry with same | same
    all_goals
      rw [same]
      simp [addSuffix, ofComponents, Component.text]
  · obtain ⟨notEmpty, notRoot⟩ := not_or.mp noEntry
    obtain ⟨front, last, same⟩ := (List.eq_nil_or_concat' _).resolve_left notEmpty
    rw [same] at spelled folded notRoot written
    rw [List.reverse_append] at folded
    have inner : last ≠ .root := by
      rintro rfl
      have alone : front.reverse = [] := folded
      exact notRoot (by rw [List.reverse_eq_nil_iff.mp alone]; rfl)
    have moves : last ≠ .current := by
      rintro rfl
      exact folded.elim
    obtain ⟨isStep, replaced⟩ := spelled.replaceLast inner moves
    refine ⟨front, last.text ++ extension, ?_, folded.tail, ?_, .inr ⟨last, same⟩⟩
    · rw [← written]
      exact addSuffix_concat inner extension
    · exact replaced _ (isStep_append isStep.2 member)

theorem components_src (root : Path) (config : Config) :
    (ofProject root config).src.components =
      normalized root.components ++ [Component.name "src"] := by
  have isStep : IsStep (.name "src") := isStep_name (by decide) (by decide)
  rw [ofProject, components_join_name _ isStep, components_normalize]

theorem normalized_src (root : Path) (config : Config) :
    normalized (ofProject root config).src.components = (ofProject root config).src.components := by
  rw [components_src, normalized_concat_name, normalized_normalized]

section Place
variable {directory p q : Path} {cs : List Component} {c : Component}

/-- A path lies below the directories that lead to its last component. -/
theorem liesBelow_concat (same : normalized p.components = cs ++ [c]) :
    LiesBelow directory p ↔ normalized directory.components <+: cs := by
  rw [LiesBelow, same]
  constructor
  · rintro ⟨below, filled, parts⟩
    obtain ⟨front, last, rfl⟩ := (List.eq_nil_or_concat' below).resolve_left filled
    rw [← List.append_assoc] at parts
    exact ⟨front, (List.append_inj_left' parts rfl).symm⟩
  · rintro ⟨more, rfl⟩
    exact ⟨more ++ [c], by simp, List.append_assoc ..⟩

theorem prefix_of_liesBelow (below : LiesBelow directory p) :
    normalized directory.components <+: normalized p.components := by
  obtain ⟨rest, -, same⟩ := below
  exact ⟨rest, same.symm⟩

/-- A way down from a directory leads below it. -/
theorem liesBelow_join (down : LeadsDown q) : LiesBelow directory (directory.join q).normalize := by
  obtain ⟨filled, named⟩ := down
  have namedFold : ∀ c ∈ q.components.foldl Path.extend [], ∃ text, c = .name text :=
    fun c member => named c (List.mem_reverse.mpr member)
  have relative : q.isAbsolute = false := by
    by_contra absolute
    have root : Component.root ∈ q.components.foldl Path.extend [] := by
      rw [components_of_absolute (by simpa using absolute), List.foldl_cons]
      exact foldl_extend_keeps (List.mem_singleton.mpr rfl) (by simp)
    obtain ⟨text, other⟩ := namedFold _ root
    cases other
  refine ⟨normalized q.components, filled, ?_⟩
  rw [normalized_normalize, normalized, foldl_components_join _ relative,
    ← List.nil_append (directory.components.foldl _ _), foldl_extend_append _ namedFold,
    List.reverse_append]
  rfl

end Place

section Source
variable {b : Path}

private theorem src_mem (root : Path) (config : Config) :
    .name "src" ∈ normalized (ofProject root config).src.components := by
  simp [components_src, normalized_concat_name]

/-- An index file lies below the source directory if its directory does or is it. -/
theorem liesBelow_index (member : extension ∈ config.resolutionExtensions) :
    LiesBelow (ofProject root config).src (index b.normalize extension) ↔
      normalized (ofProject root config).src.components <+: normalized b.components := by
  have isStep : IsStep (.name ("index" ++ extension)) := isStep_append (by decide) member
  refine liesBelow_concat (c := .name ("index" ++ extension)) ?_
  rw [index, components_join_name _ isStep, normalized_concat_name, normalized_normalize]

/-- The source directory is neither the empty path nor the root, and so leads to neither. -/
private theorem outside_src {cs : List Component} (noEntry : cs = [] ∨ cs = [.root]) :
    ¬normalized (ofProject root config).src.components <+: cs := by
  intro below
  have inside := below.subset (src_mem root config)
  rcases noEntry with rfl | rfl
  all_goals simp at inside

/-- A path with an extension lies below the source directory if the path without it does. -/
theorem liesBelow_addSuffix (member : extension ∈ config.resolutionExtensions) :
    LiesBelow (ofProject root config).src (b.normalize.addSuffix extension) ↔
      LiesBelow (ofProject root config).src b.normalize := by
  have normal : b.normalize.normalize = b.normalize := congrArg ofComponents (normalized_normalize b)
  obtain ⟨front, text, written, folded, spelled, parts⟩ := addSuffix_written normal member
  rw [written, liesBelow_concat (normalized_written folded spelled)]
  rw [components_normalize, ← normalized_normalize] at parts
  rcases parts with ⟨same, noEntry⟩ | ⟨last, same⟩
  · have outside := @outside_src root config front noEntry
    exact iff_of_false outside fun below => outside (same ▸ prefix_of_liesBelow below)
  · rw [liesBelow_concat same]

/-- Where a candidate lies. -/
theorem liesBelow_of_mem
    (member : found ∈ candidates (ofProject root config) files b.normalize) :
    LiesBelow (ofProject root config).src found ↔
      LiesBelow (ofProject root config).src b.normalize ∨
        b.normalize.components = (ofProject root config).src.components ∧
          ∃ extension ∈ config.resolutionExtensions, found = index b.normalize extension := by
  have onlyIndex : b.normalize.components = (ofProject root config).src.components ∧
      (∃ extension ∈ config.resolutionExtensions, found = index b.normalize extension) →
        LiesBelow (ofProject root config).src found := by
    rintro ⟨same, extension, known, rfl⟩
    rw [components_normalize] at same
    exact (liesBelow_index known).mpr ⟨[], by rw [List.append_nil, same, normalized_src]⟩
  have place : found = b.normalize ∨
      (∃ extension ∈ config.resolutionExtensions, b.normalize.addSuffix extension = found) ∨
      ∃ extension ∈ config.resolutionExtensions, index b.normalize extension = found := by
    rcases List.mem_cons.mp member with same | later
    · exact .inl same
    · rcases List.mem_append.mp later with suffixed | indexed
      · exact .inr (.inl (List.mem_map.mp suffixed))
      · split at indexed
        · exact .inr (.inr (List.mem_map.mp indexed))
        · cases indexed
  rcases place with rfl | ⟨extension, known, rfl⟩ | ⟨extension, known, rfl⟩
  · exact ⟨.inl, fun either => either.elim id onlyIndex⟩
  · rw [liesBelow_addSuffix known] at onlyIndex ⊢
    exact ⟨.inl, fun either => either.elim id onlyIndex⟩
  · refine ⟨fun below => ?_, fun either => either.elim (fun below => ?_) onlyIndex⟩
    · obtain ⟨more, same⟩ := (liesBelow_index known).mp below
      by_cases nothing : more = []
      · subst nothing
        rw [List.append_nil, normalized_src] at same
        exact .inr ⟨(components_normalize b).trans same.symm, extension, known, rfl⟩
      · exact .inl ⟨more, nothing, (normalized_normalize b).trans same.symm⟩
    · have inBase := prefix_of_liesBelow below
      rw [normalized_normalize] at inBase
      exact (liesBelow_index known).mpr inBase

end Source

/-- What an alias import of the project stands for is the same file for every importing file.
It lies below the source directory if and only if the alias leads there, or to that directory
itself and the file is its index; and it does if the alias leaves a way down. -/
theorem alias_resolved (root : Path) (config : Config) (files : Files) (source : String)
    (aliased : IsAlias source)
    (counts : (ofProject root config).isProjectImport files source = true) :
    let r := ofProject root config
    ∃ found, files.isFile found = true ∧
      (∀ importer, r.resolve? files importer source = some found) ∧
      (LiesBelow r.src found ↔ LiesBelow r.src (aliasPlace r source) ∨
        (aliasPlace r source).components = r.src.components ∧
          ∃ extension ∈ config.resolutionExtensions,
            found = index (aliasPlace r source) extension) ∧
      (LeadsDown (remainder source) → LiesBelow r.src found) := by
  intro r
  have resolves (importer : Path) : r.resolve? files importer source =
      (candidates r files (aliasPlace r source)).find? files.isFile := by
    rw [resolve?, basePath?_of_alias r importer aliased, Option.bind_some, probe?_eq]
  have marked : (starts source "@" || starts source "$src") = true := by
    simpa [IsAlias] using aliased
  rw [isProjectImport, if_pos marked, resolves, Option.isSome_iff_exists] at counts
  obtain ⟨found, first⟩ := counts
  have place := liesBelow_of_mem (List.mem_of_find?_eq_some first)
  exact ⟨found, List.find?_some first, fun importer => (resolves importer).trans first, place,
    fun down => place.mpr (.inl (liesBelow_join down))⟩

/-- A project with a file beside its source directory. -/
def besides : Files where
  root := .directory [("app", .directory [("src", .directory []),
    ("lib", .directory [("x.js", .file default)])])]

/-- An alias that climbs out of the source directory counts as an import of the project. -/
theorem alias_resolved_outside :
    let r := ofProject ⟨"/app"⟩ {}
    IsAlias "@/../lib/x" ∧ r.isProjectImport besides "@/../lib/x" = true ∧
      ∃ found, besides.isFile found = true ∧
        (∀ importer, r.resolve? besides importer "@/../lib/x" = some found) ∧
        ¬LiesBelow r.src found := by
  intro r
  have aliased : IsAlias "@/../lib/x" := .inl (by decide)
  have counts : r.isProjectImport besides "@/../lib/x" = true := by decide
  obtain ⟨found, isFile, resolves, place, -⟩ :=
    alias_resolved ⟨"/app"⟩ {} besides "@/../lib/x" aliased counts
  have src : normalized r.src.components = [.root, .name "app", .name "src"] := by decide
  have outside : normalized (aliasPlace r "@/../lib/x").components =
      [.root, .name "app", .name "lib", .name "x"] := by decide
  refine ⟨aliased, counts, found, isFile, resolves, fun below => ?_⟩
  rcases place.mp below with ⟨rest, -, same⟩ | ⟨same, -⟩
  · rw [outside, src] at same
    simp at same
  · have normal := congrArg normalized same
    rw [outside, src] at normal
    simp at normal

end ImportAtlas.Aliases
