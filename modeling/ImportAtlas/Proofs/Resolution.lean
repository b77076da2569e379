import ImportAtlas.Project.Resolve
import ImportAtlas.Proofs.PathForms

/-! Relative imports. A base path is tried as it is, with each extension, and, if it is a
directory, with each of its index files; the first of these that is a file is what an import
stands for. The base path of a relative import lies where the importing file lies. -/
namespace ImportAtlas.Resolution
open ImportAtlas.Path PathForms Resolver

/-- The paths that a base path may stand for, in the order in which they are tried. -/
def candidates (r : Resolver) (files : Files) (base : Path) : List Path :=
  base :: (r.extensions.map base.addSuffix ++
    if files.isDirectory base then r.extensions.map (index base) else [])

/-- A path leads into a directory and then one step on. -/
def LiesIn (p directory : Path) : Prop :=
  ∃ last : Component, last ≠ .root ∧ p.components = directory.components ++ [last]

/-- The first component of a source is the current directory or the one above. -/
def RelativeSource (source : String) : Prop :=
  (Path.mk source).components.head? = some .current ∨
    (Path.mk source).components.head? = some .parent

/-- A source is the current directory or the one above, and nothing else. -/
def IsBare (source : String) : Prop :=
  source = "." ∨ source = ".."

instance : Decidable (IsBare source) :=
  inferInstanceAs (Decidable (_ ∨ _))

variable {r : Resolver} {files : Files} {base importer directory : Path} {source : String}

/-- Probing finds the first candidate that is a file. -/
theorem probe?_eq (r : Resolver) (files : Files) (base : Path) :
    r.probe? files base = (candidates r files base).find? files.isFile := by
  unfold probe? candidates
  rw [List.find?_cons, List.find?_append]
  cases isFile : files.isFile base with
  | true => rfl
  | false =>
    cases found : (r.extensions.map base.addSuffix).find? files.isFile with
    | some path => rfl
    | none =>
      cases files.isDirectory base with
      | true => rfl
      | false => rfl

/-! The spelling of relative sources. -/

theorem starts_iff {text word : String} :
    starts text word = true ↔ ∃ rest, text.toList = word.toList ++ rest := by
  rw [starts, List.isPrefixOf_iff_prefix]
  exact exists_congr fun rest => eq_comm

/-- A text does not start with a word that has another first character. -/
theorem starts_eq_false {text word : String} (first : text.toList = c :: rest)
    (spelled : word.toList = d :: more) (differs : c ≠ d) : starts text word = false := by
  rw [starts, first, spelled, List.isPrefixOf, beq_false_of_ne differs.symm]
  rfl

private theorem bare_or_marked {point : String} (first : (pieces source.toList).head? =
    some point.toList) : source = point ∨ starts source (point ++ "/") = true := by
  rcases first_piece first with alone | ⟨rest, more⟩
  · exact .inl (String.toList_inj.mp alone)
  · refine .inr (starts_iff.mpr ⟨rest, ?_⟩)
    rw [more, String.toList_append, List.append_assoc]
    rfl

/-- The sources with a relative first component are the two that are nothing else, and those
that go on after it with a slash. -/
theorem relativeSource_iff : RelativeSource source ↔ IsBare source ∨ isRelative source = true := by
  rw [isRelative, Bool.or_eq_true]
  constructor
  · rintro (current | parent)
    · exact (bare_or_marked (first_component current (by simp))).imp .inl .inl
    · exact (bare_or_marked (first_component parent (by simp))).imp .inr .inr
  · rintro ((rfl | rfl) | (current | parent))
    · exact .inl (by decide)
    · exact .inr (by decide)
    · obtain ⟨rest, same⟩ := starts_iff.mp current
      have text : source.toList = ['.'] ++ '/' :: rest := same
      refine .inl ?_
      rw [components_eq, text, start_append_of_ne_nil (List.cons_ne_nil '.' [])]
      rfl
    · obtain ⟨rest, same⟩ := starts_iff.mp parent
      have text : source.toList = ['.', '.'] ++ '/' :: rest := same
      refine .inr ?_
      rw [components_eq, text, start_append_of_ne_nil (List.cons_ne_nil '.' ['.']), steps_append]
      rfl

/-- A path that leads one step into a directory has it as its parent. -/
theorem parent?_of_liesIn (inside : LiesIn importer directory) :
    importer.parent? = some (ofComponents directory.components) := by
  obtain ⟨last, notRoot, same⟩ := inside
  unfold parent?
  rw [same, List.getLast?_concat, List.dropLast_concat]
  cases last with
  | root => exact absurd rfl notRoot
  | _ => rfl

/-! Resolving relative sources. -/

/-- The base path of a source that is marked as relative lies where the importing file lies. -/
theorem basePath?_of_marked (inside : LiesIn importer directory)
    (marked : isRelative source = true) :
    r.basePath? importer source = some (directory.join ⟨source⟩).normalize := by
  have filled : source ≠ "" := by
    rintro rfl
    exact absurd marked (by decide)
  rw [basePath?, if_neg filled, if_pos marked, relativePath, parent?_of_liesIn inside]
  exact congrArg some (normalize_join_congr (components_ofComponents (spelled_components _)))

/-- The base path of a source that is only the current directory or the one above lies in
the source directory. -/
theorem basePath?_of_bare (bare : IsBare source) :
    r.basePath? importer source = some (r.src.join ⟨source⟩).normalize := by
  rcases bare with rfl | rfl
  all_goals rfl

theorem isProjectImport_of_marked (marked : isRelative source = true) :
    r.isProjectImport files source = true := by
  obtain ⟨rest, first⟩ : ∃ rest, source.toList = '.' :: rest := by
    rw [isRelative, Bool.or_eq_true] at marked
    rcases marked with current | parent
    · obtain ⟨rest, same⟩ := starts_iff.mp current
      exact ⟨_, same⟩
    · obtain ⟨rest, same⟩ := starts_iff.mp parent
      exact ⟨_, same⟩
  rw [isProjectImport, starts_eq_false first rfl (by decide),
    starts_eq_false first rfl (by decide), marked]
  rfl

theorem isProjectImport_of_bare (bare : IsBare source) : r.isProjectImport files source = false := by
  rcases bare with rfl | rfl
  all_goals rfl

/-- A source with a relative first component is a project import, and stands for the first
candidate of its place in the importing file's directory that is a file, unless it has no
other component: then it is no project import, and its place is in the source directory. -/
theorem relative_resolved (r : Resolver) (files : Files) (importer directory : Path)
    (source : String) (inside : LiesIn importer directory) (relative : RelativeSource source) :
    (r.isProjectImport files source = true ↔ ¬IsBare source) ∧
    r.resolve? files importer source =
      (candidates r files
        ((if IsBare source then r.src else directory).join ⟨source⟩).normalize).find?
          files.isFile := by
  rw [resolve?]
  by_cases bare : IsBare source
  · rw [isProjectImport_of_bare bare, basePath?_of_bare bare, Option.bind_some, probe?_eq,
      if_pos bare]
    simp [bare]
  · have marked := (relativeSource_iff.mp relative).resolve_left bare
    rw [isProjectImport_of_marked marked, basePath?_of_marked inside marked, Option.bind_some,
      probe?_eq, if_neg bare]
    simp [bare]

/-- A project with one page, which is the index of its directory. -/
def onePage : Files where
  root := .directory [("app", .directory [("src", .directory [("pages", .directory
    [("index.js", .file default)])])])]

theorem relative_resolved_bare :
    let r := Resolver.ofProject ⟨"/app"⟩ {}
    LiesIn ⟨"/app/src/pages/Home.jsx"⟩ ⟨"/app/src/pages"⟩ ∧ RelativeSource "." ∧
      RelativeSource "./" ∧
      r.isProjectImport onePage "." = false ∧
      r.resolve? onePage ⟨"/app/src/pages/Home.jsx"⟩ "." = none ∧
      r.isProjectImport onePage "./" = true ∧
      r.resolve? onePage ⟨"/app/src/pages/Home.jsx"⟩ "./" =
        some ⟨"/app/src/pages/index.js"⟩ := by
  intro r
  have inside : LiesIn ⟨"/app/src/pages/Home.jsx"⟩ ⟨"/app/src/pages"⟩ :=
    ⟨.name "Home.jsx", by decide, by decide⟩
  have bare : RelativeSource "." := .inl (by decide)
  have marked : RelativeSource "./" := .inl (by decide)
  obtain ⟨bareCounts, bareFile⟩ := relative_resolved r onePage _ _ _ inside bare
  obtain ⟨markedCounts, markedFile⟩ := relative_resolved r onePage _ _ _ inside marked
  refine ⟨inside, bare, marked, ?_, ?_, ?_, ?_⟩
  · simpa [IsBare] using bareCounts
  · rw [bareFile]
    decide
  · exact markedCounts.mpr (by decide)
  · rw [markedFile]
    decide

end ImportAtlas.Resolution
