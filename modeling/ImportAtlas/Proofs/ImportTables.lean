import Mathlib.Data.List.Induction
import Mathlib.Data.String.Basic
import ImportAtlas.Project.Scan

/-! What the relation of a file keeps of its import records. The table has one entry for every
source, with the names of all its records in their order, and the files are what the sources stand
for, each where it is first met. A query can be put to the relation instead of the records. -/
namespace ImportAtlas.ImportTables

/-- Entries in the strict order of their keys. -/
def Ascending {α : Type} (entries : List (String × α)) : Prop :=
  (entries.map Prod.fst).Pairwise (· < ·)

/-- The names that some records import from a source, record by record. -/
def namesFrom (source : String) (records : List ImportRecord) : List String :=
  (records.filter (·.source = source)).flatMap (·.names)

/-- Some names are among the wanted ones. Where no names are listed, any import is wanted. -/
def Wanted (wanted : Option (List String)) (names : List String) : Prop :=
  wanted = none ∨ ∃ listed ∈ wanted, ∃ name ∈ names, name ∈ listed

/-- Some record imports what a query asks for. -/
def Answers (q : ImportQuery) (records : List ImportRecord) : Prop :=
  ∃ record ∈ records, ∃ wanted ∈ q.sources.get? record.source, Wanted wanted record.names

/-- A file can be read, and its imports are what a query asks for. -/
def FileAnswers (files : Files) (q : ImportQuery) (path : Path) : Prop :=
  ∃ tree ∈ (files.readModule path true).toOption, Answers q tree.imports

instance (wanted : Option (List String)) (names : List String) : Decidable (Wanted wanted names) :=
  inferInstanceAs (Decidable (_ ∨ _))

instance (q : ImportQuery) (records : List ImportRecord) : Decidable (Answers q records) :=
  inferInstanceAs (Decidable (∃ record ∈ records, ∃ wanted ∈ q.sources.get? record.source,
    Wanted wanted record.names))

instance (files : Files) (q : ImportQuery) (path : Path) : Decidable (FileAnswers files q path) :=
  inferInstanceAs (Decidable (∃ tree ∈ (files.readModule path true).toOption,
    Answers q tree.imports))

/-! Tables. -/

section Table
variable {α : Type} {entries : List (String × α)} {key : String} {value : α}

theorem mem_keys_alterEntries (f : Option α → α) {k : String} :
    k ∈ (Table.alterEntries key f entries).map Prod.fst ↔ k = key ∨ k ∈ entries.map Prod.fst := by
  induction entries with
  | nil => simp [Table.alterEntries]
  | cons entry rest ih =>
    obtain ⟨first, value⟩ := entry
    rw [Table.alterEntries]
    split_ifs with same before
    · simp [same]
    · simp
    · rw [List.map_cons, List.mem_cons, ih, List.map_cons, List.mem_cons, or_left_comm]

theorem ascending_alterEntries (ascends : Ascending entries) (f : Option α → α) :
    Ascending (Table.alterEntries key f entries) := by
  induction entries with
  | nil => exact List.pairwise_singleton _ _
  | cons entry rest ih =>
    obtain ⟨first, value⟩ := entry
    obtain ⟨below, later⟩ := List.pairwise_cons.mp ascends
    rw [Table.alterEntries]
    split_ifs with same before
    · exact ascends
    · refine List.pairwise_cons.mpr ⟨?_, ascends⟩
      exact List.forall_mem_cons.mpr ⟨before, fun k member => lt_trans before (below k member)⟩
    · refine List.pairwise_cons.mpr ⟨fun k member => ?_, ih later⟩
      rcases (mem_keys_alterEntries f).mp member with rfl | old
      · exact lt_of_le_of_ne (le_of_not_gt before) (Ne.symm same)
      · exact below k old

/-- What is changed in a table is what stands under the key. -/
theorem lookup_alterEntries (ascends : Ascending entries) (f : Option α → α) (k : String) :
    (Table.alterEntries key f entries).lookup k =
      if k = key then some (f (entries.lookup key)) else entries.lookup k := by
  induction entries with
  | nil =>
    rw [Table.alterEntries, Table.lookup_cons]
    rfl
  | cons entry rest ih =>
    obtain ⟨first, value⟩ := entry
    obtain ⟨below, later⟩ := List.pairwise_cons.mp ascends
    rw [Table.alterEntries]
    by_cases same : key = first
    · subst same
      rw [if_pos rfl, Table.lookup_cons, Table.lookup_cons, Table.lookup_cons, if_pos rfl]
      split_ifs <;> rfl
    by_cases before : key < first
    · have missed : ((first, value) :: rest).lookup key = none := by
        refine List.lookup_eq_none_iff.mpr fun other member => ?_
        have above : key < other.1 := by
          rcases List.mem_cons.mp member with rfl | old
          · exact before
          · exact lt_trans before (below _ (List.mem_map_of_mem old))
        simpa using above.ne
      rw [if_neg same, if_pos before, Table.lookup_cons, missed]
    · rw [if_neg same, if_neg before, Table.lookup_cons, Table.lookup_cons, Table.lookup_cons,
        if_neg same, ih later]
      by_cases here : k = first
      · rw [if_pos here, if_neg fun other => same (other.symm.trans here), if_pos here]
      · rw [if_neg here, if_neg here]

theorem Ascending.distinct (ascends : Ascending entries) : (entries.map Prod.fst).Nodup :=
  ascends.imp fun before => before.ne

end Table

/-! The table of some records. -/

section Records
variable {records : List ImportRecord}

theorem ascending_importTable (records : List ImportRecord) :
    Ascending (FileRelation.importTable records).entries := by
  induction records using List.reverseRecOn with
  | nil => exact List.Pairwise.nil
  | append_singleton records record ih =>
    rw [FileRelation.importTable, List.foldl_append]
    exact ascending_alterEntries ih _

/-- Under every source of a record there are the names of all its records, and under any other
text nothing. -/
theorem get?_importTable (records : List ImportRecord) (source : String) :
    (FileRelation.importTable records).get? source =
      if source ∈ records.map (·.source) then some (namesFrom source records) else none := by
  induction records using List.reverseRecOn with
  | nil => rfl
  | append_singleton records record ih =>
    have step : (FileRelation.importTable (records ++ [record])).get? source =
        if source = record.source then
          some (((FileRelation.importTable records).get? record.source).getD [] ++ record.names)
        else (FileRelation.importTable records).get? source := by
      rw [FileRelation.importTable, List.foldl_append]
      exact lookup_alterEntries (ascending_importTable records) _ _
    have names : namesFrom source (records ++ [record]) =
        namesFrom source records ++ if record.source = source then record.names else [] := by
      rw [namesFrom, List.filter_append, List.flatMap_append]
      congr 1
      by_cases same : record.source = source <;> simp [same]
    rw [step, names]
    by_cases same : source = record.source
    · subst same
      rw [ih]
      by_cases known : record.source ∈ records.map (·.source)
      · simp [known]
      · have nothing : records.filter (·.source = record.source) = [] := by
          simpa using known
        simp [known, namesFrom, nothing]
    · rw [if_neg same, ih]
      simp [same, Ne.symm same]

theorem mem_importTable (records : List ImportRecord) (source : String) (names : List String) :
    (source, names) ∈ (FileRelation.importTable records).entries ↔
      source ∈ records.map (·.source) ∧ names = namesFrom source records := by
  rw [Table.mem_iff_lookup (ascending_importTable records).distinct]
  refine (Eq.congr_left (get?_importTable records source)).trans ?_
  split_ifs with known
  · simp [known, eq_comm]
  · simp [known]

theorem accepts_iff (q : ImportQuery) (source : String) (names : List String) :
    q.accepts source names = true ↔ ∃ wanted ∈ q.sources.get? source, Wanted wanted names := by
  rw [ImportQuery.accepts]
  cases q.sources.get? source with
  | none => simp
  | some wanted =>
    cases wanted with
    | none => simp [Wanted]
    | some listed => simp [Wanted]

/-- Names of a source are wanted if and only if those of one of its records are. -/
theorem wanted_namesFrom (wanted : Option (List String)) (source : String) :
    source ∈ records.map (·.source) ∧ Wanted wanted (namesFrom source records) ↔
      ∃ record ∈ records, record.source = source ∧ Wanted wanted record.names := by
  constructor
  · rintro ⟨known, rfl | ⟨listed, isListed, name, among, isWanted⟩⟩
    · obtain ⟨record, member, same⟩ := List.mem_map.mp known
      exact ⟨record, member, same, .inl rfl⟩
    · obtain ⟨record, kept, named⟩ := List.mem_flatMap.mp among
      obtain ⟨member, same⟩ := List.mem_filter.mp kept
      exact ⟨record, member, of_decide_eq_true same, .inr ⟨listed, isListed, name, named, isWanted⟩⟩
  · rintro ⟨record, member, rfl, isWanted⟩
    have kept : record ∈ records.filter (·.source = record.source) :=
      List.mem_filter.mpr ⟨member, decide_eq_true rfl⟩
    refine ⟨List.mem_map_of_mem member, isWanted.imp_right ?_⟩
    rintro ⟨listed, isListed, name, named, isWanted⟩
    exact ⟨listed, isListed, name, List.mem_flatMap.mpr ⟨record, kept, named⟩, isWanted⟩

/-- What a query asks for may be looked up in the table of the records. -/
theorem holds_iff (q : ImportQuery) (relation : FileRelation)
    (table : relation.imports = FileRelation.importTable records) :
    q.holds relation = true ↔ Answers q records := by
  rw [ImportQuery.holds, List.any_eq_true, table]
  constructor
  · rintro ⟨⟨source, names⟩, member, accepted⟩
    obtain ⟨known, rfl⟩ := (mem_importTable records source names).mp member
    obtain ⟨wanted, asked, isWanted⟩ := (accepts_iff q _ _).mp accepted
    obtain ⟨record, listed, rfl, named⟩ := (wanted_namesFrom wanted source).mp ⟨known, isWanted⟩
    exact ⟨record, listed, wanted, asked, named⟩
  · rintro ⟨record, listed, wanted, asked, named⟩
    obtain ⟨known, isWanted⟩ :=
      (wanted_namesFrom wanted record.source).mpr ⟨record, listed, rfl, named⟩
    exact ⟨_, (mem_importTable records _ _).mpr ⟨known, rfl⟩,
      (accepts_iff q _ _).mpr ⟨wanted, asked, isWanted⟩⟩

end Records

/-! Files of relations and answers of projects. -/

/-- Files are listed by their places, each by the path that names it first. -/
theorem foldl_addFile (paths : List Path) :
    paths.foldl FileRelation.addFile [] = paths.eraseDupsBy Path.same := by
  have loop (listed : List Path) : paths.foldl FileRelation.addFile listed.reverse =
      List.eraseDupsBy.loop Path.same paths listed := by
    induction paths generalizing listed with
    | nil => rfl
    | cons path paths ih =>
      have seen : listed.reverse.any (·.same path) = listed.any path.same := by
        rw [List.any_reverse]
        exact congrArg _ (funext fun other => by rw [Path.same, Path.same, BEq.comm])
      rw [List.foldl_cons, FileRelation.addFile, seen, List.eraseDupsBy.loop]
      cases listed.any path.same with
      | true => exact ih listed
      | false =>
        have next := ih (path :: listed)
        rw [List.reverse_cons] at next
        exact next
  exact loop []

theorem importedFiles_eq (p : Project) (files : Files) (importer : Path)
    (records : List ImportRecord) :
    p.importedFiles files importer records =
      ((records.filter fun r => p.resolver.isProjectImport files r.source).filterMap fun r =>
        p.resolver.resolve? files importer r.source).eraseDupsBy Path.same := by
  rw [Project.importedFiles, foldl_addFile, List.filter_map, List.filterMap_map]
  rfl

/-- Nothing answers the empty query, and any other is put to the relation of each file. -/
theorem find_eq (p : Project) (files : Files) (q : ImportQuery) :
    p.find files q = (p.sourceFiles files).filter fun path => FileAnswers files q path := by
  have scanned : ((p.relations files).filter q.holds).map (·.target) =
      (p.sourceFiles files).filter fun path => FileAnswers files q path := by
    rw [Project.relations, Project.imports]
    induction p.sourceFiles files with
    | nil => rfl
    | cons path paths ih =>
      rw [List.filterMap_cons, List.filter_cons]
      cases read : files.readModule path true with
      | error cause =>
        have silent : ¬FileAnswers files q path := by simp [FileAnswers, read, Except.toOption]
        simpa [silent] using ih
      | ok tree =>
        have answered : q.holds (p.relationOf files ⟨path, tree.imports⟩) = true ↔
            Answers q tree.imports := holds_iff q _ rfl
        have same : FileAnswers files q path ↔ Answers q tree.imports := by
          simp [FileAnswers, read, Except.toOption]
        rw [List.map_cons, List.filter_cons]
        by_cases holds : Answers q tree.imports
        · rw [if_pos (answered.mpr holds), if_pos (decide_eq_true (same.mpr holds)), List.map_cons, ih]
          rfl
        · rw [if_neg (mt answered.mp holds), if_neg (by simpa using mt same.mp holds), ih]
  rw [Project.find, scanned]
  split_ifs with empty
  · have nothing : q.sources.entries = [] := List.isEmpty_iff.mp empty
    have silent (path : Path) : ¬FileAnswers files q path := by
      simp [FileAnswers, Answers, Table.get?, nothing]
    simp [silent]
  · rfl

/-- The relation of a file keeps what its records say. Its table has the sources of the records as
its keys, in ascending order, and under each source the names of all its records in their order.
Its files are those that the project imports among the records stand for, in their order and each
where it is first met. A query holds of the relation if and only if some record answers it, and
the files that a query finds are the source files whose records answer it, in the order of the
scan. -/
theorem relation_keeps_records (p : Project) (files : Files) (file : FileImports) :
    let relation := p.relationOf files file
    (Ascending relation.imports.entries ∧
      ∀ source, relation.imports.get? source =
        if source ∈ file.records.map (·.source) then some (namesFrom source file.records)
        else none) ∧
    relation.files =
      ((file.records.filter fun r => p.resolver.isProjectImport files r.source).filterMap fun r =>
        p.resolver.resolve? files file.file r.source).eraseDupsBy Path.same ∧
    ∀ q : ImportQuery, (q.holds relation = true ↔ Answers q file.records) ∧
      p.find files q = (p.sourceFiles files).filter fun path => FileAnswers files q path := by
  intro relation
  exact ⟨⟨ascending_importTable _, get?_importTable _⟩, importedFiles_eq p files _ _,
    fun q => ⟨holds_iff q relation rfl, find_eq p files q⟩⟩

end ImportAtlas.ImportTables
