import Houdini.Vite.TaskDatabase

/-! What the steps of a hot reload leave in the tables, told without the numbers of the rows. -/

set_option autoImplicit false

namespace Houdini.Vite

open AutoTable (numbered)

namespace TaskDatabase

variable {db : TaskDatabase} {raw : Nat} {definition : Definition} {name : String}

def Holds (db : TaskDatabase) (raw : Nat) (definition : Definition) : Prop :=
  ∃ number, (number, ⟨raw, definition⟩) ∈ db.documents.entries

def Records (db : TaskDatabase) (raw : Nat) (definition : Definition) (name : String) : Prop :=
  ∃ number, (number, ⟨raw, definition⟩) ∈ db.documents.entries ∧
    { document := number, dependsOn := name } ∈ db.dependencies

theorem exists_mem_numbered {Row : Type} {next : Nat} {rows : List Row} {row : Row} :
    (∃ number, (number, row) ∈ numbered next rows) ↔ row ∈ rows := by
  constructor
  · rintro ⟨number, member⟩
    rw [← AutoTable.map_snd_numbered next rows]
    exact List.mem_map_of_mem member
  · intro member
    rw [← AutoTable.map_snd_numbered next rows] at member
    obtain ⟨entry, isEntry, rfl⟩ := List.mem_map.mp member
    exact ⟨entry.1, isEntry⟩

theorem exists_mem_insertAll {Row : Type} {table : AutoTable Row} {rows : List Row} {row : Row} :
    (∃ number, (number, row) ∈ (table.insertAll rows).entries) ↔
      (∃ number, (number, row) ∈ table.entries) ∨ row ∈ rows := by
  rw [← exists_mem_numbered, ← exists_or]
  exact exists_congr fun number => List.mem_append

theorem depends_next {number : Nat} {row : Dependency} {documents : List DocumentRow}
    {document : DocumentRow} (member : row ∈ db.dependencies)
    (added : (number, document) ∈ numbered db.documents.next documents) : row.document ≠ number := by
  intro same
  obtain ⟨entry, isEntry, number'⟩ := List.mem_map.mp (db.dependsFrom row member)
  have before := db.documents.below entry isEntry
  have after := (AutoTable.bounds_of_mem_numbered added).1
  simp only at after
  omega

theorem inTask_iff {task : Option String} {row : DocumentRow} :
    db.inTask task row = true ↔ ∃ entry ∈ db.taskRows task, entry.1 = row.rawDocument := by
  simp [inTask]

variable {reader : DocumentReader} {task : Option String}

theorem holds_loadDocuments : (db.loadDocuments reader task).Holds raw definition ↔
    db.Holds raw definition ∨ ∃ entry ∈ db.taskRows task, ⟨raw, definition⟩ ∈ reader.pending entry := by
  refine exists_mem_insertAll.trans (or_congr Iff.rfl ?_)
  exact List.mem_flatMap

theorem records_loadDocuments :
    (db.loadDocuments reader task).Records raw definition name ↔ db.Records raw definition name := by
  constructor
  · rintro ⟨number, member, depends⟩
    rcases List.mem_append.mp member with before | added
    · exact ⟨number, before, depends⟩
    · exact absurd rfl (@depends_next db _ _ _ _ depends added)
  · rintro ⟨number, member, depends⟩
    exact ⟨number, List.mem_append_left _ member, depends⟩

theorem records_loadDocumentDependencies :
    (db.loadDocumentDependencies task).Records raw definition name ↔
      db.Records raw definition name ∨ db.Holds raw definition ∧
        (∃ entry ∈ db.taskRows task, entry.1 = raw) ∧
          ∃ item ∈ definition.selections, name ∈ item.dependsOn db.componentFields := by
  constructor
  · rintro ⟨number, member, depends⟩
    rcases mem_foldl_insertDependency.mp depends with before | added
    · exact .inl ⟨number, member, before⟩
    · obtain ⟨entry, inTask, row⟩ := List.mem_flatMap.mp added
      obtain ⟨isEntry, isTask⟩ := List.mem_filter.mp inTask
      obtain ⟨item, selected, names⟩ := List.mem_flatMap.mp row
      obtain ⟨other, isName, same⟩ := List.mem_map.mp names
      obtain ⟨rfl, rfl⟩ := Dependency.mk.inj same
      have equal := db.documents.eq_of_mem isEntry member rfl
      rw [equal] at isTask selected
      exact .inr ⟨⟨_, member⟩, inTask_iff.mp isTask, item, selected, isName⟩
  · rintro (⟨number, member, depends⟩ | ⟨⟨number, member⟩, isTask, item, selected, isName⟩)
    · exact ⟨number, member, mem_foldl_insertDependency.mpr (.inl depends)⟩
    · refine ⟨number, member, mem_foldl_insertDependency.mpr (.inr ?_)⟩
      refine List.mem_flatMap.mpr ⟨_, List.mem_filter.mpr ⟨member, inTask_iff.mpr isTask⟩, ?_⟩
      exact List.mem_flatMap.mpr ⟨item, selected, List.mem_map_of_mem isName⟩

def providedField (definitions : List Definition) : Option (String × String) :=
  (definitions.filterMap fun definition =>
    definition.componentField.map fun typeField => (typeField, definition.name)).getLast?

def newFields (db : TaskDatabase) (reader : DocumentReader) (task : Option String) :
    List ComponentField :=
  (db.taskRows task).filterMap fun entry =>
    (providedField (reader.definitions entry.2.content)).map fun field =>
      { document := entry.1, typeField := field.1, fragment := field.2 }

/-- Nothing was loaded from the source strings of the task. -/
structure Fresh (db : TaskDatabase) (task : Option String) : Prop where
  unloaded : ∀ entry ∈ db.taskRows task, entry.2.loadedWith = none
  undefined : ∀ entry ∈ db.taskRows task, ∀ document ∈ db.documents.entries,
    document.2.rawDocument ≠ entry.1
  unprovided : ∀ entry ∈ db.taskRows task, ∀ row ∈ db.componentFields, row.document ≠ entry.1

theorem pending_eq {entry : Nat × RawDocument} (unloaded : entry.2.loadedWith = none) :
    reader.pending entry =
      (reader.definitions entry.2.content).map fun definition => ⟨entry.1, definition⟩ := by
  unfold DocumentReader.pending
  rw [unloaded, Option.getD_none]
  split
  · next empty => rw [← empty, reader.definitions_empty, List.map_nil]
  · rfl

theorem taskRows_loadDocuments :
    (db.loadDocuments reader task).taskRows task = (db.taskRows task).map fun entry =>
      (entry.1, { entry.2 with loadedWith := some entry.2.content }) := by
  unfold taskRows loadDocuments AutoTable.update
  rw [List.filter_map]
  refine Eq.trans (congrArg (List.map _) (List.filter_congr fun entry _ => ?_))
    (List.map_congr_left fun entry member => ?_)
  · simp only [Function.comp_apply]
    split <;> rfl
  · dsimp only
    rw [if_pos (List.mem_filter.mp member).2]

theorem filter_flatMap_of_nodup {entries : List (Nat × RawDocument)}
    (unique : (entries.map Prod.fst).Nodup) {entry : Nat × RawDocument} (member : entry ∈ entries)
    (rows : Nat × RawDocument → List DocumentRow)
    (own : ∀ other ∈ entries, ∀ row ∈ rows other, row.rawDocument = other.1) :
    (entries.flatMap rows).filter (fun row => row.rawDocument = entry.1) = rows entry := by
  induction entries with
  | nil => exact absurd member List.not_mem_nil
  | cons first rest ih =>
      rw [List.map_cons, List.nodup_cons] at unique
      obtain ⟨firstOwn, restOwn⟩ := List.forall_mem_cons.mp own
      rw [List.flatMap_cons, List.filter_append]
      rcases List.mem_cons.mp member with rfl | later
      · have all : (rows entry).filter (fun row => row.rawDocument = entry.1) = rows entry :=
          List.filter_eq_self.mpr fun row isRow => decide_eq_true (firstOwn row isRow)
        have none : (rest.flatMap rows).filter (fun row => row.rawDocument = entry.1) = [] := by
          refine List.filter_eq_nil_iff.mpr fun row isRow => ?_
          obtain ⟨other, isOther, ofOther⟩ := List.mem_flatMap.mp isRow
          rw [restOwn other isOther row ofOther, decide_eq_true_eq]
          intro same
          exact unique.1 (same ▸ List.mem_map_of_mem isOther)
        rw [all, none, List.append_nil]
      · have none : (rows first).filter (fun row => row.rawDocument = entry.1) = [] := by
          refine List.filter_eq_nil_iff.mpr fun row isRow => ?_
          rw [firstOwn row isRow, decide_eq_true_eq]
          intro same
          exact unique.1 (same ▸ List.mem_map_of_mem later)
        rw [none, List.nil_append, ih unique.2 later restOwn]

theorem nodup_taskRows (db : TaskDatabase) (task : Option String) :
    ((db.taskRows task).map Prod.fst).Nodup :=
  db.rawDocuments.unique.sublist (List.filter_sublist.map Prod.fst)

theorem loadedDefinitions (fresh : db.Fresh task) {entry : Nat × RawDocument}
    (member : entry ∈ db.taskRows task) :
    ((db.loadDocuments reader task).documents.entries.filter fun document =>
        document.2.rawDocument = entry.1).map (·.2.definition) =
      reader.definitions entry.2.content := by
  have old : (db.documents.entries.filter fun document => document.2.rawDocument = entry.1) = [] := by
    refine List.filter_eq_nil_iff.mpr fun document isDocument => ?_
    simpa using fresh.undefined entry member document isDocument
  have found := filter_flatMap_of_nodup (db.nodup_taskRows task) member reader.pending
    fun other isOther row isRow => by
      rw [pending_eq (fresh.unloaded other isOther)] at isRow
      obtain ⟨definition, _, rfl⟩ := List.mem_map.mp isRow
      rfl
  have rows : ((numbered db.documents.next ((db.taskRows task).flatMap reader.pending)).filter
      fun document => document.2.rawDocument = entry.1).map Prod.snd = reader.pending entry := by
    rw [← found]
    conv_rhs =>
      rw [← AutoTable.map_snd_numbered db.documents.next ((db.taskRows task).flatMap _),
        List.filter_map]
    rfl
  change List.map _ (List.filter _ (db.documents.entries ++ numbered _ _)) = _
  rw [List.filter_append, old, List.nil_append]
  have whole := congrArg (List.map DocumentRow.definition) rows
  rw [List.map_map] at whole
  refine whole.trans ?_
  rw [pending_eq (fresh.unloaded entry member), List.map_map]
  exact List.map_id _

theorem componentField?_loadDocuments (fresh : db.Fresh task) {entry : Nat × RawDocument}
    (member : entry ∈ db.taskRows task) :
    (db.loadDocuments reader task).componentField? entry.1 =
      (providedField (reader.definitions entry.2.content)).map fun field =>
        { document := entry.1, typeField := field.1, fragment := field.2 } := by
  unfold componentField? providedField
  rw [← loadedDefinitions fresh member, ← List.getLast?_map, List.filterMap_map, List.map_filterMap]
  congr 1
  refine List.filterMap_congr fun document _ => ?_
  simp only [Function.comp_apply, Option.map_map]
  rfl

theorem foldl_upsertComponentField {rows found : List ComponentField}
    (fields : ((rows ++ found).map ComponentField.typeField).Nodup)
    (documents : ((rows ++ found).map ComponentField.document).Nodup) :
    found.foldl upsertComponentField rows = rows ++ found := by
  induction found generalizing rows with
  | nil => rw [List.foldl_nil, List.append_nil]
  | cons first rest ih =>
      have kept : upsertComponentField rows first = rows ++ [first] := by
        unfold upsertComponentField
        congr 1
        refine List.filter_eq_self.mpr fun row member => ?_
        rw [List.map_append, List.nodup_append] at fields documents
        rw [decide_eq_true_eq]
        exact ⟨fields.2.2 _ (List.mem_map_of_mem member) _ (by simp),
          documents.2.2 _ (List.mem_map_of_mem member) _ (by simp)⟩
      rw [List.foldl_cons, kept, ih] <;> simp only [List.append_assoc, List.singleton_append]
      · exact fields
      · exact documents

theorem documents_sublist (entries : List (Nat × RawDocument))
    (provided : Nat × RawDocument → Option (String × String)) :
    ((entries.filterMap fun entry => (provided entry).map fun field =>
        ({ document := entry.1, typeField := field.1, fragment := field.2 } : ComponentField)).map
      ComponentField.document).Sublist (entries.map Prod.fst) := by
  induction entries with
  | nil => exact List.Sublist.refl _
  | cons first rest ih =>
      rw [List.map_cons]
      cases found : provided first with
      | none =>
          rw [List.filterMap_cons_none (by rw [found, Option.map_none])]
          exact ih.cons _
      | some field =>
          rw [List.filterMap_cons_some (by rw [found, Option.map_some]), List.map_cons]
          exact ih.cons_cons _

/-- No two component fields have one name, or one source string. -/
structure Unambiguous (db : TaskDatabase) (reader : DocumentReader) (task : Option String) :
    Prop where
  fields : ((db.componentFields ++ db.newFields reader task).map ComponentField.typeField).Nodup
  documents : (db.componentFields.map ComponentField.document).Nodup

theorem componentFields_writeMetadata (fresh : db.Fresh task)
    (unambiguous : db.Unambiguous reader task) :
    ((db.loadDocuments reader task).writeMetadata task).componentFields =
      db.componentFields ++ db.newFields reader task := by
  have found : ((db.loadDocuments reader task).taskRows task).filterMap
      (fun entry => (db.loadDocuments reader task).componentField? entry.1) =
        db.newFields reader task := by
    rw [taskRows_loadDocuments, List.filterMap_map]
    exact List.filterMap_congr fun entry member =>
      @componentField?_loadDocuments db reader task fresh entry member
  change List.foldl upsertComponentField db.componentFields (List.filterMap _ _) = _
  rw [found]
  refine foldl_upsertComponentField unambiguous.fields ?_
  rw [List.map_append, List.nodup_append]
  refine ⟨unambiguous.documents, (db.nodup_taskRows task).sublist (documents_sublist _ _), ?_⟩
  intro document old other new same
  obtain ⟨row, isRow, rfl⟩ := List.mem_map.mp old
  obtain ⟨added, isAdded, rfl⟩ := List.mem_map.mp new
  obtain ⟨entry, inTask, provides⟩ := List.mem_filterMap.mp isAdded
  obtain ⟨field, _, rfl⟩ := Option.map_eq_some_iff.mp provides
  exact fresh.unprovided entry inTask row isRow same

theorem holds_afterExtract (fresh : db.Fresh task) :
    (db.afterExtract reader task).Holds raw definition ↔ db.Holds raw definition ∨
      ∃ row, (raw, row) ∈ db.taskRows task ∧ definition ∈ reader.definitions row.content := by
  refine holds_loadDocuments.trans (or_congr Iff.rfl ?_)
  constructor
  · rintro ⟨entry, inTask, pending⟩
    rw [pending_eq (fresh.unloaded entry inTask)] at pending
    obtain ⟨found, isFound, same⟩ := List.mem_map.mp pending
    obtain ⟨rfl, rfl⟩ := DocumentRow.mk.inj same
    exact ⟨entry.2, inTask, isFound⟩
  · rintro ⟨row, inTask, isFound⟩
    refine ⟨_, inTask, ?_⟩
    rw [pending_eq (fresh.unloaded _ inTask)]
    exact List.mem_map_of_mem isFound

theorem records_afterExtract (fresh : db.Fresh task) (unambiguous : db.Unambiguous reader task) :
    (db.afterExtract reader task).Records raw definition name ↔
      db.Records raw definition name ∨
        ∃ row, (raw, row) ∈ db.taskRows task ∧ definition ∈ reader.definitions row.content ∧
          ∃ item ∈ definition.selections,
            name ∈ item.dependsOn (db.componentFields ++ db.newFields reader task) := by
  have rows : ((db.loadDocuments reader task).writeMetadata task).taskRows task =
      (db.loadDocuments reader task).taskRows task := rfl
  refine records_loadDocumentDependencies.trans (or_congr records_loadDocuments ?_)
  rw [componentFields_writeMetadata fresh unambiguous, rows, taskRows_loadDocuments]
  constructor
  · rintro ⟨holds, ⟨entry, inTask, rfl⟩, selects⟩
    obtain ⟨original, isTask, rfl⟩ := List.mem_map.mp inTask
    rcases holds_loadDocuments.mp holds with old | ⟨other, isOther, pending⟩
    · obtain ⟨number, isDocument⟩ := old
      exact absurd rfl (fresh.undefined original isTask _ isDocument)
    · rw [pending_eq (fresh.unloaded other isOther)] at pending
      obtain ⟨found, isFound, same⟩ := List.mem_map.mp pending
      obtain ⟨number, rfl⟩ := DocumentRow.mk.inj same
      have equal := List.inj_on_of_nodup_map (db.nodup_taskRows task) isOther isTask number
      rw [equal] at isFound
      exact ⟨original.2, isTask, isFound, selects⟩
  · rintro ⟨row, inTask, isFound, selects⟩
    refine ⟨holds_loadDocuments.mpr (.inr ⟨_, inTask, ?_⟩),
      ⟨_, List.mem_map_of_mem inTask, rfl⟩, selects⟩
    rw [pending_eq (fresh.unloaded _ inTask)]
    exact List.mem_map_of_mem isFound

theorem holds_insertDocuments {rows : List (DocumentRow × String)}
    {known : ∀ row ∈ rows, row.1.rawDocument ∈ db.rawDocuments.entries.map Prod.fst} :
    (db.insertDocuments rows known).Holds raw definition ↔
      db.Holds raw definition ∨ ∃ depends, (⟨raw, definition⟩, depends) ∈ rows := by
  refine exists_mem_insertAll.trans (or_congr Iff.rfl ?_)
  constructor
  · intro member
    obtain ⟨row, isRow, same⟩ := List.mem_map.mp member
    exact ⟨row.2, same ▸ isRow⟩
  · rintro ⟨depends, isRow⟩
    exact List.mem_map_of_mem isRow

theorem records_insertDocuments {rows : List (DocumentRow × String)}
    {known : ∀ row ∈ rows, row.1.rawDocument ∈ db.rawDocuments.entries.map Prod.fst} :
    (db.insertDocuments rows known).Records raw definition name ↔
      db.Records raw definition name ∨ (⟨raw, definition⟩, name) ∈ rows := by
  constructor
  · rintro ⟨number, member, depends⟩
    rcases List.mem_append.mp depends with before | added
    · rcases List.mem_append.mp member with older | new
      · exact .inl ⟨number, older, before⟩
      · exact absurd rfl (depends_next before new)
    · obtain ⟨entry, isEntry, same⟩ := List.mem_map.mp added
      obtain ⟨rfl, rfl⟩ := Dependency.mk.inj same
      rcases List.mem_append.mp member with older | new
      · have before := db.documents.below _ older
        have after := (AutoTable.bounds_of_mem_numbered isEntry).1
        simp only at before
        omega
      · rw [AutoTable.numbered_map] at new
        obtain ⟨other, isOther, equal⟩ := List.mem_map.mp new
        obtain ⟨sameNumber, sameRow⟩ := Prod.mk.inj equal
        have unique := List.inj_on_of_nodup_map (AutoTable.nodup_numbered _ rows) isOther isEntry
          sameNumber
        refine .inr ?_
        rw [← sameRow, unique]
        exact exists_mem_numbered.mp ⟨_, isEntry⟩
  · rintro (⟨number, member, depends⟩ | isRow)
    · exact ⟨number, List.mem_append_left _ member, List.mem_append_left _ depends⟩
    · obtain ⟨number, isEntry⟩ := exists_mem_numbered.mpr isRow
      refine ⟨number, List.mem_append_right _ ?_, List.mem_append_right _ ?_⟩
      · rw [AutoTable.numbered_map]
        exact List.mem_map.mpr ⟨_, isEntry, rfl⟩
      · exact List.mem_map.mpr ⟨_, isEntry, rfl⟩

def IsGone (db : TaskDatabase) (files : List String) (raw : Nat) : Prop :=
  ∃ row, (raw, row) ∈ db.rawDocuments.entries ∧ row.filepath ∈ files

theorem mem_gone_iff {files : List String} :
    raw ∈ (db.rawDocuments.entries.filter (isInFiles files)).map Prod.fst ↔
      db.IsGone files raw := by
  constructor
  · intro member
    obtain ⟨entry, isEntry, rfl⟩ := List.mem_map.mp member
    obtain ⟨known, isIn⟩ := List.mem_filter.mp isEntry
    exact ⟨entry.2, known, of_decide_eq_true isIn⟩
  · rintro ⟨row, known, isIn⟩
    exact List.mem_map.mpr ⟨_, List.mem_filter.mpr ⟨known, decide_eq_true isIn⟩, rfl⟩

theorem mem_documents_deleteFiles {files : List String} {entry : Nat × DocumentRow} :
    entry ∈ (db.deleteFiles files).documents.entries ↔
      entry ∈ db.documents.entries ∧ ¬ db.IsGone files entry.2.rawDocument := by
  unfold deleteFiles AutoTable.filter
  rw [List.mem_filter, decide_eq_true_eq, mem_gone_iff]

theorem records_deleteFiles {files : List String} :
    (db.deleteFiles files).Records raw definition name ↔
      db.Records raw definition name ∧ ¬ db.IsGone files raw := by
  constructor
  · rintro ⟨number, member, depends⟩
    obtain ⟨known, stays⟩ := mem_documents_deleteFiles.mp member
    exact ⟨⟨number, known, List.mem_of_mem_filter depends⟩, stays⟩
  · rintro ⟨⟨number, member, depends⟩, stays⟩
    refine ⟨number, mem_documents_deleteFiles.mpr ⟨member, stays⟩, List.mem_filter.mpr ⟨depends, ?_⟩⟩
    rw [decide_eq_true_eq]
    intro lost
    obtain ⟨entry, isEntry, same⟩ := List.mem_map.mp lost
    obtain ⟨known, isGone⟩ := List.mem_filter.mp isEntry
    have equal := db.documents.eq_of_mem known member same
    rw [equal, decide_eq_true_eq] at isGone
    exact stays (mem_gone_iff.mp isGone)

theorem find?_eq_none_iff :
    db.find? name = none ↔ ∀ raw definition, db.Holds raw definition → definition.name ≠ name := by
  rw [find?, Option.map_eq_none_iff, List.find?_eq_none]
  constructor
  · rintro absent raw definition ⟨number, member⟩ same
    exact absent _ member (decide_eq_true same)
  · intro absent entry member same
    exact absent entry.2.rawDocument entry.2.definition ⟨entry.1, member⟩ (of_decide_eq_true same)

theorem mem_firstOfEach {Row Key : Type} [DecidableEq Key] {key : Row → Key} {rows : List Row}
    {row : Row} (member : row ∈ rows) (alone : ∀ other ∈ rows, key other = key row → other = row) :
    row ∈ firstOfEach key rows := by
  induction rows with
  | nil => exact absurd member List.not_mem_nil
  | cons first rest ih =>
      rw [firstOfEach]
      by_cases isFirst : first = row
      · rw [isFirst]
        exact List.mem_cons_self
      · refine List.mem_cons_of_mem _ (List.mem_filter.mpr ⟨ih ?_ ?_, ?_⟩)
        · exact (List.mem_cons.mp member).resolve_left fun same => isFirst same.symm
        · exact fun other later => alone other (List.mem_cons_of_mem _ later)
        · rw [decide_eq_true_eq]
          exact fun same => isFirst (alone first List.mem_cons_self same.symm)

def DistinctLists (db : TaskDatabase) : Prop :=
  ∀ ⦃found other : DocumentRow × DiscoveredList⦄,
    db.Holds found.1.rawDocument found.1.definition → found.2 ∈ found.1.definition.lists →
    db.Holds other.1.rawDocument other.1.definition → other.2 ∈ other.1.definition.lists →
    found.2.name ≠ "" → other.2.name = found.2.name → other = found

theorem inTask_none (db : TaskDatabase) {number : Nat} {row : DocumentRow}
    (member : (number, row) ∈ db.documents.entries) : db.inTask none row = true := by
  obtain ⟨entry, isEntry, same⟩ := List.mem_map.mp (db.loadedFrom _ member)
  refine inTask_iff.mpr ⟨entry, List.mem_filter.mpr ⟨isEntry, ?_⟩, same⟩
  simp [RawDocument.inTask]

theorem mem_listsWithout_of_distinct {suffix : String} {documents : List (Nat × DocumentRow)}
    {Key : Type} [DecidableEq Key] {key : DocumentRow × DiscoveredList → Key}
    (distinct : db.DistinctLists) (within : documents ⊆ db.documents.entries)
    (named : ∀ found other, key other = key found → other.2.name = found.2.name)
    {found : DocumentRow × DiscoveredList} :
    found ∈ firstOfEach key (db.listsWithout suffix documents) ↔
      (∃ number, (number, found.1) ∈ documents) ∧ found.2 ∈ found.1.definition.lists ∧
        found.2.name ≠ "" ∧ db.find? (found.2.name ++ suffix) = none := by
  constructor
  · exact fun member => mem_listsWithout.mp (firstOfEach_subset _ _ member)
  · intro isList
    refine mem_firstOfEach (mem_listsWithout.mpr isList) fun other isOther same => ?_
    obtain ⟨⟨number, isDocument⟩, inLists, isNamed, _⟩ := isList
    obtain ⟨⟨otherNumber, otherDocument⟩, otherInLists, _⟩ := mem_listsWithout.mp isOther
    exact distinct ⟨number, within isDocument⟩ inLists ⟨otherNumber, within otherDocument⟩
      otherInLists isNamed (named _ _ same)

def copiedSuffixes : List String := [insertSuffix, toggleSuffix, upsertSuffix, updateSuffix]

theorem mem_copiedOperations (distinct : db.DistinctLists) {row : DocumentRow} {depends : String} :
    (row, depends) ∈ db.copiedOperations none ↔
      ∃ raw definition list, db.Holds raw definition ∧ definition.isFragment = false ∧
        list ∈ definition.lists ∧ list.name ≠ "" ∧ db.find? (list.name ++ toggleSuffix) = none ∧
          depends = definition.name ∧ ∃ suffix ∈ copiedSuffixes,
            row = operationDocument (⟨raw, definition⟩, list) suffix list.node := by
  unfold copiedOperations
  rw [List.mem_flatMap]
  constructor
  · rintro ⟨⟨⟨raw, definition⟩, list⟩, isFound, copies⟩
    obtain ⟨⟨number, document⟩, isList, named, new⟩ :=
      mem_listsWithout.mp (firstOfEach_subset _ _ isFound)
    obtain ⟨isDocument, passes⟩ := List.mem_filter.mp document
    obtain ⟨suffix, isSuffix, same⟩ := List.mem_map.mp copies
    obtain ⟨rfl, rfl⟩ := Prod.mk.inj same
    rw [Bool.and_eq_true, Bool.not_eq_true'] at passes
    exact ⟨raw, definition, list, ⟨number, isDocument⟩, passes.1, isList, named, new, rfl, suffix,
      isSuffix, rfl⟩
  · rintro ⟨raw, definition, list, ⟨number, isDocument⟩, operation, isList, named, new, rfl, suffix,
      isSuffix, rfl⟩
    refine ⟨(⟨raw, definition⟩, list), (mem_listsWithout_of_distinct distinct
      (fun _ => List.mem_of_mem_filter) fun _ _ same => same).mpr ⟨⟨number, ?_⟩, isList, named, new⟩,
      List.mem_map.mpr ⟨suffix, isSuffix, rfl⟩⟩
    refine List.mem_filter.mpr ⟨isDocument, ?_⟩
    rw [db.inTask_none isDocument, operation]
    rfl

theorem mem_removeOperations (distinct : db.DistinctLists) {row : DocumentRow} {depends : String} :
    (row, depends) ∈ db.removeOperations none ↔
      ∃ raw definition list, db.Holds raw definition ∧ list ∈ definition.lists ∧ list.name ≠ "" ∧
        db.find? (list.name ++ removeSuffix) = none ∧ depends = "" ∧
          row = operationDocument (⟨raw, definition⟩, list) removeSuffix
            ((list.keys ++ ["__typename"]).map fun key =>
              SelectedItem.field key (list.nodeType ++ "." ++ key)) := by
  unfold removeOperations
  rw [List.mem_map]
  constructor
  · rintro ⟨⟨⟨raw, definition⟩, list⟩, isFound, same⟩
    obtain ⟨⟨number, document⟩, isList, named, new⟩ :=
      mem_listsWithout.mp (firstOfEach_subset _ _ isFound)
    obtain ⟨rfl, rfl⟩ := Prod.mk.inj same
    refine ⟨raw, definition, list, ⟨number, List.mem_of_mem_filter document⟩, isList, named, new,
      ?_, rfl⟩
    rw [new]
    rfl
  · rintro ⟨raw, definition, list, ⟨number, isDocument⟩, isList, named, new, rfl, rfl⟩
    refine ⟨(⟨raw, definition⟩, list), (mem_listsWithout_of_distinct distinct
      (fun _ => List.mem_of_mem_filter) fun _ _ same => (Prod.mk.inj same).1).mpr
        ⟨⟨number, List.mem_filter.mpr ⟨isDocument, db.inTask_none isDocument⟩⟩, isList, named, new⟩,
      ?_⟩
    rw [new]
    rfl

def Depends (db : TaskDatabase) (name other : String) : Prop :=
  ∃ raw definition, definition.name = name ∧ db.Records raw definition other

theorem mem_dependents {other : String} :
    other ∈ db.dependents name ↔ db.Depends other name := by
  unfold dependents
  rw [List.mem_flatMap]
  constructor
  · rintro ⟨row, isRow, named⟩
    obtain ⟨depends, same⟩ := List.mem_filter.mp isRow
    obtain ⟨entry, isEntry, rfl⟩ := List.mem_map.mp named
    obtain ⟨member, number⟩ := List.mem_filter.mp isEntry
    rw [decide_eq_true_eq] at same number
    subst same
    refine ⟨_, _, rfl, entry.1, member, ?_⟩
    rw [number]
    exact depends
  · rintro ⟨raw, definition, rfl, number, member, depends⟩
    refine ⟨_, List.mem_filter.mpr ⟨depends, decide_eq_true rfl⟩, ?_⟩
    exact List.mem_map.mpr ⟨_, List.mem_filter.mpr ⟨member, decide_eq_true rfl⟩, rfl⟩

theorem mem_dependencyNames {other : String} :
    other ∈ db.dependencyNames name ↔ db.Depends name other := by
  unfold dependencyNames
  rw [List.mem_flatMap]
  constructor
  · rintro ⟨entry, isEntry, named⟩
    obtain ⟨member, same⟩ := List.mem_filter.mp isEntry
    obtain ⟨row, isRow, rfl⟩ := List.mem_map.mp named
    obtain ⟨depends, number⟩ := List.mem_filter.mp isRow
    rw [decide_eq_true_eq] at same number
    refine ⟨_, _, same, entry.1, member, ?_⟩
    rw [← number]
    exact depends
  · rintro ⟨raw, definition, rfl, number, member, depends⟩
    refine ⟨_, List.mem_filter.mpr ⟨member, decide_eq_true rfl⟩, ?_⟩
    exact List.mem_map.mpr ⟨_, List.mem_filter.mpr ⟨depends, decide_eq_true rfl⟩, rfl⟩

theorem mem_reached_iff {current : String} :
    name ∈ db.reached current ↔ ∃ origin ∈ db.seed current,
      Relation.ReflTransGen db.Depends name origin ∨ Relation.ReflTransGen db.Depends origin name := by
  have up : db.upGraph.Leads = Function.swap db.Depends := by
    funext name other
    exact propext mem_dependents
  have down : db.downGraph.Leads = db.Depends := by
    funext name other
    exact propext mem_dependencyNames
  refine List.mem_append.trans ((or_congr (Walk.mem_finish_startAll_iff _)
    (Walk.mem_finish_startAll_iff _)).trans ?_)
  unfold Graph.Reaches
  rw [up, down]
  simp only [Relation.reflTransGen_swap, ← exists_or, ← and_or_left]

theorem mem_walk_iff {current : String} {entry : Nat × RawDocument} :
    entry ∈ (db.walk current).rawDocuments.entries ↔
      ∃ before, (entry.1, before) ∈ db.rawDocuments.entries ∧
        ((∃ definition, db.Holds entry.1 definition ∧ definition.name ∈ db.reached current) ∧
            entry.2 = { before with currentTask := some current } ∨
          (¬ ∃ definition, db.Holds entry.1 definition ∧ definition.name ∈ db.reached current) ∧
            entry.2 = before) := by
  have target (number : Nat) :
      number ∈ (db.documents.entries.filter fun entry =>
        entry.2.definition.name ∈ db.reached current).map (·.2.rawDocument) ↔
      ∃ definition, db.Holds number definition ∧ definition.name ∈ db.reached current := by
    constructor
    · intro member
      obtain ⟨document, isDocument, rfl⟩ := List.mem_map.mp member
      obtain ⟨known, isReached⟩ := List.mem_filter.mp isDocument
      exact ⟨_, ⟨document.1, known⟩, of_decide_eq_true isReached⟩
    · rintro ⟨definition, ⟨number', known⟩, isReached⟩
      exact List.mem_map.mpr ⟨_, List.mem_filter.mpr ⟨known, decide_eq_true isReached⟩, rfl⟩
  unfold walk mark AutoTable.updateAt
  rw [List.mem_map]
  constructor
  · rintro ⟨before, known, rfl⟩
    refine ⟨before.2, known, ?_⟩
    dsimp only
    split
    · next marked => exact .inl ⟨(target _).mp (of_decide_eq_true marked), rfl⟩
    · next unmarked =>
        exact .inr ⟨fun isTarget => unmarked (decide_eq_true ((target _).mpr isTarget)), rfl⟩
  · rintro ⟨before, known, ⟨marked, same⟩ | ⟨unmarked, same⟩⟩
    · refine ⟨_, known, Prod.ext rfl ?_⟩
      dsimp only
      rw [if_pos (decide_eq_true ((target _).mpr marked)), same]
    · refine ⟨_, known, Prod.ext rfl ?_⟩
      dsimp only
      rw [if_neg fun isTarget => unmarked ((target _).mp (of_decide_eq_true isTarget)), same]

end TaskDatabase

end Houdini.Vite
