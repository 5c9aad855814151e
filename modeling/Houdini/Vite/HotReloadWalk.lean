import Houdini.Vite.HotReload

/-! The walk of a hot reload goes along what is recorded. -/

set_option autoImplicit false

namespace Houdini.Vite

open AutoTable (numbered)
open TaskDatabase (providedField build)

variable {reader : DocumentReader}

def ExtractedDocument.loaded (found : ExtractedDocument) : RawDocument :=
  { found.row with loadedWith := some found.content }

def ExtractedDocument.marked (found : ExtractedDocument) (task : String) : RawDocument :=
  { found.row with currentTask := some task }

namespace Project

variable (project : Project reader)

theorem rawDocuments_build : (build reader project.rows).rawDocuments.entries =
    project.sources.map fun entry => (entry.1, entry.2.loaded) := by
  have rows : (build reader project.rows).rawDocuments.entries =
      (numbered 1 (project.rows.map ExtractedDocument.row)).map fun entry =>
        (entry.1, if entry.2.inTask none then { entry.2 with loadedWith := some entry.2.content }
          else entry.2) := rfl
  rw [rows, AutoTable.numbered_map, List.map_map]
  refine List.map_congr_left fun entry _ => ?_
  simp [RawDocument.inTask, ExtractedDocument.loaded, ExtractedDocument.row]

theorem componentFields_build : (build reader project.rows).componentFields =
    project.sources.filterMap fun entry =>
      (providedField (reader.definitions entry.2.content)).map fun field =>
        { document := entry.1, typeField := field.1, fragment := field.2 } := by
  refine (TaskDatabase.componentFields_writeMetadata project.fresh_start
    project.unambiguous_start).trans ?_
  change TaskDatabase.newFields project.start reader none = _
  unfold TaskDatabase.newFields
  rw [taskRows_start, List.filterMap_map]
  rfl

theorem nodup_sources : (project.sources.map Prod.fst).Nodup :=
  AutoTable.nodup_numbered 1 project.rows

theorem source_unique {raw : Nat} {row other : ExtractedDocument}
    (isSource : (raw, row) ∈ project.sources) (isOther : (raw, other) ∈ project.sources) :
    row = other :=
  congrArg Prod.snd (List.inj_on_of_nodup_map project.nodup_sources isSource isOther rfl)

theorem isGone_iff {files : List String} {raw : Nat} :
    (build reader project.rows).IsGone files raw ↔
      ∃ row, (raw, row) ∈ project.sources ∧ row.filepath ∈ files := by
  unfold TaskDatabase.IsGone
  rw [rawDocuments_build]
  constructor
  · rintro ⟨row, member, isIn⟩
    obtain ⟨source, isSource, same⟩ := List.mem_map.mp member
    obtain ⟨rfl, rfl⟩ := Prod.mk.inj same
    exact ⟨source.2, isSource, isIn⟩
  · rintro ⟨row, isSource, isIn⟩
    exact ⟨row.loaded, List.mem_map_of_mem isSource, isIn⟩

theorem isGone_source {files : List String} {raw : Nat} {row : ExtractedDocument}
    (isSource : (raw, row) ∈ project.sources) :
    (build reader project.rows).IsGone files raw ↔ row.filepath ∈ files := by
  rw [isGone_iff]
  constructor
  · rintro ⟨other, isOther, isIn⟩
    exact project.source_unique isSource isOther ▸ isIn
  · exact fun isIn => ⟨row, isSource, isIn⟩

end Project

namespace Edit

variable {project : Project reader} (edit : Edit project)

def newSources : List (Nat × ExtractedDocument) := numbered (1 + project.rows.length) edit.found

def marked : TaskDatabase :=
  (((build reader project.rows).deleteFiles edit.files).insertRawDocuments
    (edit.found.map ExtractedDocument.row)).mark edit.task
      fun number raw => TaskDatabase.isInFiles edit.files (number, raw)

def extracted : TaskDatabase := edit.marked.afterExtract reader (some edit.task)

theorem rawDocuments_marked : edit.marked.rawDocuments.entries =
    ((project.sources.filter fun entry => decide (entry.2.filepath ∉ edit.files)).map fun entry =>
      (entry.1, entry.2.loaded)) ++
      edit.newSources.map fun entry => (entry.1, entry.2.marked edit.task) := by
  have next : ((build reader project.rows).deleteFiles edit.files).rawDocuments.next =
      1 + project.rows.length := by
    change 1 + (project.rows.map ExtractedDocument.row).length = _
    rw [List.length_map]
  have entries : edit.marked.rawDocuments.entries =
      (((build reader project.rows).rawDocuments.entries.filter fun entry =>
          !TaskDatabase.isInFiles edit.files entry) ++
        numbered ((build reader project.rows).deleteFiles edit.files).rawDocuments.next
          (edit.found.map ExtractedDocument.row)).map fun entry =>
        (entry.1, if TaskDatabase.isInFiles edit.files (entry.1, entry.2) then
          { entry.2 with currentTask := some edit.task } else entry.2) := rfl
  rw [entries, next, project.rawDocuments_build, List.filter_map, AutoTable.numbered_map,
    List.map_append, List.map_map, List.map_map]
  congr 1
  · have same : ((fun entry => !TaskDatabase.isInFiles edit.files entry) ∘
        fun entry : Nat × ExtractedDocument => (entry.1, entry.2.loaded)) = fun entry =>
          decide (entry.2.filepath ∉ edit.files) := by
      funext entry
      simp [TaskDatabase.isInFiles, ExtractedDocument.loaded, ExtractedDocument.row]
    rw [same]
    refine List.map_congr_left fun entry member => ?_
    have stays := of_decide_eq_true (List.mem_filter.mp member).2
    simp [TaskDatabase.isInFiles, ExtractedDocument.loaded, ExtractedDocument.row, stays]
  · refine List.map_congr_left fun entry member => ?_
    have isIn := edit.found_within entry.2 (TaskDatabase.exists_mem_numbered.mp ⟨entry.1, member⟩)
    simp [TaskDatabase.isInFiles, ExtractedDocument.marked, ExtractedDocument.row, isIn]

theorem taskRows_marked : edit.marked.taskRows (some edit.task) =
    edit.newSources.map fun entry => (entry.1, entry.2.marked edit.task) := by
  unfold TaskDatabase.taskRows
  rw [rawDocuments_marked, List.filter_append]
  have others : (((project.sources.filter fun entry =>
      decide (entry.2.filepath ∉ edit.files)).map fun entry => (entry.1, entry.2.loaded)).filter
        fun entry => entry.2.inTask (some edit.task)) = [] := by
    refine List.filter_eq_nil_iff.mpr fun entry member => ?_
    obtain ⟨source, _, rfl⟩ := List.mem_map.mp member
    simp [RawDocument.inTask, ExtractedDocument.loaded, ExtractedDocument.row]
  rw [others, List.nil_append]
  refine List.filter_eq_self.mpr fun entry member => ?_
  obtain ⟨source, _, rfl⟩ := List.mem_map.mp member
  simp [RawDocument.inTask, ExtractedDocument.marked]

theorem mem_taskRows_marked {raw : Nat} {row : RawDocument} :
    (raw, row) ∈ edit.marked.taskRows (some edit.task) ↔
      ∃ source, (raw, source) ∈ edit.newSources ∧ row = source.marked edit.task := by
  rw [taskRows_marked, List.mem_map]
  constructor
  · rintro ⟨entry, isSource, same⟩
    obtain ⟨rfl, rfl⟩ := Prod.mk.inj same
    exact ⟨entry.2, isSource, rfl⟩
  · rintro ⟨source, isSource, rfl⟩
    exact ⟨_, isSource, rfl⟩

theorem not_new_of_source {raw : Nat} {row other : ExtractedDocument}
    (isSource : (raw, row) ∈ project.sources) : (raw, other) ∉ edit.newSources := by
  intro isNew
  have before := (AutoTable.bounds_of_mem_numbered isSource).2
  have after := (AutoTable.bounds_of_mem_numbered isNew).1
  simp only at before after
  omega

theorem source_of_kept {raw : Nat}
    (known : raw ∈ ((build reader project.rows).deleteFiles edit.files).rawDocuments.entries.map
      Prod.fst) :
    ∃ row, (raw, row) ∈ project.sources := by
  obtain ⟨entry, member, rfl⟩ := List.mem_map.mp known
  have isRow := List.mem_of_mem_filter member
  rw [project.rawDocuments_build] at isRow
  obtain ⟨source, isSource, rfl⟩ := List.mem_map.mp isRow
  exact ⟨source.2, isSource⟩

theorem fresh_marked : edit.marked.Fresh (some edit.task) where
  unloaded := by
    rintro ⟨raw, row⟩ member
    obtain ⟨source, _, rfl⟩ := edit.mem_taskRows_marked.mp member
    rfl
  undefined := by
    rintro ⟨raw, row⟩ member document isDocument same
    obtain ⟨source, isNew, rfl⟩ := edit.mem_taskRows_marked.mp member
    obtain ⟨old, isSource⟩ := edit.source_of_kept
      (((build reader project.rows).deleteFiles edit.files).loadedFrom document isDocument)
    rw [same] at isSource
    exact edit.not_new_of_source isSource isNew
  unprovided := by
    rintro ⟨raw, row⟩ member provided isProvided same
    obtain ⟨source, isNew, rfl⟩ := edit.mem_taskRows_marked.mp member
    obtain ⟨old, isSource⟩ := edit.source_of_kept
      (((build reader project.rows).deleteFiles edit.files).providedBy provided isProvided)
    rw [same] at isSource
    exact edit.not_new_of_source isSource isNew

theorem componentFields_marked : edit.marked.componentFields =
    (build reader project.rows).componentFields.filter fun row => row.document ∉
      ((build reader project.rows).rawDocuments.entries.filter
        (TaskDatabase.isInFiles edit.files)).map Prod.fst := rfl

theorem fields_kept :
    edit.marked.componentFields.map (fun row => (row.typeField, row.fragment)) =
      providedFields reader edit.kept := by
  have sources : providedFields reader edit.kept = project.sources.filterMap fun entry =>
      if entry.2.filepath ∉ edit.files then providedField (reader.definitions entry.2.content)
      else none := by
    unfold providedFields kept
    conv_lhs => rw [← AutoTable.map_snd_numbered 1 project.rows]
    rw [List.filterMap_filter, List.filterMap_map]
    refine List.filterMap_congr fun entry _ => ?_
    simp only [Function.comp_apply, decide_eq_true_eq]
  rw [sources, componentFields_marked, project.componentFields_build, List.filter_filterMap,
    List.map_filterMap]
  refine List.filterMap_congr fun entry member => ?_
  have stays : (entry.1 ∉ ((build reader project.rows).rawDocuments.entries.filter
      (TaskDatabase.isInFiles edit.files)).map Prod.fst) ↔ entry.2.filepath ∉ edit.files := by
    rw [TaskDatabase.mem_gone_iff, project.isGone_source member]
  cases providedField (reader.definitions entry.2.content) with
  | none => simp
  | some field =>
      simp only [Option.map_some, Option.filter_some, stays, decide_eq_true_eq]
      split <;> rfl

theorem fields_extracted :
    (edit.marked.componentFields ++ edit.marked.newFields reader (some edit.task)).map
        (fun row => (row.typeField, row.fragment)) = providedFields reader edit.rows := by
  rw [List.map_append, fields_kept, TaskDatabase.fields_newFields, taskRows_marked,
    List.filterMap_map]
  unfold rows providedFields
  rw [List.filterMap_append]
  congr 1
  exact filterMap_numbered

theorem unambiguous_marked : edit.marked.Unambiguous reader (some edit.task) where
  fields := by
    have names := edit.fields_nodup
    change ((providedFields reader edit.rows).map Prod.fst).Nodup at names
    rw [← fields_extracted, List.map_map] at names
    exact names
  documents := by
    rw [componentFields_marked, project.componentFields_build]
    have all : ((project.sources.filterMap fun entry =>
        (providedField (reader.definitions entry.2.content)).map fun field =>
          ({ document := entry.1, typeField := field.1, fragment := field.2 } : ComponentField)).map
        ComponentField.document).Nodup := by
      have rows := TaskDatabase.documents_sublist
        (project.sources.map fun entry => (entry.1, entry.2.loaded))
        fun entry => providedField (reader.definitions entry.2.content)
      rw [List.filterMap_map, List.map_map] at rows
      exact project.nodup_sources.sublist rows
    exact all.sublist (List.filter_sublist.map _)

theorem holds_extracted {raw : Nat} {definition : Definition} :
    edit.extracted.Holds raw definition ↔
      (build reader project.rows).Holds raw definition ∧
          ¬ (build reader project.rows).IsGone edit.files raw ∨
        ∃ row, (raw, row) ∈ edit.newSources ∧ definition ∈ reader.definitions row.content := by
  refine (TaskDatabase.holds_afterExtract edit.fresh_marked).trans (or_congr ?_ ?_)
  · constructor
    · rintro ⟨number, member⟩
      obtain ⟨known, stays⟩ := TaskDatabase.mem_documents_deleteFiles.mp member
      exact ⟨⟨number, known⟩, stays⟩
    · rintro ⟨⟨number, known⟩, stays⟩
      exact ⟨number, TaskDatabase.mem_documents_deleteFiles.mpr ⟨known, stays⟩⟩
  · constructor
    · rintro ⟨row, inTask, isFound⟩
      obtain ⟨source, isNew, rfl⟩ := edit.mem_taskRows_marked.mp inTask
      exact ⟨source, isNew, isFound⟩
    · rintro ⟨source, isNew, isFound⟩
      exact ⟨_, edit.mem_taskRows_marked.mpr ⟨source, isNew, rfl⟩, isFound⟩

theorem records_extracted {raw : Nat} {definition : Definition} {name : String} :
    edit.extracted.Records raw definition name ↔
      (build reader project.rows).Records raw definition name ∧
          ¬ (build reader project.rows).IsGone edit.files raw ∨
        ∃ row, (raw, row) ∈ edit.newSources ∧ definition ∈ reader.definitions row.content ∧
          definition.DependsOn (providedFields reader edit.rows) name := by
  have same (field : String × String) :
      (∃ row ∈ edit.marked.componentFields ++ edit.marked.newFields reader (some edit.task),
        (row.typeField, row.fragment) = field) ↔ field ∈ providedFields reader edit.rows := by
    rw [← fields_extracted]
    exact List.mem_map.symm
  refine (TaskDatabase.records_afterExtract edit.fresh_marked edit.unambiguous_marked).trans
    (or_congr TaskDatabase.records_deleteFiles ?_)
  simp only [SelectedItem.mem_dependsOn same]
  constructor
  · rintro ⟨row, inTask, isFound, selects⟩
    obtain ⟨source, isNew, rfl⟩ := edit.mem_taskRows_marked.mp inTask
    exact ⟨source, isNew, isFound, selects⟩
  · rintro ⟨source, isNew, isFound, selects⟩
    exact ⟨_, edit.mem_taskRows_marked.mpr ⟨source, isNew, rfl⟩, isFound, selects⟩

theorem mem_kept {raw : Nat} {row : ExtractedDocument} (isSource : (raw, row) ∈ project.sources)
    (stays : ¬ (build reader project.rows).IsGone edit.files raw) : row ∈ edit.kept := by
  rw [project.isGone_source isSource] at stays
  exact List.mem_filter.mpr ⟨project.mem_rows_iff.mpr ⟨raw, isSource⟩, decide_eq_true stays⟩

theorem source_of_mem_kept {row : ExtractedDocument} (isKept : row ∈ edit.kept) :
    ∃ raw, (raw, row) ∈ project.sources ∧ ¬ (build reader project.rows).IsGone edit.files raw := by
  obtain ⟨isRow, stays⟩ := List.mem_filter.mp isKept
  obtain ⟨raw, isSource⟩ := project.mem_rows_iff.mp isRow
  exact ⟨raw, isSource, (project.isGone_source isSource).not.mpr (of_decide_eq_true stays)⟩

theorem depends_extracted : edit.extracted.Depends = edit.Recorded := by
  funext name other
  refine propext ?_
  unfold TaskDatabase.Depends
  constructor
  · rintro ⟨raw, document, named, records⟩
    rcases edit.records_extracted.mp records with ⟨old, stays⟩ | ⟨row, isNew, isFound, depends⟩
    · obtain ⟨row, isSource, definition, isFound, ⟨rfl, depends⟩ |
        ⟨list, suffix, generates, rfl, rfl⟩⟩ := project.records_build.mp ⟨document, named, old⟩
      · exact .kept (List.mem_flatMap.mpr ⟨row, edit.mem_kept isSource stays, isFound⟩) depends
      · exact .operation (List.mem_flatMap.mpr ⟨row, edit.mem_kept isSource stays, isFound⟩) generates
    · subst named
      exact .found (Project.mem_definitionsOf_iff.mpr ⟨raw, row, isNew, isFound⟩) depends
  · intro recorded
    cases recorded with
    | @kept definition _ isKept depends =>
        obtain ⟨row, isRow, isFound⟩ := List.mem_flatMap.mp isKept
        obtain ⟨raw, isSource, stays⟩ := edit.source_of_mem_kept isRow
        obtain ⟨document, named, records⟩ := project.records_build.mpr
          ⟨row, isSource, definition, isFound, .inl ⟨rfl, depends⟩⟩
        exact ⟨raw, document, named, edit.records_extracted.mpr (.inl ⟨records, stays⟩)⟩
    | @found definition _ isFound depends =>
        obtain ⟨raw, row, isNew, inRow⟩ := Project.mem_definitionsOf_iff.mp isFound
        exact ⟨raw, definition, rfl, edit.records_extracted.mpr (.inr ⟨row, isNew, inRow, depends⟩)⟩
    | @operation definition list suffix isKept generates =>
        obtain ⟨row, isRow, isFound⟩ := List.mem_flatMap.mp isKept
        obtain ⟨raw, isSource, stays⟩ := edit.source_of_mem_kept isRow
        obtain ⟨document, named, records⟩ := project.records_build.mpr
          ⟨row, isSource, definition, isFound, .inr ⟨list, suffix, generates, rfl, rfl⟩⟩
        exact ⟨raw, document, named, edit.records_extracted.mpr (.inl ⟨records, stays⟩)⟩

theorem rawDocuments_extracted {raw : Nat} {row : RawDocument} :
    (raw, row) ∈ edit.extracted.rawDocuments.entries ↔
      (∃ source, (raw, source) ∈ project.sources ∧ source.filepath ∉ edit.files ∧
          row = source.loaded) ∨
        ∃ source, (raw, source) ∈ edit.newSources ∧
          row = { source.marked edit.task with loadedWith := some source.content } := by
  have entries : edit.extracted.rawDocuments.entries = edit.marked.rawDocuments.entries.map
      fun entry => (entry.1, if entry.2.inTask (some edit.task) then
        { entry.2 with loadedWith := some entry.2.content } else entry.2) := rfl
  rw [entries, rawDocuments_marked, List.map_append, List.map_map, List.map_map, List.mem_append]
  refine or_congr ?_ ?_
  · rw [List.mem_map]
    constructor
    · rintro ⟨entry, member, same⟩
      obtain ⟨isSource, stays⟩ := List.mem_filter.mp member
      obtain ⟨rfl, rfl⟩ := Prod.mk.inj same
      refine ⟨entry.2, isSource, of_decide_eq_true stays, ?_⟩
      exact if_neg (by simp [RawDocument.inTask, ExtractedDocument.loaded, ExtractedDocument.row])
    · rintro ⟨source, isSource, stays, rfl⟩
      refine ⟨(raw, source), List.mem_filter.mpr ⟨isSource, decide_eq_true stays⟩, ?_⟩
      refine congrArg (Prod.mk raw) (if_neg ?_)
      simp [RawDocument.inTask, ExtractedDocument.loaded, ExtractedDocument.row]
  · rw [List.mem_map]
    constructor
    · rintro ⟨entry, isNew, same⟩
      obtain ⟨rfl, rfl⟩ := Prod.mk.inj same
      refine ⟨entry.2, isNew, ?_⟩
      exact if_pos (by simp [RawDocument.inTask, ExtractedDocument.marked])
    · rintro ⟨source, isNew, rfl⟩
      refine ⟨(raw, source), isNew, congrArg (Prod.mk raw) (if_pos ?_)⟩
      simp [RawDocument.inTask, ExtractedDocument.marked]

theorem mem_seed_iff {name : String} : name ∈ edit.extracted.seed edit.task ↔
    ∃ definition ∈ definitionsOf reader edit.found, definition.name = name := by
  have inTask (row : DocumentRow) : edit.extracted.inTask (some edit.task) row = true ↔
      ∃ source, (row.rawDocument, source) ∈ edit.newSources := by
    rw [TaskDatabase.inTask_iff]
    constructor
    · rintro ⟨⟨raw, found⟩, isTask, rfl⟩
      obtain ⟨member, ofTask⟩ := List.mem_filter.mp isTask
      rcases edit.rawDocuments_extracted.mp member with ⟨source, _, _, rfl⟩ | ⟨source, isNew, _⟩
      · simp [RawDocument.inTask, ExtractedDocument.loaded, ExtractedDocument.row] at ofTask
      · exact ⟨source, isNew⟩
    · rintro ⟨source, isNew⟩
      refine ⟨(row.rawDocument, { source.marked edit.task with loadedWith := some source.content }),
        List.mem_filter.mpr ⟨edit.rawDocuments_extracted.mpr (.inr ⟨source, isNew, rfl⟩), ?_⟩, rfl⟩
      simp [RawDocument.inTask, ExtractedDocument.marked]
  unfold TaskDatabase.seed
  rw [List.mem_map]
  constructor
  · rintro ⟨⟨number, raw, definition⟩, member, rfl⟩
    obtain ⟨known, isTask⟩ := List.mem_filter.mp member
    obtain ⟨source, isNew⟩ := (inTask _).mp isTask
    rcases edit.holds_extracted.mp ⟨number, known⟩ with ⟨old, _⟩ | ⟨row, isNewRow, isFound⟩
    · obtain ⟨row, isSource, _⟩ := project.holds_build.mp ⟨definition, rfl, old⟩
      exact absurd isNew (edit.not_new_of_source isSource)
    · exact ⟨definition, Project.mem_definitionsOf_iff.mpr ⟨raw, row, isNewRow, isFound⟩, rfl⟩
  · rintro ⟨definition, isFound, rfl⟩
    obtain ⟨raw, row, isNew, inRow⟩ := Project.mem_definitionsOf_iff.mp isFound
    obtain ⟨number, member⟩ := edit.holds_extracted.mpr (.inr ⟨row, isNew, inRow⟩)
    exact ⟨_, List.mem_filter.mpr ⟨member, (inTask _).mpr ⟨row, isNew⟩⟩, rfl⟩

theorem mem_reached_iff {name : String} :
    name ∈ edit.extracted.reached edit.task ↔ edit.Meets name := by
  rw [TaskDatabase.mem_reached_iff, depends_extracted]
  unfold Meets
  constructor
  · rintro ⟨origin, isSeed, leads⟩
    obtain ⟨definition, isFound, rfl⟩ := edit.mem_seed_iff.mp isSeed
    exact ⟨definition, isFound, leads⟩
  · rintro ⟨definition, isFound, leads⟩
    exact ⟨definition.name, edit.mem_seed_iff.mpr ⟨definition, isFound, rfl⟩, leads⟩

/-- A source string of another file has a document that is reached if one of its names meets the
edit. -/
theorem exists_reached_iff {raw : Nat} {row : ExtractedDocument}
    (isSource : (raw, row) ∈ project.sources) (stays : row.filepath ∉ edit.files) :
    (∃ definition, edit.extracted.Holds raw definition ∧
        definition.name ∈ edit.extracted.reached edit.task) ↔
      ∃ name, @Has reader project row name ∧ edit.Meets name := by
  have notGone := (project.isGone_source isSource).not.mpr stays
  simp only [mem_reached_iff, holds_extracted]
  constructor
  · rintro ⟨definition, ⟨old, _⟩ | ⟨other, isNew, _⟩, meets⟩
    · obtain ⟨other, isOther, has⟩ := project.holds_build.mp ⟨definition, rfl, old⟩
      exact ⟨definition.name, project.source_unique isOther isSource ▸ has, meets⟩
    · exact absurd isNew (edit.not_new_of_source isSource)
  · rintro ⟨name, has, meets⟩
    obtain ⟨definition, rfl, holds⟩ := project.holds_build.mpr ⟨row, isSource, has⟩
    exact ⟨definition, .inl ⟨holds, notGone⟩, meets⟩

theorem mem_walked_iff {raw : Nat} {after : RawDocument} :
    (raw, after) ∈ (edit.extracted.walk edit.task).rawDocuments.entries ↔
      (∃ source, (raw, source) ∈ project.sources ∧ source.filepath ∉ edit.files ∧
          ((∃ name, @Has reader project source name ∧ edit.Meets name) ∧
              after = { source.loaded with currentTask := some edit.task } ∨
            (¬ ∃ name, @Has reader project source name ∧ edit.Meets name) ∧
              after = source.loaded)) ∨
        ∃ source, (raw, source) ∈ edit.newSources ∧
          after = { source.marked edit.task with loadedWith := some source.content } := by
  rw [TaskDatabase.mem_walk_iff]
  constructor
  · rintro ⟨before, member, outcome⟩
    rcases edit.rawDocuments_extracted.mp member with ⟨source, isSource, stays, rfl⟩ |
      ⟨source, isNew, rfl⟩
    · rw [edit.exists_reached_iff isSource stays] at outcome
      exact .inl ⟨source, isSource, stays, outcome⟩
    · refine .inr ⟨source, isNew, ?_⟩
      rcases outcome with ⟨_, same⟩ | ⟨_, same⟩ <;> exact same
  · rintro (⟨source, isSource, stays, outcome⟩ | ⟨source, isNew, rfl⟩)
    · rw [← edit.exists_reached_iff isSource stays] at outcome
      exact ⟨_, edit.rawDocuments_extracted.mpr (.inl ⟨source, isSource, stays, rfl⟩), outcome⟩
    · refine ⟨_, edit.rawDocuments_extracted.mpr (.inr ⟨source, isNew, rfl⟩), ?_⟩
      by_cases reached : ∃ definition, edit.extracted.Holds raw definition ∧
          definition.name ∈ edit.extracted.reached edit.task
      · exact .inl ⟨reached, rfl⟩
      · exact .inr ⟨reached, rfl⟩

theorem batch_cases : edit.batch = edit.extracted.walk edit.task ∨
    (∀ definition, ¬ edit.Changed definition) ∧ edit.batch = edit.marked := by
  unfold batch TaskDatabase.batch
  dsimp only
  split
  · next early =>
      refine .inr ⟨?_, rfl⟩
      obtain ⟨⟨noChanges, noRows⟩, _⟩ := Bool.and_eq_true_iff.mp early |>.imp_left
        Bool.and_eq_true_iff.mp
      rw [List.isEmpty_iff, List.filter_eq_nil_iff] at noChanges noRows
      have noneFound : definitionsOf reader edit.found = [] := by
        refine List.eq_nil_iff_forall_not_mem.mpr fun definition isFound => ?_
        obtain ⟨row, isRow, _⟩ := List.mem_flatMap.mp isFound
        obtain ⟨number, isNumbered⟩ := TaskDatabase.exists_mem_numbered.mpr (List.mem_map_of_mem isRow)
        exact noChanges (number, row.row) (List.mem_append_right _ isNumbered)
          (decide_eq_true (edit.found_within row isRow))
      have noneReplaced : definitionsOf reader edit.replaced = [] := by
        refine List.eq_nil_iff_forall_not_mem.mpr fun definition isFound => ?_
        obtain ⟨row, isRow, _⟩ := List.mem_flatMap.mp isFound
        obtain ⟨member, isIn⟩ := List.mem_filter.mp isRow
        obtain ⟨raw, isSource⟩ := project.mem_rows_iff.mp member
        refine noRows (raw, row.loaded) ?_ isIn
        rw [project.rawDocuments_build]
        exact List.mem_map_of_mem isSource
      intro definition changed
      unfold Changed at changed
      rw [noneFound, noneReplaced] at changed
      rcases changed with ⟨member, _⟩ | ⟨member, _⟩
      · exact List.not_mem_nil member
      · exact List.not_mem_nil member
  · exact .inl rfl

/-- A hot reload compiles everything that the edit affects again, if and only if each affected source
string of another file meets the edit by what is recorded. -/
theorem revisits_iff : edit.Revisits ↔ edit.Connects := by
  unfold Revisits Connects
  rcases edit.batch_cases with walked | ⟨unchanged, _⟩
  · rw [walked]
    constructor
    · intro revisits row isKept definition isFound affected
      obtain ⟨raw, isSource, _⟩ := edit.source_of_mem_kept isKept
      have stays := of_decide_eq_true (List.mem_filter.mp isKept).2
      by_contra apart
      have unmarked := revisits (raw, row.loaded) (edit.mem_walked_iff.mpr (.inl
        ⟨row, isSource, stays, .inr ⟨apart, rfl⟩⟩)) definition isFound affected
      cases unmarked
    · rintro connects ⟨raw, after⟩ member definition isFound affected
      rcases edit.mem_walked_iff.mp member with ⟨source, isSource, stays, outcome⟩ |
        ⟨source, isNew, rfl⟩
      · rcases outcome with ⟨_, rfl⟩ | ⟨apart, rfl⟩
        · rfl
        · refine absurd (connects source ?_ definition isFound affected) apart
          exact List.mem_filter.mpr ⟨project.mem_rows_iff.mpr ⟨raw, isSource⟩, decide_eq_true stays⟩
      · rfl
  · have unaffected (definition : Definition) : ¬ edit.Affected definition :=
      fun ⟨changed, isChanged, _⟩ => unchanged changed isChanged
    constructor
    · exact fun _ row _ definition _ affected => absurd affected (unaffected definition)
    · exact fun _ entry _ definition _ affected => absurd affected (unaffected definition)

/-- The edited files keep the names of their documents, bring no component field that documents of
other files select, and have no lists that these change; from no list anything is removed. -/
structure Lasting : Prop where
  names : ∀ definition ∈ definitionsOf reader edit.replaced,
    ∃ found ∈ definitionsOf reader edit.found, found.name = definition.name
  fields : ∀ definition ∈ definitionsOf reader edit.kept, ∀ name,
    definition.DependsOn (providedFields reader edit.rows) name →
      definition.DependsOn (providedFields reader project.rows) name
  operations : ∀ definition ∈ definitionsOf reader edit.kept, ∀ name,
    definition.DependsOn (providedFields reader project.rows) name →
      ∀ other ∈ definitionsOf reader project.rows ++ definitionsOf reader edit.rows,
        name ∈ other.operationNames → other ∈ definitionsOf reader edit.kept ∧
          ∃ list suffix, suffix ∈ TaskDatabase.copiedSuffixes ∧ name = list.name ++ suffix ∧
            @Generates reader project other list suffix

def LeadsUp (name : String) : Prop :=
  ∃ origin ∈ definitionsOf reader edit.found, Relation.ReflTransGen edit.Recorded name origin.name

variable {edit}

theorem Lasting.leadsUp_step (lasting : edit.Lasting) {definition other : Definition} {name : String}
    (isKept : definition ∈ definitionsOf reader edit.kept)
    (depends : definition.DependsOn (providedFields reader project.rows) name)
    (known : other ∈ definitionsOf reader project.rows ++ definitionsOf reader edit.rows)
    (named : name = other.name ∨ name ∈ other.operationNames) (up : edit.LeadsUp other.name) :
    edit.LeadsUp definition.name := by
  obtain ⟨origin, isFound, leads⟩ := up
  refine ⟨origin, isFound, .head (.kept isKept depends) ?_⟩
  rcases named with rfl | operation
  · exact leads
  · obtain ⟨otherKept, list, suffix, isCopied, rfl, generates⟩ :=
      lasting.operations definition isKept name depends other known operation
    have recorded : edit.Recorded (list.name ++ suffix) (operationDependency other suffix) :=
      .operation otherKept generates
    rw [Project.operationDependency_copied isCopied] at recorded
    exact .head recorded leads

theorem definitionsOf_project (definition : Definition) :
    definition ∈ definitionsOf reader project.rows ↔
      definition ∈ definitionsOf reader edit.kept ∨
        definition ∈ definitionsOf reader edit.replaced := by
  unfold definitionsOf kept replaced
  simp only [List.mem_flatMap, List.mem_filter, decide_eq_true_eq]
  constructor
  · rintro ⟨row, isRow, isFound⟩
    by_cases isIn : row.filepath ∈ edit.files
    · exact .inr ⟨row, ⟨isRow, isIn⟩, isFound⟩
    · exact .inl ⟨row, ⟨isRow, isIn⟩, isFound⟩
  · rintro (⟨row, isRow, isFound⟩ | ⟨row, isRow, isFound⟩)
    · exact ⟨row, isRow.1, isFound⟩
    · exact ⟨row, isRow.1, isFound⟩

theorem Lasting.leadsUp_of_edited (lasting : edit.Lasting) {definition : Definition}
    (edited : definition ∈ definitionsOf reader edit.replaced ∨
      definition ∈ definitionsOf reader edit.found) : edit.LeadsUp definition.name := by
  rcases edited with replaced | isFound
  · obtain ⟨found, isFound, named⟩ := lasting.names definition replaced
    exact ⟨found, isFound, named ▸ .refl⟩
  · exact ⟨definition, isFound, .refl⟩

theorem Changed.edited {definition : Definition} (changed : edit.Changed definition) :
    definition ∈ definitionsOf reader edit.replaced ∨ definition ∈ definitionsOf reader edit.found :=
  changed.imp And.left And.left

theorem Lasting.leadsUp_of_before (lasting : edit.Lasting) {definition changed : Definition}
    (isChanged : edit.Changed changed) (reaches : Reaches reader project.rows definition changed) :
    edit.LeadsUp definition.name := by
  induction reaches using Relation.ReflTransGen.head_induction_on with
  | refl => exact lasting.leadsUp_of_edited isChanged.edited
  | head leads _ ih =>
      obtain ⟨known, otherKnown, name, depends, named⟩ := leads
      rcases (definitionsOf_project _).mp known with kept | replaced
      · exact lasting.leadsUp_step kept depends (List.mem_append_left _ otherKnown) named ih
      · exact lasting.leadsUp_of_edited (.inl replaced)

theorem Lasting.leadsUp_of_after (lasting : edit.Lasting) {definition changed : Definition}
    (isChanged : edit.Changed changed) (reaches : Reaches reader edit.rows definition changed) :
    edit.LeadsUp definition.name := by
  induction reaches using Relation.ReflTransGen.head_induction_on with
  | refl => exact lasting.leadsUp_of_edited isChanged.edited
  | head leads _ ih =>
      obtain ⟨known, otherKnown, name, depends, named⟩ := leads
      unfold rows definitionsOf at known
      rw [List.flatMap_append, List.mem_append] at known
      rcases known with kept | found
      · exact lasting.leadsUp_step kept (lasting.fields _ kept name depends)
          (List.mem_append_right _ otherKnown) named ih
      · exact lasting.leadsUp_of_edited (.inr found)

theorem Lasting.connects (lasting : edit.Lasting) : edit.Connects := by
  rintro row isKept definition isFound ⟨changed, isChanged, reaches⟩
  have up : edit.LeadsUp definition.name :=
    reaches.elim (lasting.leadsUp_of_before isChanged) (lasting.leadsUp_of_after isChanged)
  obtain ⟨origin, isOrigin, leads⟩ := up
  exact ⟨definition.name, ⟨definition, isFound, .inl rfl⟩, origin, isOrigin, .inl leads⟩

/-- After an edit that keeps names, a hot reload compiles everything that the edit affects again. -/
theorem Lasting.revisits (lasting : edit.Lasting) : edit.Revisits := by
  rintro ⟨raw, after⟩ member definition isFound affected
  rcases edit.batch_cases with walked | ⟨unchanged, _⟩
  · rw [walked] at member
    rcases edit.mem_walked_iff.mp member with ⟨source, isSource, stays, ⟨_, rfl⟩ | ⟨apart, rfl⟩⟩ |
      ⟨source, isNew, rfl⟩
    · rfl
    · have isKept : source ∈ edit.kept :=
        List.mem_filter.mpr ⟨project.mem_rows_iff.mpr ⟨raw, isSource⟩, decide_eq_true stays⟩
      exact absurd (lasting.connects source isKept definition isFound affected) apart
    · rfl
  · obtain ⟨changed, isChanged, _⟩ := affected
    exact absurd isChanged (unchanged changed)

end Edit

def infoText : String := "fragment UserInfo on User \x7b name \x7d"

def cardText : String := "fragment UserCard on User \x7b name \x7d"

def usersText : String := "query Users \x7b users \x7b ...UserInfo \x7d \x7d"

def nameFragment (name text : String) : Definition where
  name := name
  isFragment := true
  selections := [.field "name" "User.name"]
  componentField := none
  lists := []
  printed := text

def usersQuery : Definition where
  name := "Users"
  isFragment := false
  selections := [.field "users" "Query.users", .fragment "UserInfo"]
  componentField := none
  lists := []
  printed := usersText

def usersReader : DocumentReader where
  definitions text :=
    if text = infoText then [nameFragment "UserInfo" infoText]
    else if text = cardText then [nameFragment "UserCard" cardText]
    else if text = usersText then [usersQuery]
    else []
  definitions_empty := by decide

def usersProject : Project usersReader where
  rows := [⟨"Info.svelte", infoText, 0, 0⟩, ⟨"Users.svelte", usersText, 0, 0⟩]
  fields_nodup := by decide
  lists_nodup := by decide

/-- A second fragment in the file of the first one. -/
def addCard : Edit usersProject where
  task := "1"
  files := ["Info.svelte"]
  found := [⟨"Info.svelte", infoText, 0, 0⟩, ⟨"Info.svelte", cardText, 1, 0⟩]
  manifest := false
  found_within := by decide
  fields_nodup := by decide

theorem addCard_revisits : addCard.Revisits :=
  Edit.Lasting.revisits
    { names := by decide
      fields := by
        have same : providedFields usersReader addCard.rows =
            providedFields usersReader usersProject.rows := by decide
        exact fun definition _ name depends => same ▸ depends
      operations := by
        have none : ∀ other ∈ definitionsOf usersReader usersProject.rows ++
            definitionsOf usersReader addCard.rows, other.operationNames = [] := by decide
        intro definition _ name _ other known operation
        rw [none other known] at operation
        exact absurd operation List.not_mem_nil }

def renameInfo : Edit usersProject where
  task := "1"
  files := ["Info.svelte"]
  found := [⟨"Info.svelte", cardText, 0, 0⟩]
  manifest := false
  found_within := by decide
  fields_nodup := by decide

/-- The query still spreads the fragment under its old name, and is not compiled again. -/
theorem renamed_forgotten : ¬ renameInfo.Revisits := by
  have kept : definitionsOf usersReader renameInfo.kept = [usersQuery] := by decide
  have found : definitionsOf usersReader renameInfo.found = [nameFragment "UserCard" cardText] := by
    decide
  have noFields : providedFields usersReader usersProject.rows = [] ∧
      providedFields usersReader renameInfo.rows = [] := by decide
  have recorded {name other : String} (records : renameInfo.Recorded name other) :
      name = "Users" ∧ other = "UserInfo" := by
    cases records with
    | kept isKept depends =>
        rw [kept, List.mem_singleton] at isKept
        subst isKept
        obtain ⟨item, isItem, names⟩ := depends
        rcases List.mem_pair.mp isItem with rfl | rfl
        · rw [noFields.1] at names
          exact absurd names List.not_mem_nil
        · exact ⟨rfl, names⟩
    | found isFound depends =>
        rw [found, List.mem_singleton] at isFound
        subst isFound
        obtain ⟨item, isItem, names⟩ := depends
        obtain rfl := List.mem_singleton.mp isItem
        rw [noFields.2] at names
        exact absurd names List.not_mem_nil
    | operation isKept generates =>
        rw [kept, List.mem_singleton] at isKept
        subst isKept
        exact absurd generates.1 List.not_mem_nil
  have changed : renameInfo.Changed (nameFragment "UserInfo" infoText) := by
    refine .inl ⟨?_, ?_⟩
    · decide
    · decide
  have leads : Leads usersReader usersProject.rows usersQuery (nameFragment "UserInfo" infoText) := by
    refine ⟨by decide, by decide, "UserInfo", ?_, .inl rfl⟩
    exact ⟨.fragment "UserInfo", by decide, rfl⟩
  intro revisits
  rcases renameInfo.batch_cases with walked | ⟨unchanged, _⟩
  · have apart : ¬ ∃ name, @Edit.Has _ usersProject ⟨"Users.svelte", usersText, 0, 0⟩ name ∧
        renameInfo.Meets name := by
      rintro ⟨name, ⟨definition, isFound, named⟩, origin, isOrigin, meets⟩
      obtain rfl : definition = usersQuery := List.mem_singleton.mp isFound
      obtain rfl : name = "Users" := by
        rcases named with own | ⟨list, suffix, generates, _⟩
        · exact own
        · exact absurd generates.1 List.not_mem_nil
      rw [found, List.mem_singleton] at isOrigin
      subst isOrigin
      rcases meets with up | down
      · obtain same | ⟨_, first, rest⟩ := up.cases_head
        · exact absurd same (by decide)
        · obtain ⟨_, rfl⟩ := recorded first
          obtain same | ⟨_, second, _⟩ := rest.cases_head
          · exact absurd same (by decide)
          · exact absurd (recorded second).1 (by decide)
      · obtain same | ⟨_, first, _⟩ := down.cases_head
        · exact absurd same (by decide)
        · exact absurd (recorded first).1 (by decide)
    have unmarked := revisits (2, (⟨"Users.svelte", usersText, 0, 0⟩ : ExtractedDocument).loaded)
      (walked ▸ renameInfo.mem_walked_iff.mpr (.inl
        ⟨_, List.mem_cons_of_mem _ List.mem_cons_self, by decide, .inr ⟨apart, rfl⟩⟩))
      usersQuery (by decide) ⟨_, changed, .inl (Relation.ReflTransGen.single leads)⟩
    cases unmarked
  · exact unchanged _ changed

end Houdini.Vite
