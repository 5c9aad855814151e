import Houdini.Vite.TaskDatabaseProperties
import Mathlib.Data.List.Pairwise

/-! Which documents a hot reload compiles again. What an edit affects is told by the sources before
and after it; the walk only sees the dependencies that have a row when it starts. -/

set_option autoImplicit false

namespace Houdini.Vite

open AutoTable (numbered)
open TaskDatabase (providedField copiedSuffixes)

section Sources

variable (reader : DocumentReader)

def definitionsOf (rows : List ExtractedDocument) : List Definition :=
  rows.flatMap fun row => reader.definitions row.content

/-- The component fields of some source strings, with the fragments that they stand for. -/
def providedFields (rows : List ExtractedDocument) : List (String × String) :=
  rows.filterMap fun row => providedField (reader.definitions row.content)

def SelectedItem.Names (fields : List (String × String)) : SelectedItem → String → Prop
  | .field _ type, name => (type, name) ∈ fields
  | .fragment fieldName, name => name = fieldName
  | .inlineFragment _, _ => False

def Definition.DependsOn (definition : Definition) (fields : List (String × String))
    (name : String) : Prop :=
  ∃ item ∈ definition.selections, item.Names fields name

def Definition.operationNames (definition : Definition) : List String :=
  (definition.lists.filter fun list => list.name ≠ "").flatMap fun list =>
    (if definition.isFragment then [removeSuffix] else removeSuffix :: copiedSuffixes).map
      (list.name ++ ·)

def Leads (rows : List ExtractedDocument) (definition other : Definition) : Prop :=
  definition ∈ definitionsOf reader rows ∧ other ∈ definitionsOf reader rows ∧
    ∃ name, definition.DependsOn (providedFields reader rows) name ∧
      (name = other.name ∨ name ∈ other.operationNames)

def Reaches (rows : List ExtractedDocument) : Definition → Definition → Prop :=
  Relation.ReflTransGen (Leads reader rows)

/-- A project that compiles: component fields and named lists have names of their own. -/
structure Project where
  rows : List ExtractedDocument
  fields_nodup : ((providedFields reader rows).map Prod.fst).Nodup
  lists_nodup : ((definitionsOf reader rows).flatMap fun definition =>
    (definition.lists.filter fun list => list.name ≠ "").map DiscoveredList.name).Nodup

end Sources

def operationDependency (definition : Definition) (suffix : String) : String :=
  if suffix = removeSuffix then "" else definition.name

variable {reader : DocumentReader}

structure Edit (project : Project reader) where
  task : String
  files : List String
  found : List ExtractedDocument
  manifest : Bool
  found_within : ∀ row ∈ found, row.filepath ∈ files
  fields_nodup : ((providedFields reader
    ((project.rows.filter fun row => row.filepath ∉ files) ++ found)).map Prod.fst).Nodup

namespace Edit

variable {project : Project reader} (edit : Edit project)

def kept : List ExtractedDocument := project.rows.filter fun row => row.filepath ∉ edit.files

def replaced : List ExtractedDocument := project.rows.filter fun row => row.filepath ∈ edit.files

def rows : List ExtractedDocument := edit.kept ++ edit.found

/-- The document was added, removed or changed, which renames are as well. -/
def Changed (definition : Definition) : Prop :=
  definition ∈ definitionsOf reader edit.replaced ∧ definition ∉ definitionsOf reader edit.found ∨
    definition ∈ definitionsOf reader edit.found ∧ definition ∉ definitionsOf reader edit.replaced

def Affected (definition : Definition) : Prop :=
  ∃ changed, edit.Changed changed ∧
    (Reaches reader project.rows definition changed ∨ Reaches reader edit.rows definition changed)

def batch : TaskDatabase :=
  (TaskDatabase.build reader project.rows).batch reader edit.task edit.files edit.found edit.manifest

def Revisits : Prop :=
  ∀ entry ∈ edit.batch.rawDocuments.entries, ∀ definition ∈ reader.definitions entry.2.content,
    edit.Affected definition → entry.2.currentTask = some edit.task

def Generates (definition : Definition) (list : DiscoveredList) (suffix : String) : Prop :=
  list ∈ definition.lists ∧ list.name ≠ "" ∧
    (definition.isFragment = false ∧ suffix ∈ copiedSuffixes ∧
        (∀ other ∈ definitionsOf reader project.rows, other.name ≠ list.name ++ toggleSuffix) ∨
      suffix = removeSuffix ∧
        ∀ other ∈ definitionsOf reader project.rows, other.name ≠ list.name ++ removeSuffix)

/-- The dependencies that have a row when the walk starts. The other files have the rows of the
build, and the operations of their lists have rows as well; those that remove depend on no
document. -/
inductive Recorded : String → String → Prop
  | kept {definition : Definition} {name : String}
      (isKept : definition ∈ definitionsOf reader edit.kept)
      (depends : definition.DependsOn (providedFields reader project.rows) name) :
      Recorded definition.name name
  | found {definition : Definition} {name : String}
      (isFound : definition ∈ definitionsOf reader edit.found)
      (depends : definition.DependsOn (providedFields reader edit.rows) name) :
      Recorded definition.name name
  | operation {definition : Definition} {list : DiscoveredList} {suffix : String}
      (isKept : definition ∈ definitionsOf reader edit.kept)
      (generates : @Generates reader project definition list suffix) :
      Recorded (list.name ++ suffix) (operationDependency definition suffix)

def Has (row : ExtractedDocument) (name : String) : Prop :=
  ∃ definition ∈ reader.definitions row.content, name = definition.name ∨
    ∃ list suffix, @Generates reader project definition list suffix ∧ name = list.name ++ suffix

/-- The recorded dependencies lead from the name to a document in the files of the batch, or from
such a document to the name. -/
def Meets (name : String) : Prop :=
  ∃ origin ∈ definitionsOf reader edit.found,
    Relation.ReflTransGen edit.Recorded name origin.name ∨
      Relation.ReflTransGen edit.Recorded origin.name name

/-- Where the edit affects a source string of another file, that meets the edit by what is
recorded. -/
def Connects : Prop :=
  ∀ row ∈ edit.kept, ∀ definition ∈ reader.definitions row.content, edit.Affected definition →
    ∃ name, @Has reader project row name ∧ edit.Meets name

end Edit

namespace Project

variable (project : Project reader)

def sources : List (Nat × ExtractedDocument) := numbered 1 project.rows

theorem mem_rows_iff {row : ExtractedDocument} :
    row ∈ project.rows ↔ ∃ raw, (raw, row) ∈ project.sources :=
  TaskDatabase.exists_mem_numbered.symm

theorem mem_definitionsOf_iff {rows : List ExtractedDocument} {next : Nat}
    {definition : Definition} :
    definition ∈ definitionsOf reader rows ↔
      ∃ raw row, (raw, row) ∈ numbered next rows ∧ definition ∈ reader.definitions row.content := by
  unfold definitionsOf
  rw [List.mem_flatMap]
  constructor
  · rintro ⟨row, isRow, isFound⟩
    obtain ⟨raw, isSource⟩ := TaskDatabase.exists_mem_numbered.mpr isRow
    exact ⟨raw, row, isSource, isFound⟩
  · rintro ⟨raw, row, isSource, isFound⟩
    exact ⟨row, TaskDatabase.exists_mem_numbered.mp ⟨raw, isSource⟩, isFound⟩

def start : TaskDatabase :=
  TaskDatabase.empty.insertRawDocuments (project.rows.map ExtractedDocument.row)

def loaded : TaskDatabase := project.start.afterExtract reader none

theorem taskRows_start :
    project.start.taskRows none = project.sources.map fun entry => (entry.1, entry.2.row) := by
  have all : project.start.taskRows none = project.start.rawDocuments.entries :=
    List.filter_eq_self.mpr fun entry _ => by simp [RawDocument.inTask]
  rw [all]
  exact AutoTable.numbered_map _ _ _

theorem fresh_start : project.start.Fresh none where
  unloaded := by
    intro entry member
    rw [taskRows_start] at member
    obtain ⟨source, _, rfl⟩ := List.mem_map.mp member
    rfl
  undefined := fun _ _ _ member => absurd member List.not_mem_nil
  unprovided := fun _ _ _ member => absurd member List.not_mem_nil

end Project

theorem TaskDatabase.fields_newFields (db : TaskDatabase) (task : Option String) :
    (db.newFields reader task).map (fun row => (row.typeField, row.fragment)) =
      (db.taskRows task).filterMap fun entry => providedField (reader.definitions entry.2.content) := by
  unfold newFields
  rw [List.map_filterMap]
  refine List.filterMap_congr fun entry _ => ?_
  rw [Option.map_map]
  exact Option.map_id'

theorem filterMap_numbered {next : Nat} {rows : List ExtractedDocument} :
    ((numbered next rows).filterMap fun entry => providedField (reader.definitions entry.2.content)) =
      providedFields reader rows := by
  unfold providedFields
  conv_rhs => rw [← AutoTable.map_snd_numbered next rows, List.filterMap_map]
  rfl

namespace Project

variable (project : Project reader)

theorem fields_start :
    (project.start.newFields reader none).map (fun row => (row.typeField, row.fragment)) =
      providedFields reader project.rows := by
  rw [TaskDatabase.fields_newFields, taskRows_start, List.filterMap_map]
  exact filterMap_numbered

theorem unambiguous_start : project.start.Unambiguous reader none where
  fields := by
    have names := project.fields_nodup
    rw [← fields_start, List.map_map] at names
    exact names
  documents := List.nodup_nil

theorem mem_taskRows_start {raw : Nat} {row : RawDocument} :
    (raw, row) ∈ project.start.taskRows none ↔
      ∃ source, (raw, source) ∈ project.sources ∧ row = source.row := by
  rw [taskRows_start, List.mem_map]
  constructor
  · rintro ⟨entry, isSource, same⟩
    obtain ⟨rfl, rfl⟩ := Prod.mk.inj same
    exact ⟨entry.2, isSource, rfl⟩
  · rintro ⟨source, isSource, rfl⟩
    exact ⟨_, isSource, rfl⟩

theorem holds_loaded {raw : Nat} {definition : Definition} :
    project.loaded.Holds raw definition ↔
      ∃ row, (raw, row) ∈ project.sources ∧ definition ∈ reader.definitions row.content := by
  refine (TaskDatabase.holds_afterExtract project.fresh_start).trans ?_
  constructor
  · rintro (⟨_, member⟩ | ⟨_, inTask, isFound⟩)
    · exact absurd member List.not_mem_nil
    · obtain ⟨source, isSource, rfl⟩ := project.mem_taskRows_start.mp inTask
      exact ⟨source, isSource, isFound⟩
  · rintro ⟨source, isSource, isFound⟩
    exact .inr ⟨_, project.mem_taskRows_start.mpr ⟨source, isSource, rfl⟩, isFound⟩

end Project

/-- The names that something that is selected makes a document depend on are told by the names of the
component fields. -/
theorem SelectedItem.mem_dependsOn {componentFields : List ComponentField}
    {fields : List (String × String)}
    (same : ∀ field, (∃ row ∈ componentFields, (row.typeField, row.fragment) = field) ↔
      field ∈ fields) {item : SelectedItem} {name : String} :
    name ∈ item.dependsOn componentFields ↔ item.Names fields name := by
  cases item with
  | field fieldName type =>
      rw [SelectedItem.dependsOn, SelectedItem.Names, ← same, List.mem_map]
      constructor
      · rintro ⟨row, isRow, rfl⟩
        obtain ⟨member, rfl⟩ := List.mem_filter.mp isRow |>.imp id of_decide_eq_true
        exact ⟨row, member, rfl⟩
      · rintro ⟨row, member, equal⟩
        obtain ⟨rfl, rfl⟩ := Prod.mk.inj equal
        exact ⟨row, List.mem_filter.mpr ⟨member, decide_eq_true rfl⟩, rfl⟩
  | fragment fieldName => exact List.mem_singleton
  | inlineFragment fieldName => exact ⟨fun member => absurd member List.not_mem_nil, False.elim⟩

namespace Project

variable (project : Project reader)

theorem records_loaded {raw : Nat} {definition : Definition} {name : String} :
    project.loaded.Records raw definition name ↔
      ∃ row, (raw, row) ∈ project.sources ∧ definition ∈ reader.definitions row.content ∧
        definition.DependsOn (providedFields reader project.rows) name := by
  have same (field : String × String) :
      (∃ row ∈ project.start.componentFields ++ project.start.newFields reader none,
        (row.typeField, row.fragment) = field) ↔ field ∈ providedFields reader project.rows := by
    rw [← fields_start]
    exact List.mem_map.symm
  refine (TaskDatabase.records_afterExtract project.fresh_start project.unambiguous_start).trans ?_
  simp only [SelectedItem.mem_dependsOn same]
  constructor
  · rintro (⟨_, member, _⟩ | ⟨_, inTask, isFound, selects⟩)
    · exact absurd member List.not_mem_nil
    · obtain ⟨source, isSource, rfl⟩ := project.mem_taskRows_start.mp inTask
      exact ⟨source, isSource, isFound, selects⟩
  · rintro ⟨source, isSource, isFound, selects⟩
    exact .inr ⟨_, project.mem_taskRows_start.mpr ⟨source, isSource, rfl⟩, isFound, selects⟩

theorem eq_of_mem_flatMap {Item Part : Type} {items : List Item} {parts : Item → List Part}
    (nodup : (items.flatMap parts).Nodup) {item other : Item} (member : item ∈ items)
    (otherMember : other ∈ items) {part : Part} (own : part ∈ parts item)
    (otherOwn : part ∈ parts other) : item = other := by
  by_contra different
  have symmetric : Std.Symm (Function.onFun List.Disjoint parts) := 
    ⟨fun _ _ apart part own other => apart other own⟩
  exact (List.nodup_flatMap.mp nodup).2.forall member otherMember different own otherOwn

theorem distinctLists_loaded : project.loaded.DistinctLists := by
  rintro ⟨⟨raw, definition⟩, list⟩ ⟨⟨otherRaw, other⟩, otherList⟩ holds isList otherHolds isOtherList
    named sameName
  obtain ⟨row, isSource, isFound⟩ := project.holds_loaded.mp holds
  obtain ⟨otherRow, isOtherSource, isOtherFound⟩ := project.holds_loaded.mp otherHolds
  simp only at isFound isOtherFound isList isOtherList named sameName
  have names (definition : Definition) {list : DiscoveredList} (isList : list ∈ definition.lists)
      (named : list.name ≠ "") : list.name ∈ (definition.lists.filter fun list =>
        list.name ≠ "").map DiscoveredList.name :=
    List.mem_map_of_mem (List.mem_filter.mpr ⟨isList, decide_eq_true named⟩)
  have own := names definition isList named
  have otherOwn := names other isOtherList (sameName ▸ named)
  rw [sameName] at otherOwn
  have nodup := project.lists_nodup
  unfold definitionsOf at nodup
  rw [← AutoTable.map_snd_numbered 1 project.rows, List.flatMap_map, List.flatMap_assoc] at nodup
  have sameSource := eq_of_mem_flatMap nodup isSource isOtherSource
    (List.mem_flatMap.mpr ⟨_, isFound, own⟩) (List.mem_flatMap.mpr ⟨_, isOtherFound, otherOwn⟩)
  obtain ⟨rfl, rfl⟩ := Prod.mk.inj sameSource
  have ofRow := (List.nodup_flatMap.mp nodup).1 _ isSource
  obtain rfl := eq_of_mem_flatMap ofRow isFound isOtherFound own otherOwn
  have ofDefinition := (List.nodup_flatMap.mp ofRow).1 _ isFound
  have sameList := List.inj_on_of_nodup_map ofDefinition
    (List.mem_filter.mpr ⟨isOtherList, decide_eq_true (sameName ▸ named)⟩)
    (List.mem_filter.mpr ⟨isList, decide_eq_true named⟩) sameName
  rw [sameList]

theorem find?_loaded {name : String} : project.loaded.find? name = none ↔
    ∀ other ∈ definitionsOf reader project.rows, other.name ≠ name := by
  rw [TaskDatabase.find?_eq_none_iff]
  constructor
  · intro absent other member
    obtain ⟨raw, row, isSource, isFound⟩ := (@mem_definitionsOf_iff reader _ 1 _).mp member
    exact absent raw other (project.holds_loaded.mpr ⟨row, isSource, isFound⟩)
  · intro absent raw other holds
    obtain ⟨row, isSource, isFound⟩ := project.holds_loaded.mp holds
    exact absent other (mem_definitionsOf_iff.mpr ⟨raw, row, isSource, isFound⟩)

def copied : TaskDatabase :=
  project.loaded.insertDocuments (project.loaded.copiedOperations none)
    TaskDatabase.rawDocument_copiedOperations

theorem build_eq : TaskDatabase.build reader project.rows =
    project.copied.insertDocuments (project.copied.removeOperations none)
      TaskDatabase.rawDocument_removeOperations := rfl

theorem holds_copied {raw : Nat} {definition : Definition}
    (holds : project.copied.Holds raw definition) :
    project.loaded.Holds raw definition ∨ definition.lists = [] ∧
      ∃ original list, project.loaded.Holds raw original ∧
        @Edit.Generates reader project original list toggleSuffix ∧
        ∃ suffix ∈ copiedSuffixes, definition.name = list.name ++ suffix := by
  rcases TaskDatabase.holds_insertDocuments.mp holds with old | ⟨depends, isRow⟩
  · exact .inl old
  · obtain ⟨originalRaw, original, list, isOriginal, operation, isList, named, new, _, suffix,
      isSuffix, same⟩ := (TaskDatabase.mem_copiedOperations project.distinctLists_loaded).mp isRow
    obtain ⟨rfl, rfl⟩ := DocumentRow.mk.inj same
    exact .inr ⟨rfl, original, list, isOriginal, ⟨isList, named, .inl ⟨operation, by decide,
      project.find?_loaded.mp new⟩⟩, suffix, isSuffix, rfl⟩

theorem distinctLists_copied : project.copied.DistinctLists := by
  intro found other holds isList otherHolds isOtherList
  have ofLoaded {row : DocumentRow} {list : DiscoveredList}
      (holds : project.copied.Holds row.rawDocument row.definition)
      (isList : list ∈ row.definition.lists) :
      project.loaded.Holds row.rawDocument row.definition := by
    rcases project.holds_copied holds with old | ⟨empty, _⟩
    · exact old
    · rw [empty] at isList
      exact absurd isList List.not_mem_nil
  exact project.distinctLists_loaded (ofLoaded holds isList) isList (ofLoaded otherHolds isOtherList)
    isOtherList

theorem copied_ne_remove {list other : String} {suffix : String} (isCopied : suffix ∈ copiedSuffixes) :
    list ++ suffix ≠ other ++ removeSuffix := by
  intro same
  have texts := congrArg String.toList same
  rw [String.toList_append, String.toList_append] at texts
  have all : ∀ suffix ∈ copiedSuffixes, suffix.toList.length = removeSuffix.toList.length ∧
      suffix.toList ≠ removeSuffix.toList := by decide
  exact (all suffix isCopied).2 (List.append_inj' texts (all suffix isCopied).1).2

theorem find?_copied {list : DiscoveredList} :
    project.copied.find? (list.name ++ removeSuffix) = none ↔
      ∀ other ∈ definitionsOf reader project.rows, other.name ≠ list.name ++ removeSuffix := by
  rw [← find?_loaded, TaskDatabase.find?_eq_none_iff, TaskDatabase.find?_eq_none_iff]
  constructor
  · exact fun absent raw other holds =>
      absent raw other (TaskDatabase.holds_insertDocuments.mpr (.inl holds))
  · intro absent raw other holds
    rcases project.holds_copied holds with old | ⟨_, _, _, _, _, suffix, isSuffix, named⟩
    · exact absent raw other old
    · rw [named]
      exact copied_ne_remove isSuffix

theorem operationDependency_copied {definition : Definition} {suffix : String}
    (isCopied : suffix ∈ copiedSuffixes) : operationDependency definition suffix = definition.name := by
  refine if_neg fun same => ?_
  exact @copied_ne_remove "" "" suffix isCopied (congrArg ("" ++ ·) same)

theorem exists_operation_iff {raw : Nat} {name depends : String} :
    (∃ document, document.name = name ∧
        ((⟨raw, document⟩, depends) ∈ project.loaded.copiedOperations none ∨
          (⟨raw, document⟩, depends) ∈ project.copied.removeOperations none)) ↔
      ∃ row definition list suffix, (raw, row) ∈ project.sources ∧
        definition ∈ reader.definitions row.content ∧
        @Edit.Generates reader project definition list suffix ∧ name = list.name ++ suffix ∧
          depends = operationDependency definition suffix := by
  constructor
  · rintro ⟨document, rfl, copies | removes⟩
    · obtain ⟨originalRaw, original, list, isOriginal, operation, isList, named, new, rfl, suffix,
        isSuffix, same⟩ := (TaskDatabase.mem_copiedOperations project.distinctLists_loaded).mp copies
      obtain ⟨rfl, rfl⟩ := DocumentRow.mk.inj same
      obtain ⟨row, isSource, isFound⟩ := project.holds_loaded.mp isOriginal
      exact ⟨row, original, list, suffix, isSource, isFound, ⟨isList, named, .inl ⟨operation,
        isSuffix, project.find?_loaded.mp new⟩⟩, rfl, (operationDependency_copied isSuffix).symm⟩
    · obtain ⟨originalRaw, original, list, isOriginal, isList, named, new, rfl, same⟩ :=
        (TaskDatabase.mem_removeOperations project.distinctLists_copied).mp removes
      obtain ⟨rfl, rfl⟩ := DocumentRow.mk.inj same
      rcases project.holds_copied isOriginal with old | ⟨empty, _⟩
      · obtain ⟨row, isSource, isFound⟩ := project.holds_loaded.mp old
        exact ⟨row, original, list, removeSuffix, isSource, isFound, ⟨isList, named, .inr ⟨rfl,
          project.find?_copied.mp new⟩⟩, rfl, (if_pos rfl).symm⟩
      · rw [empty] at isList
        exact absurd isList List.not_mem_nil
  · rintro ⟨row, definition, list, suffix, isSource, isFound, ⟨isList, named, kind⟩, rfl, rfl⟩
    have holds := project.holds_loaded.mpr ⟨row, isSource, isFound⟩
    rcases kind with ⟨operation, isSuffix, new⟩ | ⟨rfl, new⟩
    · refine ⟨_, rfl, .inl ((TaskDatabase.mem_copiedOperations project.distinctLists_loaded).mpr
        ⟨raw, definition, list, holds, operation, isList, named, project.find?_loaded.mpr new,
          operationDependency_copied isSuffix, suffix, isSuffix, rfl⟩)⟩
    · refine ⟨_, rfl, .inr ((TaskDatabase.mem_removeOperations project.distinctLists_copied).mpr
        ⟨raw, definition, list, TaskDatabase.holds_insertDocuments.mpr (.inl holds), isList, named,
          project.find?_copied.mpr new, if_pos rfl, rfl⟩)⟩

theorem holds_build {raw : Nat} {name : String} :
    (∃ document, document.name = name ∧
        (TaskDatabase.build reader project.rows).Holds raw document) ↔
      ∃ row, (raw, row) ∈ project.sources ∧ @Edit.Has reader project row name := by
  rw [build_eq]
  simp only [TaskDatabase.holds_insertDocuments, copied, or_assoc]
  constructor
  · rintro ⟨document, rfl, holds | ⟨depends, copies⟩ | ⟨depends, removes⟩⟩
    · obtain ⟨row, isSource, isFound⟩ := project.holds_loaded.mp holds
      exact ⟨row, isSource, document, isFound, .inl rfl⟩
    · obtain ⟨row, definition, list, suffix, isSource, isFound, generates, named, _⟩ :=
        project.exists_operation_iff.mp ⟨document, rfl, .inl copies⟩
      exact ⟨row, isSource, definition, isFound, .inr ⟨list, suffix, generates, named⟩⟩
    · obtain ⟨row, definition, list, suffix, isSource, isFound, generates, named, _⟩ :=
        project.exists_operation_iff.mp ⟨document, rfl, .inr removes⟩
      exact ⟨row, isSource, definition, isFound, .inr ⟨list, suffix, generates, named⟩⟩
  · rintro ⟨row, isSource, definition, isFound, rfl | ⟨list, suffix, generates, rfl⟩⟩
    · exact ⟨definition, rfl, .inl (project.holds_loaded.mpr ⟨row, isSource, isFound⟩)⟩
    · obtain ⟨document, named, copies | removes⟩ := project.exists_operation_iff.mpr
        ⟨row, definition, list, suffix, isSource, isFound, generates, rfl, rfl⟩
      · exact ⟨document, named, .inr (.inl ⟨_, copies⟩)⟩
      · exact ⟨document, named, .inr (.inr ⟨_, removes⟩)⟩

theorem records_build {raw : Nat} {name other : String} :
    (∃ document, document.name = name ∧
        (TaskDatabase.build reader project.rows).Records raw document other) ↔
      ∃ row, (raw, row) ∈ project.sources ∧ ∃ definition ∈ reader.definitions row.content,
        name = definition.name ∧ definition.DependsOn (providedFields reader project.rows) other ∨
          ∃ list suffix, @Edit.Generates reader project definition list suffix ∧
            name = list.name ++ suffix ∧ other = operationDependency definition suffix := by
  rw [build_eq]
  simp only [TaskDatabase.records_insertDocuments, copied, or_assoc]
  constructor
  · rintro ⟨document, rfl, records | copies | removes⟩
    · obtain ⟨row, isSource, isFound, depends⟩ := project.records_loaded.mp records
      exact ⟨row, isSource, document, isFound, .inl ⟨rfl, depends⟩⟩
    · obtain ⟨row, definition, list, suffix, isSource, isFound, generates, named, depends⟩ :=
        project.exists_operation_iff.mp ⟨document, rfl, .inl copies⟩
      exact ⟨row, isSource, definition, isFound, .inr ⟨list, suffix, generates, named, depends⟩⟩
    · obtain ⟨row, definition, list, suffix, isSource, isFound, generates, named, depends⟩ :=
        project.exists_operation_iff.mp ⟨document, rfl, .inr removes⟩
      exact ⟨row, isSource, definition, isFound, .inr ⟨list, suffix, generates, named, depends⟩⟩
  · rintro ⟨row, isSource, definition, isFound, ⟨rfl, depends⟩ |
      ⟨list, suffix, generates, rfl, rfl⟩⟩
    · exact ⟨definition, rfl, .inl (project.records_loaded.mpr ⟨row, isSource, isFound, depends⟩)⟩
    · obtain ⟨document, named, copies | removes⟩ := project.exists_operation_iff.mpr
        ⟨row, definition, list, suffix, isSource, isFound, generates, rfl, rfl⟩
      · exact ⟨document, named, .inr (.inl copies)⟩
      · exact ⟨document, named, .inr (.inr removes)⟩

end Project

end Houdini.Vite
