import Houdini.Data.Worklist
import Houdini.Vite.FailedExtraction

/-! The compiler's database as far as a hot reload decides what to compile again: the documents with
what they depend on, and the task that their source strings belong to. -/

set_option autoImplicit false

namespace Houdini.Vite

/-- Something that a document selects. The type of a field is the one it belongs to, with its
name; a spread has none. -/
inductive SelectedItem where
  | field (fieldName type : String)
  | fragment (fieldName : String)
  | inlineFragment (fieldName : String)
  deriving DecidableEq

structure DiscoveredList where
  name : String
  nodeType : String
  node : List SelectedItem
  keys : List String
  deriving DecidableEq

/-- A document as it is written. A fragment can be the component field of a type. -/
structure Definition where
  name : String
  isFragment : Bool
  selections : List SelectedItem
  componentField : Option String
  lists : List DiscoveredList
  printed : String
  deriving DecidableEq

structure DocumentReader where
  definitions : String → List Definition
  definitions_empty : definitions "" = []

def insertSuffix : String := "_insert"
def toggleSuffix : String := "_toggle"
def upsertSuffix : String := "_upsert"
def updateSuffix : String := "_update"
def removeSuffix : String := "_remove"

structure DocumentRow where
  rawDocument : Nat
  definition : Definition
  deriving DecidableEq

structure ComponentField where
  document : Nat
  typeField : String
  fragment : String
  deriving DecidableEq

/-- Rows refer to rows that exist. -/
structure TaskDatabase where
  rawDocuments : AutoTable RawDocument
  documents : AutoTable DocumentRow
  componentFields : List ComponentField
  dependencies : List Dependency
  loadedFrom : ∀ entry ∈ documents.entries,
    entry.2.rawDocument ∈ rawDocuments.entries.map Prod.fst
  providedBy : ∀ row ∈ componentFields, row.document ∈ rawDocuments.entries.map Prod.fst
  dependsFrom : ∀ row ∈ dependencies, row.document ∈ documents.entries.map Prod.fst

def RawDocument.inTask (raw : RawDocument) (task : Option String) : Bool :=
  raw.currentTask = task || task.isNone

def SelectedItem.dependsOn (componentFields : List ComponentField) : SelectedItem → List String
  | .field _ type =>
      (componentFields.filter fun row => row.typeField = type).map ComponentField.fragment
  -- a spread has no type, so that no component field is joined to it
  | .fragment fieldName => [fieldName]
  | .inlineFragment _ => []

def firstOfEach {Row Key : Type} [DecidableEq Key] (key : Row → Key) : List Row → List Row
  | [] => []
  | row :: rest => row :: (firstOfEach key rest).filter fun other => decide (key other ≠ key row)

def DocumentReader.pending (reader : DocumentReader) (entry : Nat × RawDocument) :
    List DocumentRow :=
  if entry.2.loadedWith.getD "" = entry.2.content then []
  else (reader.definitions entry.2.content).map fun definition => ⟨entry.1, definition⟩

namespace TaskDatabase

def empty : TaskDatabase where
  rawDocuments := .empty
  documents := .empty
  componentFields := []
  dependencies := []
  loadedFrom := fun _ member => absurd member List.not_mem_nil
  providedBy := fun _ member => absurd member List.not_mem_nil
  dependsFrom := fun _ member => absurd member List.not_mem_nil

def taskRows (db : TaskDatabase) (task : Option String) : List (Nat × RawDocument) :=
  db.rawDocuments.entries.filter fun entry => entry.2.inTask task

def inTask (db : TaskDatabase) (task : Option String) (row : DocumentRow) : Bool :=
  (db.taskRows task).any fun entry => entry.1 = row.rawDocument

def loadDocuments (reader : DocumentReader) (db : TaskDatabase) (task : Option String) :
    TaskDatabase :=
  let found := (db.taskRows task).flatMap reader.pending
  { db with
    rawDocuments := db.rawDocuments.update fun raw =>
      if raw.inTask task then { raw with loadedWith := some raw.content } else raw
    documents := db.documents.insertAll found
    loadedFrom := by
      intro entry member
      rw [AutoTable.keys_update]
      rcases List.mem_append.mp member with older | added
      · exact db.loadedFrom entry older
      · have isFound : entry.2 ∈ found := by
          rw [← AutoTable.map_snd_numbered db.documents.next found]
          exact List.mem_map_of_mem added
        obtain ⟨raw, inTask, pending⟩ := List.mem_flatMap.mp isFound
        unfold DocumentReader.pending at pending
        split at pending
        · exact absurd pending List.not_mem_nil
        · obtain ⟨definition, _, same⟩ := List.mem_map.mp pending
          rw [← same]
          exact List.mem_map_of_mem (List.mem_of_mem_filter inTask)
    providedBy := by
      intro row member
      rw [AutoTable.keys_update]
      exact db.providedBy row member
    dependsFrom := fun row member => db.documents.keys_insertAll found (db.dependsFrom row member) }

def componentField? (db : TaskDatabase) (raw : Nat) : Option ComponentField :=
  ((db.documents.entries.filter fun entry => entry.2.rawDocument = raw).filterMap fun entry =>
    entry.2.definition.componentField.map fun typeField =>
      { document := raw, typeField, fragment := entry.2.definition.name }).getLast?

def upsertComponentField (rows : List ComponentField) (row : ComponentField) :
    List ComponentField :=
  (rows.filter fun other => other.typeField ≠ row.typeField ∧ other.document ≠ row.document) ++
    [row]

theorem forall_mem_upsert {good : ComponentField → Prop} {rows found : List ComponentField}
    (before : ∀ row ∈ rows, good row) (added : ∀ row ∈ found, good row) :
    ∀ row ∈ found.foldl upsertComponentField rows, good row := by
  induction found generalizing rows with
  | nil => exact before
  | cons first rest ih =>
      obtain ⟨isGood, rest⟩ := List.forall_mem_cons.mp added
      refine ih (fun row member => ?_) rest
      rcases List.mem_append.mp member with older | new
      · exact before row (List.mem_of_mem_filter older)
      · exact (List.mem_singleton.mp new) ▸ isGood

def writeMetadata (db : TaskDatabase) (task : Option String) : TaskDatabase :=
  let found := (db.taskRows task).filterMap fun entry => db.componentField? entry.1
  { db with
    componentFields := found.foldl upsertComponentField db.componentFields
    providedBy := by
      have known : ∀ row ∈ found, row.document ∈ db.rawDocuments.entries.map Prod.fst := by
        intro row member
        obtain ⟨entry, inTask, provided⟩ := List.mem_filterMap.mp member
        obtain ⟨document, _, provides⟩ := List.mem_filterMap.mp (List.mem_of_getLast? provided)
        obtain ⟨typeField, _, rfl⟩ := Option.map_eq_some_iff.mp provides
        exact List.mem_map_of_mem (List.mem_of_mem_filter inTask)
      exact forall_mem_upsert db.providedBy known }

def insertDependency (rows : List Dependency) (row : Dependency) : List Dependency :=
  if row ∈ rows then rows else rows ++ [row]

def dependsOn (db : TaskDatabase) (entry : Nat × DocumentRow) : List Dependency :=
  entry.2.definition.selections.flatMap fun item =>
    (item.dependsOn db.componentFields).map fun dependsOn => { document := entry.1, dependsOn }

theorem mem_foldl_insertDependency {rows found : List Dependency} {row : Dependency} :
    row ∈ found.foldl insertDependency rows ↔ row ∈ rows ∨ row ∈ found := by
  induction found generalizing rows with
  | nil => simp
  | cons first rest ih =>
      rw [List.foldl_cons, ih, insertDependency]
      split
      · next known =>
          rw [List.mem_cons]
          constructor
          · rintro (before | later)
            · exact .inl before
            · exact .inr (.inr later)
          · rintro (before | rfl | later)
            · exact .inl before
            · exact .inl known
            · exact .inr later
      · rw [List.mem_append, List.mem_singleton, List.mem_cons, or_assoc]

def loadDocumentDependencies (db : TaskDatabase) (task : Option String) : TaskDatabase :=
  let found := (db.documents.entries.filter fun entry => db.inTask task entry.2).flatMap db.dependsOn
  { db with
    dependencies := found.foldl insertDependency db.dependencies
    dependsFrom := by
      intro row member
      rcases mem_foldl_insertDependency.mp member with before | added
      · exact db.dependsFrom row before
      · obtain ⟨entry, inTask, depends⟩ := List.mem_flatMap.mp added
        obtain ⟨item, _, names⟩ := List.mem_flatMap.mp depends
        obtain ⟨name, _, rfl⟩ := List.mem_map.mp names
        exact List.mem_map_of_mem (List.mem_of_mem_filter inTask) }

def afterExtract (reader : DocumentReader) (db : TaskDatabase) (task : Option String) :
    TaskDatabase :=
  ((db.loadDocuments reader task).writeMetadata task).loadDocumentDependencies task

def find? (db : TaskDatabase) (name : String) : Option DocumentRow :=
  (db.documents.entries.find? fun entry => entry.2.definition.name = name).map Prod.snd

def listsWithout (db : TaskDatabase) (suffix : String) (documents : List (Nat × DocumentRow)) :
    List (DocumentRow × DiscoveredList) :=
  documents.flatMap fun entry =>
    (entry.2.definition.lists.filter fun list =>
      list.name ≠ "" ∧ (db.find? (list.name ++ suffix)).isNone).map fun list => (entry.2, list)

def operationDocument (found : DocumentRow × DiscoveredList) (suffix : String)
    (selections : List SelectedItem) : DocumentRow where
  rawDocument := found.1.rawDocument
  definition :=
    { name := found.2.name ++ suffix
      isFragment := true
      selections := selections
      componentField := none
      lists := []
      printed := "" }

/-- The documents that get what is selected of the nodes, with what they depend on. -/
def copiedOperations (db : TaskDatabase) (task : Option String) : List (DocumentRow × String) :=
  let documents := db.documents.entries.filter fun entry =>
    !entry.2.definition.isFragment && db.inTask task entry.2
  (firstOfEach (fun found => found.2.name) (db.listsWithout toggleSuffix documents)).flatMap
    fun found => [insertSuffix, toggleSuffix, upsertSuffix, updateSuffix].map fun suffix =>
      (operationDocument found suffix found.2.node, found.1.definition.name)

/-- The documents that remove from lists. What they depend on is the name that the document itself
had before, which is no name at all. -/
def removeOperations (db : TaskDatabase) (task : Option String) : List (DocumentRow × String) :=
  let documents := db.documents.entries.filter fun entry => db.inTask task entry.2
  (firstOfEach (fun found => (found.2.name, found.2.nodeType, found.1.rawDocument))
    (db.listsWithout removeSuffix documents)).map fun found =>
      (operationDocument found removeSuffix ((found.2.keys ++ ["__typename"]).map fun key =>
          SelectedItem.field key (found.2.nodeType ++ "." ++ key)),
        ((db.find? (found.2.name ++ removeSuffix)).map (·.definition.name)).getD "")

theorem firstOfEach_subset {Row Key : Type} [DecidableEq Key] (key : Row → Key) (rows : List Row) :
    firstOfEach key rows ⊆ rows := by
  induction rows with
  | nil => exact List.Subset.refl _
  | cons row rest ih =>
      rw [firstOfEach]
      intro other member
      rcases List.mem_cons.mp member with rfl | later
      · exact List.mem_cons_self
      · exact List.mem_cons_of_mem _ (ih (List.mem_of_mem_filter later))

theorem mem_listsWithout {db : TaskDatabase} {suffix : String}
    {documents : List (Nat × DocumentRow)} {found : DocumentRow × DiscoveredList} :
    found ∈ db.listsWithout suffix documents ↔
      (∃ number, (number, found.1) ∈ documents) ∧ found.2 ∈ found.1.definition.lists ∧
        found.2.name ≠ "" ∧ db.find? (found.2.name ++ suffix) = none := by
  unfold listsWithout
  rw [List.mem_flatMap]
  constructor
  · rintro ⟨entry, member, lists⟩
    obtain ⟨list, passes, rfl⟩ := List.mem_map.mp lists
    obtain ⟨isList, named⟩ := List.mem_filter.mp passes
    rw [decide_eq_true_eq, Option.isNone_iff_eq_none] at named
    exact ⟨⟨entry.1, member⟩, isList, named⟩
  · rintro ⟨⟨number, member⟩, isList, named⟩
    refine ⟨(number, found.1), member, List.mem_map.mpr ⟨found.2, List.mem_filter.mpr ⟨isList, ?_⟩, rfl⟩⟩
    rw [decide_eq_true_eq, Option.isNone_iff_eq_none]
    exact named

def insertDocuments (db : TaskDatabase) (rows : List (DocumentRow × String))
    (known : ∀ row ∈ rows, row.1.rawDocument ∈ db.rawDocuments.entries.map Prod.fst) :
    TaskDatabase :=
  { db with
    documents := db.documents.insertAll (rows.map Prod.fst)
    dependencies := db.dependencies ++ (AutoTable.numbered db.documents.next rows).map fun entry =>
      { document := entry.1, dependsOn := entry.2.2 }
    loadedFrom := by
      intro entry member
      rcases List.mem_append.mp member with older | added
      · exact db.loadedFrom entry older
      · have inserted : entry.2 ∈ rows.map Prod.fst := by
          rw [← AutoTable.map_snd_numbered db.documents.next (rows.map Prod.fst)]
          exact List.mem_map_of_mem added
        obtain ⟨row, isRow, same⟩ := List.mem_map.mp inserted
        rw [← same]
        exact known row isRow
    dependsFrom := by
      intro row member
      rcases List.mem_append.mp member with older | added
      · exact db.documents.keys_insertAll _ (db.dependsFrom row older)
      · obtain ⟨entry, isNumbered, rfl⟩ := List.mem_map.mp added
        rw [AutoTable.insertAll, List.map_append, AutoTable.numbered_map, List.map_map]
        exact List.mem_append_right _ (List.mem_map_of_mem isNumbered) }

theorem rawDocument_copiedOperations {db : TaskDatabase} {task : Option String} :
    ∀ row ∈ db.copiedOperations task,
      row.1.rawDocument ∈ db.rawDocuments.entries.map Prod.fst := by
  intro row member
  obtain ⟨found, isFound, copies⟩ := List.mem_flatMap.mp member
  obtain ⟨suffix, _, rfl⟩ := List.mem_map.mp copies
  obtain ⟨⟨number, isDocument⟩, _⟩ := mem_listsWithout.mp (firstOfEach_subset _ _ isFound)
  exact db.loadedFrom _ (List.mem_of_mem_filter isDocument)

theorem rawDocument_removeOperations {db : TaskDatabase} {task : Option String} :
    ∀ row ∈ db.removeOperations task,
      row.1.rawDocument ∈ db.rawDocuments.entries.map Prod.fst := by
  intro row member
  obtain ⟨found, isFound, rfl⟩ := List.mem_map.mp member
  obtain ⟨⟨number, isDocument⟩, _⟩ := mem_listsWithout.mp (firstOfEach_subset _ _ isFound)
  exact db.loadedFrom _ (List.mem_of_mem_filter isDocument)

def insertOperationDocuments (db : TaskDatabase) (task : Option String) : TaskDatabase :=
  let db := db.insertDocuments (db.copiedOperations task) rawDocument_copiedOperations
  db.insertDocuments (db.removeOperations task) rawDocument_removeOperations

private theorem mem_keys_filter {rows : List (Nat × RawDocument)} {drops : Nat × RawDocument → Bool}
    {number : Nat} (known : number ∈ rows.map Prod.fst)
    (stays : number ∉ (rows.filter drops).map Prod.fst) :
    number ∈ (rows.filter fun entry => !drops entry).map Prod.fst := by
  obtain ⟨entry, member, rfl⟩ := List.mem_map.mp known
  refine List.mem_map_of_mem (List.mem_filter.mpr ⟨member, ?_⟩)
  cases dropped : drops entry with
  | false => rfl
  | true => exact absurd (List.mem_map_of_mem (List.mem_filter.mpr ⟨member, dropped⟩)) stays

def insertRawDocuments (db : TaskDatabase) (rows : List RawDocument) : TaskDatabase :=
  { db with
    rawDocuments := db.rawDocuments.insertAll rows
    loadedFrom := fun entry member =>
      db.rawDocuments.keys_insertAll rows (db.loadedFrom entry member)
    providedBy := fun row member =>
      db.rawDocuments.keys_insertAll rows (db.providedBy row member) }

def build (reader : DocumentReader) (found : List ExtractedDocument) : TaskDatabase :=
  let db := empty.insertRawDocuments (found.map ExtractedDocument.row)
  (db.afterExtract reader none).insertOperationDocuments none

def isInFiles (files : List String) (entry : Nat × RawDocument) : Bool :=
  decide (entry.2.filepath ∈ files)

def deleteFiles (db : TaskDatabase) (files : List String) : TaskDatabase :=
  let gone := (db.rawDocuments.entries.filter (isInFiles files)).map Prod.fst
  let lost := (db.documents.entries.filter fun entry => entry.2.rawDocument ∈ gone).map Prod.fst
  { rawDocuments := db.rawDocuments.filter fun entry => !isInFiles files entry
    documents := db.documents.filter fun entry => entry.2.rawDocument ∉ gone
    componentFields := db.componentFields.filter fun row => row.document ∉ gone
    dependencies := db.dependencies.filter fun row => row.document ∉ lost
    loadedFrom := by
      intro entry member
      obtain ⟨known, stays⟩ := List.mem_filter.mp member
      exact mem_keys_filter (db.loadedFrom entry known) (of_decide_eq_true stays)
    providedBy := by
      intro row member
      obtain ⟨known, stays⟩ := List.mem_filter.mp member
      exact mem_keys_filter (db.providedBy row known) (of_decide_eq_true stays)
    dependsFrom := by
      intro row member
      obtain ⟨known, stays⟩ := List.mem_filter.mp member
      obtain ⟨entry, isEntry, same⟩ := List.mem_map.mp (db.dependsFrom row known)
      refine List.mem_map.mpr ⟨entry, List.mem_filter.mpr ⟨isEntry, ?_⟩, same⟩
      rw [decide_eq_true_eq]
      exact fun isGone => of_decide_eq_true stays
        (List.mem_map.mpr ⟨entry, List.mem_filter.mpr ⟨isEntry, by simpa using isGone⟩, same⟩) }

def mark (db : TaskDatabase) (task : String) (marked : Nat → RawDocument → Bool) : TaskDatabase :=
  { db with
    rawDocuments := db.rawDocuments.updateAt fun number raw =>
      if marked number raw then { raw with currentTask := some task } else raw
    loadedFrom := by
      intro entry member
      rw [AutoTable.keys_updateAt]
      exact db.loadedFrom entry member
    providedBy := by
      intro row member
      rw [AutoTable.keys_updateAt]
      exact db.providedBy row member }

def seed (db : TaskDatabase) (task : String) : List String :=
  (db.documents.entries.filter fun entry => db.inTask (some task) entry.2).map
    (·.2.definition.name)

def dependents (db : TaskDatabase) (name : String) : List String :=
  (db.dependencies.filter fun row => row.dependsOn = name).flatMap fun row =>
    (db.documents.entries.filter fun entry => entry.1 = row.document).map (·.2.definition.name)

def dependencyNames (db : TaskDatabase) (name : String) : List String :=
  (db.documents.entries.filter fun entry => entry.2.definition.name = name).flatMap fun entry =>
    (db.dependencies.filter fun row => row.document = entry.1).map Dependency.dependsOn

def names (db : TaskDatabase) : List String :=
  db.documents.entries.map (·.2.definition.name) ++ db.dependencies.map Dependency.dependsOn

def upGraph (db : TaskDatabase) : Graph String where
  next := db.dependents
  nodes := db.names
  next_subset := by
    intro name other member
    obtain ⟨row, _, named⟩ := List.mem_flatMap.mp member
    obtain ⟨entry, isEntry, rfl⟩ := List.mem_map.mp named
    exact List.mem_append_left _ (List.mem_map_of_mem (List.mem_of_mem_filter isEntry))

def downGraph (db : TaskDatabase) : Graph String where
  next := db.dependencyNames
  nodes := db.names
  next_subset := by
    intro name other member
    obtain ⟨entry, _, depends⟩ := List.mem_flatMap.mp member
    obtain ⟨row, isRow, rfl⟩ := List.mem_map.mp depends
    exact List.mem_append_right _ (List.mem_map_of_mem (List.mem_of_mem_filter isRow))

theorem seed_subset (db : TaskDatabase) (task : String) : db.seed task ⊆ db.names := by
  intro name member
  obtain ⟨entry, isEntry, rfl⟩ := List.mem_map.mp member
  exact List.mem_append_left _ (List.mem_map_of_mem (List.mem_of_mem_filter isEntry))

def reached (db : TaskDatabase) (task : String) : List String :=
  (Walk.startAll db.upGraph (db.seed task) (db.seed_subset task)).finish ++
    (Walk.startAll db.downGraph (db.seed task) (db.seed_subset task)).finish

def walk (db : TaskDatabase) (task : String) : TaskDatabase :=
  let targets := (db.documents.entries.filter fun entry =>
    entry.2.definition.name ∈ db.reached task).map (·.2.rawDocument)
  db.mark task fun number _ => number ∈ targets

/-- The callback of a batch, up to the pipeline that compiles the documents of the task. It returns
early when there is nothing to compile, before or after, unless a route view changed. -/
def batch (reader : DocumentReader) (db : TaskDatabase) (task : String) (files : List String)
    (found : List ExtractedDocument) (manifest : Bool) : TaskDatabase :=
  let saved := db.rawDocuments.entries.filter (isInFiles files)
  let extracted := (db.deleteFiles files).insertRawDocuments (found.map ExtractedDocument.row)
  let changes := extracted.rawDocuments.entries.filter (isInFiles files)
  let marked := extracted.mark task fun number raw => isInFiles files (number, raw)
  if changes.isEmpty && saved.isEmpty && !manifest then marked
  else (marked.afterExtract reader (some task)).walk task

end TaskDatabase

end Houdini.Vite
