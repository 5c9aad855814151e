import Houdini.Vite.Database

/-! A hot reload deletes the source strings of the files that changed, and puts them back when the
extraction fails. -/

set_option autoImplicit false

namespace Houdini.Vite

/-- Where the database is: in a file that the plugins share, or in memory, with a file that is
written for the plugins and read again after them. -/
inductive Backend where
  | native
  | sqlJs
  deriving DecidableEq

/-- What the extraction inserts for a source string. -/
structure ExtractedDocument where
  filepath : String
  content : String
  offsetRow : Int
  offsetColumn : Int

def ExtractedDocument.row (found : ExtractedDocument) : RawDocument where
  offsetLine := some found.offsetRow
  offsetColumn := some found.offsetColumn
  filepath := found.filepath
  content := found.content
  currentTask := none
  loadedWith := none

def RawDocument.restored (saved : RawDocument) : RawDocument := { saved with currentTask := none }

namespace Database

/-- The batch callback up to the extraction: the rows that it saves, and the database without
them. -/
def startBatch (db : Database) (deletedFiles relativePaths : List String) :
    List RawDocument × Database :=
  let db := if deletedFiles.isEmpty then db else db.deleteFiles deletedFiles
  ((db.rowsOf relativePaths).map Prod.snd,
    ((db.deleteFiles relativePaths).patchSpreads).dropOrphans)

/-- What the hook that failed leaves: a database in memory is not read again, and is written over
the file. -/
def attempt (backend : Backend) (db : Database) (found : List ExtractedDocument) : Database :=
  match backend with
  | .native => db.insertRawDocuments (found.map ExtractedDocument.row)
  | .sqlJs => db

def failedBatch (backend : Backend) (db : Database) (deletedFiles relativePaths : List String)
    (found : List ExtractedDocument) : Database :=
  let (savedDocs, db) := db.startBatch deletedFiles relativePaths
  (db.attempt backend found).insertRawDocuments (savedDocs.map RawDocument.restored)

end Database

structure LoadedDocument where
  name : String
  dependsOn : List String
  selections : List (Option Nat × List Selection)
  deriving DecidableEq

structure LoadedRow where
  offsetLine : Option Int
  offsetColumn : Option Int
  filepath : String
  content : String
  loadedWith : Option String
  documents : List LoadedDocument
  deriving DecidableEq

def RawDocument.loaded (raw : RawDocument) (documents : List LoadedDocument) : LoadedRow where
  offsetLine := raw.offsetLine
  offsetColumn := raw.offsetColumn
  filepath := raw.filepath
  content := raw.content
  loadedWith := raw.loadedWith
  documents := documents

namespace Database

def selectionsOf (db : Database) (document : Nat) : List (Option Nat × List Selection) :=
  (db.selectionRefs.entries.filter fun row => row.2.document = document).map fun row =>
    (row.2.parent,
      (db.selections.entries.filter fun selection => selection.1 = row.2.child).map Prod.snd)

def dependenciesOf (db : Database) (document : Nat) : List String :=
  (db.dependencies.filter fun row => row.document = document).map Dependency.dependsOn

def loadedDocuments (db : Database) (raw : Nat) : List LoadedDocument :=
  (db.documents.entries.filter fun entry => entry.2.rawDocument = some raw).map fun entry =>
    { name := entry.2.name
      dependsOn := db.dependenciesOf entry.1
      selections := db.selectionsOf entry.1 }

def held (db : Database) (file : String) : List LoadedRow :=
  (db.rowsOf [file]).map fun entry => entry.2.loaded (db.loadedDocuments entry.1)

/-- Every file of the batch is as it was: the same source strings, each once, with what was loaded
from them. -/
def Unchanged (before after : Database) (files : List String) : Prop :=
  ∀ file ∈ files, (after.held file).Perm (before.held file)

def leftRows (backend : Backend) (found : List ExtractedDocument) (file : String) :
    List RawDocument :=
  match backend with
  | .native => (found.map ExtractedDocument.row).filter fun raw => decide (raw.filepath ∈ [file])
  | .sqlJs => []

/-- Nothing was loaded from a file, and the hook leaves no row of it; a file that the batch deletes
too is not restored, so that the hook has to leave its rows. -/
def Unspoilt (backend : Backend) (db : Database) (deletedFiles : List String)
    (found : List ExtractedDocument) (file : String) : Prop :=
  (∀ entry ∈ db.rowsOf [file], db.loadedDocuments entry.1 = []) ∧
    if file ∈ deletedFiles then
      ((leftRows backend found file).map (·.loaded [])).Perm
        ((db.rowsOf [file]).map fun entry => entry.2.loaded [])
    else leftRows backend found file = []

theorem loadedDocuments_of_fresh {db : Database} {raw : Nat}
    (fresh : ∀ entry ∈ db.documents.entries, ∀ number, entry.2.rawDocument = some number →
      number < raw) : db.loadedDocuments raw = [] := by
  rw [loadedDocuments, List.map_eq_nil_iff, List.filter_eq_nil_iff]
  intro entry member same
  have below := fresh entry member raw (of_decide_eq_true same)
  exact Nat.lt_irrefl raw below

theorem map_loaded_of_fresh {db : Database} {next : Nat}
    (old : ∀ entry ∈ db.documents.entries, ∀ number, entry.2.rawDocument = some number →
      number < next) (start : Nat) (later : next ≤ start) (rows : List RawDocument)
    (keep : RawDocument → Bool) :
    (((AutoTable.numbered start rows).filter fun entry => keep entry.2).map fun entry =>
      entry.2.loaded (db.loadedDocuments entry.1)) = (rows.filter keep).map (·.loaded []) := by
  induction rows generalizing start with
  | nil => rfl
  | cons row rest ih =>
      have empty : db.loadedDocuments start = [] := by
        refine loadedDocuments_of_fresh fun entry member number refers => ?_
        exact Nat.lt_of_lt_of_le (old entry member number refers) later
      have others := ih (start + 1) (Nat.le_succ_of_le later)
      cases kept : keep row with
      | true => simp [AutoTable.numbered, kept, empty, others]
      | false => simp [AutoTable.numbered, kept, others]

theorem rowsOf_deleteFiles_self {db : Database} {files : List String} {file : String}
    (member : file ∈ files) : (db.deleteFiles files).rowsOf [file] = [] := by
  unfold rowsOf deleteFiles deleteRawDocuments AutoTable.filter
  rw [List.filter_filter, List.filter_eq_nil_iff]
  intro entry _ kept
  simp only [Bool.and_eq_true, decide_eq_true_eq, List.mem_singleton, Bool.not_eq_true',
    decide_eq_false_iff_not] at kept
  exact kept.2 (kept.1 ▸ member)

theorem rowsOf_deleteFiles_of_not_mem {db : Database} {files : List String} {file : String}
    (absent : file ∉ files) : (db.deleteFiles files).rowsOf [file] = db.rowsOf [file] := by
  unfold rowsOf deleteFiles deleteRawDocuments AutoTable.filter
  rw [List.filter_filter]
  refine List.filter_congr fun entry _ => ?_
  by_cases same : entry.2.filepath = file
  · simp [same, absent]
  · simp [same]

theorem held_insertRawDocuments (db : Database) (rows : List RawDocument) (file : String) :
    (db.insertRawDocuments rows).held file =
      db.held file ++
        (rows.filter fun raw => decide (raw.filepath ∈ [file])).map (·.loaded []) := by
  have added := map_loaded_of_fresh db.loadedFrom db.rawDocuments.next (Nat.le_refl _) rows
    fun raw => decide (raw.filepath ∈ [file])
  rw [← added]
  unfold held rowsOf
  rw [show (db.insertRawDocuments rows).rawDocuments.entries =
    db.rawDocuments.entries ++ AutoTable.numbered db.rawDocuments.next rows from rfl,
    List.filter_append, List.map_append]
  rfl

theorem held_attempt (backend : Backend) (db : Database) (found : List ExtractedDocument)
    (file : String) :
    (db.attempt backend found).held file =
      db.held file ++ (leftRows backend found file).map (·.loaded []) := by
  cases backend with
  | native => exact held_insertRawDocuments db _ file
  | sqlJs => exact (List.append_nil _).symm

theorem rowsOf_filter {db : Database} {files : List String} {file : String}
    (member : file ∈ files) :
    (db.rowsOf files).filter (fun entry => decide (entry.2.filepath ∈ [file])) =
      db.rowsOf [file] := by
  unfold rowsOf
  rw [List.filter_filter]
  refine List.filter_congr fun entry _ => ?_
  by_cases same : entry.2.filepath = file
  · simp [same, member]
  · simp [same]

theorem restored_loaded {db : Database} {files : List String} {file : String}
    (member : file ∈ files) :
    ((((db.rowsOf files).map Prod.snd).map RawDocument.restored).filter
      fun raw => decide (raw.filepath ∈ [file])).map (·.loaded []) =
        (db.rowsOf [file]).map fun entry => entry.2.loaded [] := by
  rw [List.map_map, List.filter_map, List.map_map, ← rowsOf_filter member]
  rfl

theorem rowsOf_startBatch (db : Database) (deletedFiles : List String) (file : String) :
    (if deletedFiles.isEmpty then db else db.deleteFiles deletedFiles).rowsOf [file] =
      if file ∈ deletedFiles then [] else db.rowsOf [file] := by
  cases deletedFiles with
  | nil => rfl
  | cons first rest =>
      rw [if_neg (by simp)]
      split
      · next member => exact rowsOf_deleteFiles_self member
      · next absent => exact rowsOf_deleteFiles_of_not_mem absent

theorem held_failedBatch (backend : Backend) (db : Database) (deletedFiles : List String)
    {relativePaths : List String} (found : List ExtractedDocument) {file : String}
    (member : file ∈ relativePaths) :
    (db.failedBatch backend deletedFiles relativePaths found).held file =
      (leftRows backend found file).map (·.loaded []) ++
        if file ∈ deletedFiles then []
        else (db.rowsOf [file]).map fun entry => entry.2.loaded [] := by
  unfold failedBatch startBatch
  simp only []
  rw [held_insertRawDocuments, held_attempt, restored_loaded member, rowsOf_startBatch]
  generalize (if deletedFiles.isEmpty then db else db.deleteFiles deletedFiles) = cleared
  have emptied : ((cleared.deleteFiles relativePaths).patchSpreads).dropOrphans.held file = [] := by
    have nothing := @rowsOf_deleteFiles_self cleared _ _ member
    rw [held, show ((cleared.deleteFiles relativePaths).patchSpreads).dropOrphans.rowsOf [file] =
      (cleared.deleteFiles relativePaths).rowsOf [file] from rfl, nothing]
    rfl
  rw [emptied, List.nil_append]
  split <;> rfl

/-- A failed batch leaves its files as they were exactly if nothing was loaded from them and the
hook left nothing of its own. -/
theorem failedBatch_unchanged_iff (backend : Backend) (db : Database)
    (deletedFiles relativePaths : List String) (found : List ExtractedDocument) :
    Unchanged db (db.failedBatch backend deletedFiles relativePaths found) relativePaths ↔
      ∀ file ∈ relativePaths, Unspoilt backend db deletedFiles found file := by
  refine forall₂_congr fun file member => ?_
  rw [held_failedBatch backend db deletedFiles found member]
  constructor
  · intro same
    have bare : ∀ entry ∈ db.rowsOf [file], db.loadedDocuments entry.1 = [] := by
      intro entry present
      have before : entry.2.loaded (db.loadedDocuments entry.1) ∈ db.held file :=
        List.mem_map_of_mem present
      rcases List.mem_append.mp (same.mem_iff.mpr before) with left | restored
      · obtain ⟨raw, _, equal⟩ := List.mem_map.mp left
        exact (congrArg LoadedRow.documents equal).symm
      · split at restored
        · exact absurd restored List.not_mem_nil
        · obtain ⟨other, _, equal⟩ := List.mem_map.mp restored
          exact (congrArg LoadedRow.documents equal).symm
    have held : db.held file = (db.rowsOf [file]).map fun entry => entry.2.loaded [] :=
      List.map_congr_left fun entry present => by rw [bare entry present]
    refine ⟨bare, ?_⟩
    rw [held] at same
    split
    · next gone =>
        rw [if_pos gone, List.append_nil] at same
        exact same
    · next kept =>
        rw [if_neg kept] at same
        have lengths := same.length_eq
        simp only [List.length_append, List.length_map] at lengths
        exact List.length_eq_zero_iff.mp (by omega)
  · rintro ⟨bare, left⟩
    have held : db.held file = (db.rowsOf [file]).map fun entry => entry.2.loaded [] :=
      List.map_congr_left fun entry present => by rw [bare entry present]
    rw [held]
    split
    · next gone =>
        rw [if_pos gone] at left
        rw [List.append_nil]
        exact left
    · next kept =>
        rw [if_neg kept] at left
        rw [left]
        exact List.Perm.refl _

/-- A file with a loaded query: the hook fails before it inserts anything, and the query is gone. -/
theorem failedBatch_changed :
    ¬ ∀ (backend : Backend) (db : Database) (relativePaths : List String)
      (found : List ExtractedDocument),
      Unchanged db (db.failedBatch backend [] relativePaths found) relativePaths := by
  intro unchanged
  have lost := unchanged .native
    { rawDocuments := AutoTable.empty.insertAll [⟨some 0, some 0, "a.gql", "query A { id }",
        none, some "query A { id }"⟩]
      documents := AutoTable.empty.insertAll [⟨"A", some 1⟩]
      selections := .empty
      selectionRefs := .empty
      dependencies := []
      loadedFrom := by simp [AutoTable.empty, AutoTable.insertAll, AutoTable.numbered] }
    ["a.gql"] [] "a.gql" List.mem_cons_self
  revert lost
  decide

end Database

end Houdini.Vite
