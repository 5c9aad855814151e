import Houdini.Data.AutoTable

/-! The tables of the compiler's database that a hot reload changes, and the statements of the hot
reload that change them. -/

set_option autoImplicit false

namespace Houdini.Vite

/-- A source string that was found in a file. -/
structure RawDocument where
  offsetLine : Option Int
  offsetColumn : Option Int
  filepath : String
  content : String
  currentTask : Option String
  loadedWith : Option String
  deriving DecidableEq

structure Document where
  name : String
  rawDocument : Option Nat
  deriving DecidableEq

inductive SelectionKind where
  | field
  | fragment
  | inlineFragment
  deriving DecidableEq

structure Selection where
  fieldName : String
  kind : SelectionKind
  fragmentRef : Option String
  deriving DecidableEq

structure SelectionRef where
  parent : Option Nat
  child : Nat
  document : Nat
  deriving DecidableEq

structure Dependency where
  document : Nat
  dependsOn : String
  deriving DecidableEq

/-- The documents refer to source strings that are, or were, in their table. -/
structure Database where
  rawDocuments : AutoTable RawDocument
  documents : AutoTable Document
  selections : AutoTable Selection
  selectionRefs : AutoTable SelectionRef
  dependencies : List Dependency
  loadedFrom : ∀ entry ∈ documents.entries, ∀ raw, entry.2.rawDocument = some raw →
    raw < rawDocuments.next

namespace Database

def deleteRawDocuments (db : Database) (doomed : RawDocument → Bool) : Database :=
  let gone := (db.rawDocuments.entries.filter fun entry => doomed entry.2).map Prod.fst
  let orphaned : Document → Bool := fun document => document.rawDocument.any (· ∈ gone)
  let lost := (db.documents.entries.filter fun entry => orphaned entry.2).map Prod.fst
  { rawDocuments := db.rawDocuments.filter fun entry => !doomed entry.2
    documents := db.documents.filter fun entry => !orphaned entry.2
    selections := db.selections
    selectionRefs := db.selectionRefs.filter fun entry => entry.2.document ∉ lost
    dependencies := db.dependencies.filter fun row => row.document ∉ lost
    loadedFrom := fun entry member => db.loadedFrom entry (List.mem_of_mem_filter member) }

def deleteFiles (db : Database) (files : List String) : Database :=
  db.deleteRawDocuments fun raw => decide (raw.filepath ∈ files)

/-- Spreads of documents that are gone get the name of their fragment back. -/
def patchSpreads (db : Database) : Database :=
  { db with
    selections := db.selections.update fun selection =>
      match selection.fragmentRef with
      | some original =>
          if selection.kind = .fragment ∧
              selection.fieldName ∉ db.documents.entries.map fun entry => entry.2.name then
            { selection with fieldName := original }
          else selection
      | none => selection }

def dropOrphans (db : Database) : Database :=
  { db with
    selections := db.selections.filter fun entry =>
      db.selectionRefs.entries.any fun row =>
        row.2.parent = some entry.1 ∨ row.2.child = entry.1 }

def insertRawDocuments (db : Database) (rows : List RawDocument) : Database :=
  { db with
    rawDocuments := db.rawDocuments.insertAll rows
    loadedFrom := fun entry member raw refers =>
      Nat.lt_of_lt_of_le (db.loadedFrom entry member raw refers) (Nat.le_add_right _ _) }

def rowsOf (db : Database) (files : List String) : List (Nat × RawDocument) :=
  db.rawDocuments.entries.filter fun entry => decide (entry.2.filepath ∈ files)

end Database

end Houdini.Vite
