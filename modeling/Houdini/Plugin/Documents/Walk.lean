import Houdini.Data.OrderedMap
import Houdini.Plugin.Documents.ProcessFile

/-! The documents in the database, and how a walk brings them up to date. A full walk sees every
file, an extraction from paths only those that it is given. -/

set_option autoImplicit false

namespace Houdini.Plugin.Extraction

structure KnownDoc where
  content : Text
  row : Nat
  column : Nat
  deriving DecidableEq, Repr

structure RawDocument where
  id : Nat
  filepath : Text
  content : Text
  offsetLine : Nat
  offsetColumn : Nat
  deriving DecidableEq, Repr

def RawDocument.known (row : RawDocument) : KnownDoc :=
  ⟨row.content, row.offsetLine, row.offsetColumn⟩

structure ComponentField where
  document : Nat
  prop : Text
  deriving DecidableEq, Repr

/-- Rows get numbers that were never given before. Of a loaded document only the row that it is
from is kept here. -/
structure Database where
  rawDocuments : List RawDocument := []
  componentFields : List ComponentField := []
  documents : List Nat := []
  lastRow : Nat := 0
  deriving Repr

def Database.insert (db : Database) (doc : DiscoveredDocument) : Database where
  rawDocuments := db.rawDocuments ++
    [⟨db.lastRow + 1, doc.filePath, doc.content, doc.offsetRow, doc.offsetColumn⟩]
  componentFields :=
    if doc.prop ≠ [] then db.componentFields ++ [⟨db.lastRow + 1, doc.prop⟩]
    else db.componentFields
  documents := db.documents
  lastRow := db.lastRow + 1

def Database.delete (db : Database) (id : Nat) : Database :=
  { db with
    documents := db.documents.filter (· ≠ id)
    rawDocuments := db.rawDocuments.filter (·.id ≠ id) }

abbrev Unknown := OrderedMap Text (OrderedMap KnownDoc Nat)

def Database.unknown (db : Database) : Unknown :=
  OrderedMap.setAllIn ∅ (db.rawDocuments.map fun row => (row.filepath, row.known, row.id))

def DiscoveredDocument.known (doc : DiscoveredDocument) : KnownDoc :=
  ⟨doc.content, doc.offsetRow, doc.offsetColumn⟩

structure Writer where
  unknown : Unknown
  db : Database

def Writer.consume (writer : Writer) (doc : DiscoveredDocument) : Writer :=
  match writer.unknown.get? doc.filePath with
  | some known =>
      match known.get? doc.known with
      | some _ =>
          { writer with unknown := writer.unknown.set doc.filePath (known.erase doc.known) }
      | none => { writer with db := writer.db.insert doc }
  | none => { writer with db := writer.db.insert doc }

def Writer.finish (writer : Writer) (stale : Text → Bool) : Database :=
  (writer.unknown.entriesIn.filter fun entry => stale entry.1).foldl
    (fun db entry => db.delete entry.2.2) writer.db

def extractDocuments (db : Database) (docs : List DiscoveredDocument) (stale : Text → Bool) :
    Database :=
  (docs.foldl Writer.consume ⟨db.unknown, db⟩).finish stale

structure FileTree where
  files : List (Text × Text)
  nodup : (files.map Prod.fst).Nodup

namespace FileTree

def content? (tree : FileTree) (path : Text) : Option Text :=
  (tree.files.find? fun file => file.1 = path).map Prod.snd

def documents (tree : FileTree) (path : Text) : List DiscoveredDocument :=
  match tree.content? path with
  | some content => processFile path content
  | none => []

end FileTree

/-- Which paths a full walk visits, and which ones the patterns of the project match. A full walk
skips excluded directories, and it visits the static runtimes of plugins as well. -/
structure Patterns where
  walks : Text → Bool
  matches' : Text → Bool

def walk (patterns : Patterns) (tree : FileTree) (db : Database) : Database :=
  extractDocuments db
    ((tree.files.filter fun file => patterns.walks file.1).flatMap fun file =>
      processFile file.1 file.2)
    fun _ => true

def extractFromFilepaths (patterns : Patterns) (tree : FileTree) (files : List Text)
    (db : Database) : Database :=
  let included := files.filter patterns.matches'
  extractDocuments db (included.flatMap tree.documents) fun path => included.contains path

end Houdini.Plugin.Extraction
