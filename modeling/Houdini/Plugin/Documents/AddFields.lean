import Houdini.Plugin.Database.Tables
import Mathlib.Data.List.Dedup

/-! The keys of records are added to what documents select. -/

set_option autoImplicit false

namespace Houdini.Plugin.AddFields

def typename : String := "__typename"

/-- Selections belong to a set by their parent in a document. -/
structure SelectionSet where
  parent : Option Nat
  document : Nat
  deriving DecidableEq

structure KeyRow where
  key : String
  parentType : String
  set : SelectionSet
  deriving DecidableEq

/-- What the query reads. A type has an operation if operations start with it, and no type is
without a name. The foreign keys of the tables hold. -/
structure Project where
  tables : Tables
  types : String → Option (Option String)
  fieldType : String → Option String
  hasField : String → String → Bool
  defaultKeys : List String
  typeConfigs : List (String × List String)
  states : Nat → Option DocumentState
  task : Option String
  unnamed : types "" = none
  children : ∀ ref ∈ tables.selectionRefs.entries,
    ref.2.child ∈ tables.selections.entries.map Prod.fst
  owners : ∀ directive ∈ tables.selectionDirectives.entries,
    directive.2.owner ∈ tables.selections.entries.map Prod.fst

namespace Project

variable (project : Project)

def isFragmentRoot (set : SelectionSet) : Bool :=
  set.parent.isNone &&
    (project.tables.documents.row? set.document).any fun document => document.kind = .fragment

def parentType (set : SelectionSet) : Option String :=
  match set.parent with
  | some id =>
      (project.tables.selections.row? id).bind fun selection =>
        if selection.kind = .inlineFragment then some selection.fieldName
        else selection.type.bind project.fieldType
  | none =>
      (project.tables.documents.row? set.document).bind fun document =>
        if document.kind = .fragment then document.typeCondition else none

def isPending (document : Nat) : Bool :=
  (project.states document).any (DocumentState.isPending project.task)

def baseRow (set : SelectionSet) : Option (SelectionSet × String) :=
  (project.parentType set).bind fun type =>
    (project.types type).bind fun operation =>
      if (operation.isNone || project.isFragmentRoot set) && project.isPending set.document then
        some (set, type)
      else none

def base : List (SelectionSet × String) :=
  (project.tables.selectionRefs.entries.filterMap fun ref =>
    project.baseRow ⟨ref.2.parent, ref.2.document⟩).dedup

/-- The keys that are configured for a type come instead of the default ones. -/
def keysOf (type : String) : List String :=
  let configs := project.typeConfigs.filter fun config => config.1 = type
  typename :: if configs.isEmpty then project.defaultKeys else configs.flatMap Prod.snd

def keysUnion : List KeyRow :=
  (project.base.flatMap fun row =>
    (project.keysOf row.2).map fun key => ⟨key, row.2, row.1⟩).dedup

def existing : List (SelectionSet × Option String) :=
  project.tables.selectionRefs.entries.filterMap fun ref =>
    (project.tables.selections.row? ref.2.child).bind fun selection =>
      if selection.kind = .field then
        some (⟨ref.2.parent, ref.2.document⟩, selection.aliased)
      else none

def isFieldOf (type key : String) : Bool := key = typename || project.hasField type key

def candidates : List KeyRow :=
  project.keysUnion.filter fun row =>
    project.isFieldOf row.parentType row.key && (row.set, some row.key) ∉ project.existing

end Project

def KeyRow.selection (row : KeyRow) : StoredSelection where
  fieldName := row.key
  kind := .field
  aliased := some row.key
  type := some (row.parentType ++ "." ++ row.key)

def KeyRow.ref (row : KeyRow) (child : Nat) : SelectionRef where
  parent := row.set.parent
  child := child
  document := row.set.document
  isInternal := true

def insertKey (tables : Tables) (row : KeyRow) : Tables :=
  { tables with
    selections := tables.selections.insert row.selection
    selectionRefs := tables.selectionRefs.insert (row.ref tables.selections.next) }

def Project.addDocumentFields (project : Project) : Tables :=
  project.candidates.foldl insertKey project.tables

/-- The types of selection sets. An inline fragment without a type has that of the set around it. -/
inductive Project.SetType (project : Project) : SelectionSet → String → Prop
  | root {id : Nat} {document : StoredDocument} {type : String}
      (stored : (id, document) ∈ project.tables.documents.entries)
      (isFragment : document.kind = .fragment) (on : document.typeCondition = some type) :
      SetType project ⟨none, id⟩ type
  | field {id : Nat} {selection : StoredSelection} {document : Nat} {type : String}
      (stored : (id, selection) ∈ project.tables.selections.entries)
      (isField : selection.kind = .field)
      (of : selection.type.bind project.fieldType = some type) :
      SetType project ⟨some id, document⟩ type
  | typed {id : Nat} {selection : StoredSelection} {document : Nat}
      (stored : (id, selection) ∈ project.tables.selections.entries)
      (isInline : selection.kind = .inlineFragment) (named : selection.fieldName ≠ "") :
      SetType project ⟨some id, document⟩ selection.fieldName
  | untyped {id : Nat} {selection : StoredSelection} {ref : Nat × SelectionRef} {type : String}
      (stored : (id, selection) ∈ project.tables.selections.entries)
      (isInline : selection.kind = .inlineFragment) (unnamed : selection.fieldName = "")
      (referred : ref ∈ project.tables.selectionRefs.entries) (isChild : ref.2.child = id)
      (around : SetType project ⟨ref.2.parent, ref.2.document⟩ type) :
      SetType project ⟨some id, ref.2.document⟩ type

structure Project.IsSet (project : Project) (set : SelectionSet) (type : String) : Prop where
  filled : ∃ ref ∈ project.tables.selectionRefs.entries,
    ref.2.parent = set.parent ∧ ref.2.document = set.document
  typed : project.SetType set type
  record : project.types type = some none

structure IsKey (key : String) (selection : StoredSelection) : Prop where
  isField : selection.kind = .field
  name : selection.fieldName = key
  response : selection.aliased.getD selection.fieldName = key

def Conditional (tables : Tables) (id : Nat) : Prop :=
  ∃ directive ∈ tables.selectionDirectives.entries,
    directive.2.owner = id ∧ directive.2.directive ∈ ["include", "skip"]

def Selects (tables : Tables) (set : SelectionSet) (key : String) : Prop :=
  ∃ ref ∈ tables.selectionRefs.entries, ref.2.parent = set.parent ∧
    ref.2.document = set.document ∧ ¬ Conditional tables ref.2.child ∧
      ∃ selection, (ref.2.child, selection) ∈ tables.selections.entries ∧ IsKey key selection

structure Project.Added (project : Project) (after : Tables) (set : SelectionSet) (key : String)
    (ref : Nat × SelectionRef) : Prop where
  present : ref ∈ after.selectionRefs.entries
  fresh : ref ∉ project.tables.selectionRefs.entries
  parent : ref.2.parent = set.parent
  document : ref.2.document = set.document
  named : ∃ selection, (ref.2.child, selection) ∈ after.selections.entries ∧
    selection.fieldName = key

/-- Every record carries its identity, each key was added once at most, and what was there is there
as it was. -/
structure Project.Identifies (project : Project) (after : Tables) : Prop where
  selected : ∀ set type, project.IsSet set type → ∀ key ∈ project.keysOf type,
    project.isFieldOf type key = true → Selects after set key
  once : ∀ set key ref other, project.Added after set key ref → project.Added after set key other →
    ref = other
  selections : project.tables.selections.entries ⊆ after.selections.entries
  refs : project.tables.selectionRefs.entries ⊆ after.selectionRefs.entries
  directives : after.selectionDirectives = project.tables.selectionDirectives

/-- The set selects the key, or no field of it is aliased to the key and the query comes to the
set. -/
def Project.Suited (project : Project) (set : SelectionSet) (type key : String) : Prop :=
  Selects project.tables set key ∨
    (set, some key) ∉ project.existing ∧ project.parentType set = some type ∧
      project.isPending set.document = true

end Houdini.Plugin.AddFields
