import Houdini.Runtime.Cache.Identity
import Houdini.Runtime.Cache.Storage

/-! Writing an object into the store, guided by a selection: what becomes of the fields, the
links and the records. The list operations of a selection are left out, and so is what a
write tells subscribers, lifetimes and the stale manager. -/

set_option autoImplicit false

namespace Houdini.Runtime.Cache

abbrev WriteM := EStateM JSError InMemoryStorage

/-- What stays the same while an object is written. -/
structure WriteContext where
  config : ConfigFile := {}
  vars : GraphQLObject := []
  applyUpdates : Option (List String) := none
  disabled : Bool := false

def changeLayer (layer : LayerID) (change : Layer → EStateM.Result JSError Layer Unit) :
    WriteM Unit := fun storage =>
  match storage.data.find? (·.id == layer) with
  | none => .ok () storage
  | some current =>
      match change current with
      | .ok _ changed => .ok () (storage.setLayer changed)
      | .error error changed => .error error (storage.setLayer changed)

def writeFieldTo (layer : LayerID) (id field : String) (value : GraphQLValue) : WriteM Unit :=
  changeLayer layer fun current => .ok () (current.writeField id field value)

def writeLinkTo (layer : LayerID) (id field : String) (value : GraphQLValue) : WriteM Unit :=
  changeLayer layer fun current => current.writeLink id field value

def insertInto (layer : LayerID) (id field : String) (location : OperationLocation)
    (target : String) : WriteM Unit := fun storage =>
  match storage.data.find? (·.id == layer) with
  | none => .ok () storage
  | some current =>
      match current.insert id field location target with
      | .ok changed => .ok () (storage.setLayer changed)
      | .error error => .error error storage

def isOptimistic (layer : LayerID) (storage : InMemoryStorage) : Bool :=
  ((storage.data.find? (·.id == layer)).map (·.optimistic)).getD false

def concatItems (items : List GraphQLValue) : GraphQLValue → List GraphQLValue
  | .array others => items ++ others
  | value => items ++ [value]

/-- `concat` on the previous value, or on an empty list. -/
def appendItems (previous : GraphQLValue) (items : List GraphQLValue) :
    Except JSError GraphQLValue :=
  if !previous.truthy then .ok (.array items)
  else
    match previous with
    | .array others => .ok (.array (others ++ items))
    | .string text => .ok (.string (text ++ (GraphQLValue.array items).propertyKey))
    | _ => .error .typeError

def prependItems (previous : GraphQLValue) (items : List GraphQLValue) : GraphQLValue :=
  if !previous.truthy then .array items else .array (concatItems items previous)

def applyScalarUpdate (updates : List String) (previous : GraphQLValue)
    (items : List GraphQLValue) (value : GraphQLValue) (update : String) :
    Except JSError GraphQLValue :=
  if !updates.contains update then .ok value
  else if update = "append" then appendItems previous items
  else if update = "prepend" then .ok (prependItems previous items)
  else .ok value

/-- The value that is written for a field without a selection. A field keeps its value when
it does not accept all of the updates. -/
def scalarValue (applyUpdates updates : Option (List String)) (previous value : GraphQLValue) :
    Except JSError GraphQLValue :=
  match updates, applyUpdates with
  | some updates, some applyUpdates =>
      let applied :=
        match value with
        | .array items => applyUpdates.foldlM (applyScalarUpdate updates previous items) value
        | value => .ok value
      if applyUpdates.all updates.contains then applied else applied.map fun _ => previous
  | _, _ => .ok value

def rememberTypename (parent key : String) (value : GraphQLValue) : WriteM Unit := fun storage =>
  match value with
  | .string typename =>
      if key = "__typename" then
        .ok () { storage with typenames := storage.typenames.set parent typename }
      else .ok () storage
  | _ => .ok () storage

def missingTypename : JSError :=
  .error "Encountered interface type without __typename in the payload"

/-- An object without all of its key fields is embedded in its parent. -/
def isEmbedded (config : ConfigFile) (linkedType : String) (data : GraphQLObject) : Bool :=
  let idFields := keyFieldsForType config linkedType
  idFields.isEmpty || idFields.any fun field => !(data.property field).isDefined

structure LinkedField where
  parent : String
  key : String
  linkedType : String
  abstract : Bool

namespace LinkedField

def linkedID (field : LinkedField) (config : ConfigFile) (data : GraphQLObject) :
    Except JSError (Option String) :=
  if field.abstract && !(data.property "__typename").truthy then .error missingTypename
  else if isEmbedded config field.linkedType data then
    .ok (some (embeddedID field.parent field.key))
  else .ok (recordID config field.linkedType data)

def ownsEntry (field : LinkedField) (id : String) : Bool :=
  (field.parent ++ "." ++ field.key ++ "[").toList.isPrefixOf id.toList

/-- The record that an entry of a list is written to. An entry without an id is left out. -/
def entryID (field : LinkedField) (config : ConfigFile) (embedded : String)
    (data : GraphQLObject) : Except JSError (Option String) :=
  let typename := data.property "__typename"
  if field.abstract && !typename.truthy then .error missingTypename
  else if isEmbedded config field.linkedType data then .ok (some embedded)
  else
    .ok (recordID config (if typename.truthy then typename.propertyKey else field.linkedType) data)

end LinkedField

structure ListIDs where
  newIDs : List GraphQLValue := []
  nestedIDs : List GraphQLValue := []
  deriving DecidableEq, Repr

namespace ListIDs

/-- Add the ids of an entry in front. Nothing is assigned at the index of an entry that is
left out, which leaves a hole if there are later ones. -/
def cons (newIDs : List GraphQLValue) (nestedID : Option GraphQLValue) (others : ListIDs) :
    ListIDs where
  newIDs := newIDs ++ others.newIDs
  nestedIDs :=
    match nestedID with
    | some id => id :: others.nestedIDs
    | none => if others.nestedIDs.isEmpty then [] else .undefined :: others.nestedIDs

end ListIDs

section Entries

variable (config : ConfigFile) (field : LinkedField) (write : String → GraphQLObject → WriteM Unit)

/-- An embedded entry takes over the id of the one that it replaces. The rank of a new id is
used up even if the entry has an id of its own. -/
def embeddedEntry (previousID : GraphQLValue) : WriteM String := fun storage =>
  let generated :=
    let (rank, storage) := storage.nextRank
    .ok (embeddedEntryID field.parent field.key rank) storage
  match previousID with
  | .string id => if field.ownsEntry id then .ok id storage else generated
  | _ => generated

def writeEntry (previousID : GraphQLValue) (data : GraphQLObject) : WriteM (Option String) := do
  let embedded ← embeddedEntry field previousID
  match field.entryID config embedded data with
  | .error error => throw error
  | .ok none => return none
  | .ok (some id) => do
      write id data
      return some id

mutual

def extractEntryIDs (previousID : GraphQLValue) :
    GraphQLValue → WriteM (List GraphQLValue × Option GraphQLValue)
  | .array entries => do
      let inner ← extractNestedListIDs previousID.items entries
      return (inner.newIDs, some (.array inner.nestedIDs))
  | .null | .undefined => return ([.null], some .null)
  | .object data => do
      let id ← writeEntry config field write previousID data
      return ((id.map .string).toList, id.map .string)
  -- an entry that is no object has no fields to write
  | _ => do
      let id ← writeEntry config field write previousID []
      return ((id.map .string).toList, id.map .string)

def extractNestedListIDs (previousIDs : List GraphQLValue) :
    List GraphQLValue → WriteM ListIDs
  | [] => return {}
  | entry :: rest => do
      let (newIDs, nestedID) ← extractEntryIDs (previousIDs.headD .undefined) entry
      let others ← extractNestedListIDs previousIDs.tail rest
      return others.cons newIDs nestedID

end

end Entries

def hasListOperation (storage : InMemoryStorage) (key : String) (id : GraphQLValue) : Bool :=
  storage.data.any fun layer =>
    layer.operations.entries.any fun entry =>
      ((entry.2.fields.bind (·.get? key)).getD []).any fun operation =>
        GraphQLValue.string operation.target == id

/-- The ids that the list had before. An updated list does not count those that operations
put there. -/
def previousListIDs (storage : InMemoryStorage) (updates : List String) (key : String)
    (previous : GraphQLValue) : List GraphQLValue :=
  if updates.contains "append" || updates.contains "prepend" then
    previous.items.filter fun id => !hasListOperation storage key id
  else previous.items

def edgeNodeID (storage : InMemoryStorage) (id : GraphQLValue) : Option GraphQLValue :=
  if !id.truthy then none
  else
    let node := (storage.get id.propertyKey "node").value
    if !node.truthy then none else some (storage.get node.propertyKey "id").value

def filterIDs (storage : InMemoryStorage) (keep insert : List GraphQLValue) :
    List GraphQLValue :=
  let existingIDs := keep.filterMap (edgeNodeID storage)
  insert.filter fun id =>
    match edgeNodeID storage id with
    | none => true
    | some nodeID => !existingIDs.contains nodeID

inductive ListAction where
  | link
  | insert (location : OperationLocation)
  deriving DecidableEq, Repr

structure ListUpdate where
  linkedIDs : List GraphQLValue := []
  action : ListAction := .link
  deriving DecidableEq, Repr

section Updates

variable (filter : List GraphQLValue → List GraphQLValue → List GraphQLValue)
  (optimistic : Bool) (updates : List String) (newIDs oldIDs : List GraphQLValue)

def applyListUpdate (current : ListUpdate) (update : String) : ListUpdate :=
  if update != "replace" && !updates.contains update then current
  else if update = "prepend" then
    { linkedIDs := newIDs ++ filter newIDs oldIDs
      action := if optimistic then .insert .start else current.action }
  else if update = "append" then
    { linkedIDs := filter newIDs oldIDs ++ newIDs
      action := if optimistic then .insert .end else current.action }
  else if update = "replace" then { current with linkedIDs := newIDs }
  else current

end Updates

def updateList (context : WriteContext) (layer : LayerID) (storage : InMemoryStorage)
    (updates : Option (List String)) (ids : ListIDs) (oldIDs : List GraphQLValue) : ListUpdate :=
  match updates, context.applyUpdates with
  | some updates, some applyUpdates =>
      applyUpdates.foldl (applyListUpdate (filterIDs storage) (isOptimistic layer storage) updates
        ids.newIDs oldIDs) {}
  | _, _ => { linkedIDs := ids.nestedIDs }

def insertsUpdates (context : WriteContext) (updates : List String) : Bool :=
  (context.applyUpdates.getD []).any fun update => update != "replace" && updates.contains update

section Values

variable (context : WriteContext) (layer : LayerID) (write : String → GraphQLObject → WriteM Unit)

def writeScalar (field : SelectionField) (parent key : String) (previous value : GraphQLValue) :
    WriteM Unit := do
  match scalarValue context.applyUpdates field.updates previous value with
  | .error error => throw error
  | .ok value => do
      writeFieldTo layer parent key value
      rememberTypename parent key value

def writeObject (field : LinkedField) (data : GraphQLObject) : WriteM Unit := do
  match field.linkedID context.config data with
  | .error error => throw error
  | .ok none => writeLinkTo layer field.parent field.key .null
  | .ok (some linkedID) => do
      writeLinkTo layer field.parent field.key (.string linkedID)
      write linkedID data

def lostEntries (field : LinkedField) (oldIDs linkedIDs : List GraphQLValue) : List String :=
  (oldIDs.filterMap GraphQLValue.text?).filter fun id =>
    !(GraphQLValue.flatten linkedIDs).contains (.string id) && field.ownsEntry id

/-- Drop the embedded records that fell out of a list. A layer that is optimistic can be rolled
back, and needs them. -/
def removeLostEntries (field : LinkedField) (oldIDs linkedIDs : List GraphQLValue) :
    WriteM Unit := fun storage =>
  if isOptimistic layer storage then .ok () storage
  else .ok () ((lostEntries field oldIDs linkedIDs).foldl .removeEmbeddedRecord storage)

structure PreparedList where
  update : ListUpdate
  newIDs : List GraphQLValue
  changed : Bool
  deriving DecidableEq, Repr

def prepareList (updates : Option (List String)) (field : LinkedField) (previous : GraphQLValue)
    (entries : List GraphQLValue) : WriteM PreparedList := do
  let storage ← get
  let oldIDs := previousListIDs storage (updates.getD []) field.key previous
  let ids ← extractNestedListIDs context.config field write
    (if insertsUpdates context (updates.getD []) then [] else previous.items) entries
  let storage ← get
  let update := updateList context layer storage updates ids oldIDs
  removeLostEntries layer field oldIDs update.linkedIDs
  return { update, newIDs := ids.newIDs
           changed := update.linkedIDs != oldIDs || previous == .null ||
            (oldIDs.isEmpty && ids.newIDs.isEmpty) }

def linkList (field : LinkedField) (list : PreparedList) : WriteM Unit :=
  match list.update.action with
  | .link => writeLinkTo layer field.parent field.key (.array list.update.linkedIDs)
  | .insert location =>
      list.newIDs.forM fun id =>
        match id with
        | .string target =>
            if target = "" then pure ()
            else insertInto layer field.parent field.key location target
        | _ => pure ()

def writeList (updates : Option (List String)) (field : LinkedField) (previous : GraphQLValue)
    (entries : List GraphQLValue) : WriteM Unit := do
  let list ← prepareList context layer write updates field previous entries
  if list.changed then linkList layer field list else pure ()

end Values

section Fields

variable (context : WriteContext) (layer : LayerID)
  (write : SubscriptionSelection → String → GraphQLObject → WriteM Unit)

def linkedType (field : SelectionField) (value : GraphQLValue) : String :=
  let typename := value.member "__typename"
  if typename.truthy then typename.propertyKey else field.type

def writeProperty (parent : String) (field : SelectionField) (value : GraphQLValue) :
    WriteM Unit := do
  let storage ← get
  let key := field.key context.vars
  let previous := (storage.get parent key).value
  match field.selection with
  | none => writeScalar context layer field parent key previous value
  | some selection =>
      let linked : LinkedField :=
        { parent, key, linkedType := linkedType field value, abstract := field.abstract }
      match value with
      | .null => if previous == .null then pure () else writeLinkTo layer parent key .null
      | .object data => writeObject context layer (write selection) linked data
      | .array entries =>
          -- a field that holds something else than a list is left as it is
          if previous == .undefined || previous == .null || previous.isArray then
            writeList context layer (write selection) field.updates linked previous entries
          else pure ()
      | _ => pure ()

def writeFields (parent : String) (fields : FieldSelections) : GraphQLObject → WriteM Unit
  | [] => pure ()
  | (name, value) :: rest => do
      match fields.lookup name with
      | none => writeFields parent fields rest
      | some field => do
          writeProperty context layer write parent field value
          writeFields parent fields rest

end Fields

/-- `writeSelection` for selections of a bounded depth. -/
def writeSelectionWithin (context : WriteContext) (layer : LayerID) :
    Nat → SubscriptionSelection → String → GraphQLObject → WriteM Unit
  | 0, _, _, _ => throw .typeError
  | depth + 1, selection, parent, data =>
      if context.disabled then pure ()
      else
        match getFieldsForType selection (data.property "__typename").text? with
        | none => if data.isEmpty then pure () else throw .typeError
        | some fields =>
            writeFields context layer (writeSelectionWithin context layer depth) parent fields data

def writeSelection (context : WriteContext) (layer : LayerID) (selection : SubscriptionSelection)
    (parent : String) (data : GraphQLObject) : WriteM Unit :=
  writeSelectionWithin context layer selection.depth selection parent data

/-- The layer that a write asks for, or the one that is safe to write to. -/
def writeLayer (layer : Option LayerID) : WriteM LayerID := fun storage =>
  match layer.filter (· != 0) with
  | none =>
      let (layer, storage) := storage.topLayer
      .ok layer.id storage
  | some id =>
      match storage.getLayer id with
      | .ok layer => .ok layer.id storage
      | .error error => .error error storage

def write (context : WriteContext) (selection : SubscriptionSelection) (data : GraphQLObject)
    (parent : String := rootID) (layer : Option LayerID := none) : WriteM Unit := do
  let layer ← writeLayer layer
  writeSelection context layer selection parent data

end Houdini.Runtime.Cache
