import Houdini.Runtime.Cache.GarbageCollector
import Mathlib.Data.List.Infix

/-! Walks along the links of the store: how subscribers are added to the records that their
selection visits, and how a record that is deleted loses them. What subscribers are told is left
out. -/

set_option autoImplicit false

namespace Houdini.Runtime.Cache

/-- A field that a walk comes across. Everything below a masked field is masked. -/
structure FieldVisit where
  record : String
  key : String
  masked : Bool
  deriving DecidableEq, Repr

abbrev WalkM := StateM InMemoryStorage

abbrev CacheM := EStateM JSError CacheInternal

def recordFields (selection : SubscriptionSelection) (id : String) : WalkM FieldSelections :=
  fun storage =>
    let (typename, storage) := storage.getTypename id
    ((getFieldsForType selection typename).getD [], storage)

def childRecords (storage : InMemoryStorage) (id key : String) : List String :=
  (storage.get id key).value.flattenLinks.filterMap GraphQLValue.text?

section Walks

variable (vars : GraphQLObject)

def fieldLinks (storage : InMemoryStorage) (id : String) (masked : Bool) (field : SelectionField) :
    List (String × SubscriptionSelection × Bool) :=
  match field.selection with
  | none => []
  | some selection => (childRecords storage id (field.key vars)).map fun link =>
      (link, selection, masked || !field.visible)

/-- The fields that a removal visits: first those of the record, then those of the records that
they link to. -/
def visitsWithin : Nat → SubscriptionSelection → String → Bool → WalkM (List FieldVisit)
  | 0, _, _, _ => return []
  | depth + 1, selection, id, masked => do
      let fields ← recordFields selection id
      let storage ← get
      let below ← (fields.flatMap fun entry => fieldLinks vars storage id masked entry.2).mapM
        fun link => visitsWithin depth link.2.1 link.1 link.2.2
      return fields.map (fun entry => ⟨id, entry.2.key vars, masked || !entry.2.visible⟩) ++
        below.flatten

def visits (selection : SubscriptionSelection) (id : String) (masked : Bool := false) :
    WalkM (List FieldVisit) :=
  visitsWithin vars selection.depth selection id masked

/-- The selections with which a walk gets to a record. Nothing is looked for below a field that
links to it. -/
def findSubSelectionsWithin (searchTarget : String) :
    Nat → String → SubscriptionSelection → WalkM (List SubscriptionSelection)
  | 0, _, _ => return []
  | depth + 1, parentID, selection => do
      let fields ← recordFields selection parentID
      let found ← fields.mapM fun entry => do
        match entry.2.selection with
        | none => return []
        | some inner => do
            let storage ← get
            let links := childRecords storage parentID (entry.2.key vars)
            if links.contains searchTarget then return [inner]
            else
              let found ← links.mapM fun link =>
                findSubSelectionsWithin searchTarget depth link inner
              return found.flatten
      return found.flatten

def findSubSelections (parentID : String) (selection : SubscriptionSelection)
    (searchTarget : String) : WalkM (List SubscriptionSelection) :=
  findSubSelectionsWithin vars searchTarget selection.depth parentID selection

end Walks

namespace SubscriptionSpec

variable (spec : SubscriptionSpec)

def root : String :=
  match spec.parentID with
  | some parentID => if parentID = "" then rootID else parentID
  | none => rootID

end SubscriptionSpec

namespace CacheInternal

def addFieldSubscription (cache : CacheInternal) (id key : String) (selection : FieldSelection)
    (masked : Bool) : CacheInternal :=
  { cache with
    subscriptions := cache.subscriptions.addFieldSubscription id key selection masked
    lifetimes := cache.lifetimes.resetLifetime id key }

def registerList (cache : CacheInternal) (vars : GraphQLObject) (id key parentType : String)
    (field : SelectionField) (list : SelectionList) : CacheInternal :=
  let (typename, storage) := cache.storage.getTypename id
  { cache with
    storage
    lists := cache.lists.add {
      name := list.name
      connection := list.connection
      recordID := id
      recordType := some (match typename with
        | some typename => if typename = "" then parentType else typename
        | none => parentType)
      key
      listType := list.type
      selection := field.selection.getD {}
      filters := filterFields vars field.filters } }

section Adding

variable (spec : SubscriptionSpec) (vars : GraphQLObject)

def addField (cache : CacheInternal) (parent parentType : String) (typename : Option String)
    (masked : Bool) (field : SelectionField) : CacheInternal :=
  let key := field.key vars
  let fieldMasked := masked || !field.visible
  let added := cache.addFieldSubscription parent key
    (spec, field.selection.bind fun selection => getFieldsForType selection typename)
    fieldMasked
  match field.list with
  | none => added
  | some list =>
      if fieldMasked then added
      else added.registerList vars parent key
        (if parentType = "" then spec.rootType else parentType) field list

def addWithin : Nat → SubscriptionSelection → String → String → Bool → CacheInternal →
    CacheInternal
  | 0, _, _, _, _, cache => cache
  | depth + 1, selection, parent, parentType, masked, cache =>
      let (typename, storage) := cache.storage.getTypename parent
      ((getFieldsForType selection typename).getD []).foldl (fun cache entry =>
        let added := cache.addField spec vars parent parentType typename masked entry.2
        (fieldLinks vars added.storage parent masked entry.2).foldl (fun cache link =>
          addWithin depth link.2.1 link.1 entry.2.type link.2.2 cache) added)
        { cache with storage }

def subscribe (cache : CacheInternal) : CacheInternal :=
  addWithin spec vars spec.selection.depth spec.selection spec.root "" false cache

end Adding

end CacheInternal

/-- Subscribers that are taken off a field that a removal visits. -/
structure Release where
  visit : FieldVisit
  targets : List SubscriptionSpec

namespace InMemorySubscriptions

def release (subscriptions : InMemorySubscriptions) (release : Release) : InMemorySubscriptions :=
  subscriptions.removeSubscribers release.visit.record release.visit.key release.targets
    release.visit.masked

def specs (subscriptions : InMemorySubscriptions) (id : String) : List SubscriptionSpec :=
  ((subscriptions.table? id).getD ∅).values.flatMap fun field =>
    (field.selections ++ field.maskedParentSelections).map Prod.fst

def reset (subscriptions : InMemorySubscriptions) : InMemorySubscriptions :=
  { subscriptions with
    subscribers := subscriptions.subscribers.filter fun entry =>
      rootID.toList.isPrefixOf entry.1.toList }

end InMemorySubscriptions

/-- What `remove` takes off a record and off those below it. -/
def remove (vars : GraphQLObject) (targets : List SubscriptionSpec)
    (selection : SubscriptionSelection) (id : String) (masked : Bool := false) :
    WalkM (List Release) := do
  let visited ← visits vars selection id masked
  return visited.map fun visit => { visit, targets }

/-- What `removeAllSubscribers` takes off. Every target takes all targets along, and the function
for the variables is taken for the variables. -/
def removeAllSubscribers (targets : List SubscriptionSpec) (id : String) :
    WalkM (List Release) := do
  let releases ← targets.mapM fun target => do
    let vars := target.variables.getD []
    let selections ← findSubSelections vars target.root target.selection id
    let releases ← selections.mapM fun selection => remove vars targets selection id
    return releases.flatten
  return releases.flatten

namespace CacheInternal

def release (cache : CacheInternal) (removal : WalkM (List Release)) : CacheInternal :=
  let (releases, storage) := removal cache.storage
  { cache with
    storage
    subscriptions := releases.foldl InMemorySubscriptions.release cache.subscriptions }

def unsubscribe (cache : CacheInternal) (spec : SubscriptionSpec) (vars : GraphQLObject) :
    CacheInternal :=
  cache.release (remove vars [spec] spec.selection spec.root)

end CacheInternal

structure ListEntry where
  parentID : String
  targetKey : String
  targetID : String
  deriving DecidableEq, Repr

namespace ListHandler

variable (list : ListHandler)

def valueIncludes (value : GraphQLValue) (id : String) : Except JSError Bool :=
  match value with
  | .undefined | .null => .ok false
  | .array items => .ok (items.contains (.string id))
  | .string text => .ok (decide (id.toList <:+: text.toList))
  | _ => .error .typeError

def contained (storage : InMemoryStorage) (entry : ListEntry) :
    Except JSError (Option ListEntry) := do
  let included ← valueIncludes (storage.get entry.parentID entry.targetKey).value entry.targetID
  return if included then some entry else none

def edgeOf (storage : InMemoryStorage) (edges : List GraphQLValue) (id : String) : String :=
  edges.foldl (fun target edge =>
    if (storage.get edge.propertyKey "node").value == .string id then edge.propertyKey else target)
    id

def entryOf (storage : InMemoryStorage) (id : String) : Except JSError (Option ListEntry) :=
  if list.connection then
    let connection := (storage.get list.recordID list.key).value
    if !connection.truthy then .ok none
    else
      let edges := (storage.get connection.propertyKey "edges").value
      match edges with
      | .array edges =>
          contained storage ⟨connection.propertyKey, "edges",
            edgeOf storage (GraphQLValue.flatten edges) id⟩
      | edges =>
          if edges.truthy then .error .typeError
          else contained storage ⟨connection.propertyKey, "edges", id⟩
  else contained storage ⟨list.recordID, list.key, id⟩

def entrySelection : Option SubscriptionSelection :=
  if list.connection then (list.selection.fields.lookup "edges").bind (·.selection)
  else some list.selection

end ListHandler

def ListManager.handlers (manager : ListManager) : List ListHandler :=
  manager.lists.values.flatMap fun records =>
    records.values.flatMap fun position => (manager.collections[position]?).getD []

namespace InMemoryStorage

def changeTarget (storage : InMemoryStorage) (layer : Option LayerID)
    (change : Layer → Except JSError Layer) : EStateM.Result JSError InMemoryStorage Unit :=
  let (target, storage) :=
    match layer with
    | none => (some storage.topLayer.1, storage.topLayer.2)
    | some id => (storage.data.find? (·.id == id), storage)
  match target with
  | none => .ok () storage
  | some target =>
      match change target with
      | .ok changed => .ok () (storage.setLayer changed)
      | .error error => .error error storage

def remove (storage : InMemoryStorage) (entry : ListEntry) (layer : Option LayerID) :
    EStateM.Result JSError InMemoryStorage Unit :=
  storage.changeTarget layer (·.remove entry.parentID entry.targetKey entry.targetID)

def delete (storage : InMemoryStorage) (id : String) (layer : Option LayerID) :
    EStateM.Result JSError InMemoryStorage Unit :=
  storage.changeTarget layer fun target => .ok (target.delete id)

end InMemoryStorage

namespace CacheInternal

def onStorage (change : InMemoryStorage → EStateM.Result JSError InMemoryStorage Unit) :
    CacheM Unit := fun cache =>
  match change cache.storage with
  | .ok _ storage => .ok () { cache with storage }
  | .error error storage => .error error { cache with storage }

def leaveEntry (cache : CacheInternal) (list : ListHandler) (selection : SubscriptionSelection)
    (id : String) : WalkM (List Release) := do
  let subscribers := (cache.subscriptions.get list.recordID list.key).map Prod.fst
  let maskedParentSubscribers :=
    (cache.subscriptions.getMaskedParents list.recordID list.key).map Prod.fst
  let releases ← remove [] subscribers selection id
  if maskedParentSubscribers.isEmpty then return releases
  else
    let maskedReleases ← remove [] maskedParentSubscribers selection id true
    return releases ++ maskedReleases

def removeID (id : String) (layer : Option LayerID) (list : ListHandler) : CacheM Unit :=
  fun cache =>
    match list.entryOf cache.storage id with
    | .error error => .error error cache
    | .ok none => .ok () cache
    | .ok (some entry) =>
        match list.entrySelection with
        | none => .error .typeError cache
        | some selection =>
            onStorage (·.remove entry layer)
              (cache.release (cache.leaveEntry list selection entry.targetID))

def removeIDFromAllLists (id : String) (layer : Option LayerID) : CacheM Unit := fun cache =>
  (cache.lists.handlers.forM (removeID id layer)) cache

def deleteRecord (layer : Option LayerID) (id : String) : CacheM Unit := do
  modify fun cache => cache.release (removeAllSubscribers (cache.subscriptions.specs id) id)
  removeIDFromAllLists id layer
  onStorage (·.delete id layer)

def delete (id : String) (layer : Option LayerID := none) : CacheM Unit := fun cache =>
  (((cache.storage.recordIDs id).filter (· != "")).forM (deleteRecord layer)) cache

end CacheInternal

end Houdini.Runtime.Cache
