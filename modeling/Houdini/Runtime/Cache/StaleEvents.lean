import Houdini.Runtime.Cache.EntryVisits
import Houdini.Runtime.Cache.StaleManager

/-! What a write tells the stale manager. The list operations of a selection are left out,
as they are from the write itself. -/

set_option autoImplicit false

namespace Houdini.Runtime.Cache

/-- A write comes to a field of a record. The object that was asked for is at level 0. -/
structure FieldEvent where
  level : Nat
  id : String
  key : String
  displayed : Bool
  forceStale : Bool
  deriving DecidableEq, Repr

inductive StaleEvent where
  | field (event : FieldEvent)
  /-- An embedded record fell out of its list. -/
  | deleteRecord (id : String)
  deriving DecidableEq, Repr

def StaleManager.after (now : Nat) (manager : StaleManager) : StaleEvent → StaleManager
  | .field event =>
      if !event.displayed then manager
      else if event.forceStale then manager.markFieldStale event.id event.key
      else manager.setFieldTimeToNow now event.id event.key
  | .deleteRecord id => manager.deleteRecord id

def displays (layer : LayerID) (storage : InMemoryStorage) (id key : String) : Bool :=
  ((storage.data.find? (·.id == layer)).map fun current =>
    current.isDisplayLayer (storage.get id key).displayLayers).getD false

abbrev ObjectEvents := String → GraphQLObject → InMemoryStorage → List StaleEvent

def EntryVisit.events (config : ConfigFile) (events : ObjectEvents) (entry : EntryVisit) :
    List StaleEvent :=
  match entry.field.entryID config entry.id entry.data with
  | .ok (some id) => events id entry.data entry.after
  | _ => []

section Values

variable (context : WriteContext) (layer : LayerID)

def objectEvents (events : ObjectEvents) (field : LinkedField) (data : GraphQLObject)
    (storage : InMemoryStorage) : List StaleEvent :=
  match field.linkedID context.config data with
  | .ok (some id) =>
      following (writeLinkTo layer field.parent field.key (.string id)) (events id data) storage
  | _ => []

/-- The embedded records that fall out of the list, once its entries are written. -/
def lostEvents (write : String → GraphQLObject → WriteM Unit) (updates : Option (List String))
    (field : LinkedField) (previousIDs : List GraphQLValue) (oldIDs entries : List GraphQLValue)
    (storage : InMemoryStorage) : List StaleEvent :=
  match extractNestedListIDs context.config field write previousIDs entries storage with
  | .ok ids storage =>
      if isOptimistic layer storage then []
      else
        (lostEntries field oldIDs
          (updateList context layer storage updates ids oldIDs).linkedIDs).map .deleteRecord
  | .error _ _ => []

variable (write : SubscriptionSelection → String → GraphQLObject → WriteM Unit)
  (events : SubscriptionSelection → ObjectEvents)

def linkEvents (parent : String) (field : SelectionField) (value : GraphQLValue)
    (storage : InMemoryStorage) : List StaleEvent :=
  let key := field.key context.vars
  let previous := (storage.get parent key).value
  match field.selection with
  | none => []
  | some selection =>
      let linked : LinkedField :=
        { parent, key, linkedType := linkedType field value, abstract := field.abstract }
      match value with
      | .object data => objectEvents context layer (events selection) linked data storage
      | .array entries =>
          if previous == .undefined || previous == .null || previous.isArray then
            let oldIDs := previousListIDs storage (field.updates.getD []) key previous
            let previousIDs :=
              if insertsUpdates context (field.updates.getD []) then [] else previous.items
            (listVisits context.config linked (write selection) previousIDs entries
                storage).flatMap (·.events context.config (events selection)) ++
              lostEvents context layer (write selection) field.updates linked previousIDs oldIDs
                entries storage
          else []
      | _ => []

variable (level : Nat) (forceStale : Bool)

def propertyEvents (parent : String) (field : SelectionField) (value : GraphQLValue)
    (storage : InMemoryStorage) : List StaleEvent :=
  let key := field.key context.vars
  .field { level, id := parent, key, displayed := displays layer storage parent key, forceStale } ::
    linkEvents context layer write events parent field value storage

def fieldsEvents (parent : String) (fields : FieldSelections) :
    GraphQLObject → InMemoryStorage → List StaleEvent
  | [], _ => []
  | (name, value) :: rest, storage =>
      match fields.lookup name with
      | none => fieldsEvents parent fields rest storage
      | some field =>
          propertyEvents context layer write events level forceStale parent field value storage ++
            following (writeProperty context layer write parent field value)
              (fieldsEvents parent fields rest) storage

end Values

/-- The events of `writeSelectionWithin`. The nested calls are not told to force anything:
neither the one for a linked object nor those of `extractNestedListIDs` pass the flag on. -/
def selectionEventsWithin (context : WriteContext) (layer : LayerID) :
    Nat → Nat → Bool → SubscriptionSelection → ObjectEvents
  | 0, _, _, _, _, _, _ => []
  | depth + 1, level, forceStale, selection, parent, data, storage =>
      if context.disabled then []
      else
        match getFieldsForType selection (data.property "__typename").text? with
        | none => []
        | some fields =>
            fieldsEvents context layer (writeSelectionWithin context layer depth)
              (selectionEventsWithin context layer depth (level + 1) false) level forceStale parent
              fields data storage

def writeEvents (context : WriteContext) (forceStale : Bool) (selection : SubscriptionSelection)
    (data : GraphQLObject) (parent : String) (layer : Option LayerID)
    (storage : InMemoryStorage) : List StaleEvent :=
  match writeLayer layer storage with
  | .ok layer storage =>
      selectionEventsWithin context layer selection.depth 0 forceStale selection parent data storage
  | .error _ _ => []

end Houdini.Runtime.Cache
