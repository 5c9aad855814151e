import Houdini.Runtime.Cache.Snapshot
import Houdini.Runtime.Cache.StaleManager
import Houdini.Runtime.Key

/-! Marking fields as stale, also those that were hydrated and are not registered yet. -/

set_option autoImplicit false

namespace Houdini.Runtime.Cache

namespace StaleManager

def initMapId (manager : StaleManager) (id : String) : StaleManager :=
  match manager.fieldsTime.get? id with
  | some _ => manager
  | none => { manager with fieldsTime := manager.fieldsTime.set id ∅ }

/-- Explicit writes and marks since the hydration win over the snapshot. -/
def registerField (now : Nat) (id : String) (manager : StaleManager) (field : String) :
    StaleManager :=
  match manager.getFieldTime id field with
  | some _ => manager
  | none => manager.setFieldTimeToNow now id field

def registerRecords (now : Nat) (manager : StaleManager) (source : EntityMap GraphQLValue) :
    StaleManager :=
  source.entries.foldl (fun manager record =>
    record.2.keys.foldl (registerField now record.1) (manager.initMapId record.1)) manager

def registerSnapshot (now : Nat) (manager : StaleManager) (snapshot : Snapshot) : StaleManager :=
  registerRecords now (registerRecords now manager snapshot.fields) snapshot.links

def markEntries (manager : StaleManager) (record : String × OrderedMap String FieldTime) :
    StaleManager :=
  record.2.keys.foldl (·.markFieldStale record.1) manager

def startsWithType (type id : String) : Bool := (type ++ ":").toList.isPrefixOf id.toList

def markAllStale (manager : StaleManager) : StaleManager :=
  manager.fieldsTime.entries.foldl markEntries manager

def markRecordStale (manager : StaleManager) (id : String) : StaleManager :=
  match manager.fieldsTime.get? id with
  | some fields => manager.markEntries (id, fields)
  | none => manager

def markTypeStale (manager : StaleManager) (type : String) : StaleManager :=
  manager.fieldsTime.entries.foldl (fun manager record =>
    if startsWithType type record.1 then manager.markEntries record else manager) manager

def markTypeFieldStale (manager : StaleManager) (type field key : String) : StaleManager :=
  manager.fieldsTime.entries.foldl (fun manager record =>
    if startsWithType type record.1 then
      record.2.keys.foldl (fun manager localField =>
        if localField = key then manager.markFieldStale record.1 field else manager) manager
    else manager) manager

end StaleManager

structure HydratedStaleManager where
  manager : StaleManager := {}
  pendingHydrated : List Snapshot := []

structure TypeMark where
  type : String
  field : Option String := none
  «when» : GraphQLObject := []

inductive StaleMark where
  /-- `Cache.markTypeStale`. Without options everything is marked. -/
  | type (options : Option TypeMark)
  /-- `Cache.markRecordStale` -/
  | record (id : String) (field : Option String) («when» : GraphQLObject)

namespace HydratedStaleManager

def registerHydration (state : HydratedStaleManager) (snapshot : Snapshot) :
    HydratedStaleManager :=
  { state with pendingHydrated := state.pendingHydrated ++ [snapshot] }

def flushHydrated (state : HydratedStaleManager) (now : Nat) : HydratedStaleManager where
  manager := state.pendingHydrated.foldl (StaleManager.registerSnapshot now) state.manager
  pendingHydrated := []

def flushThen (state : HydratedStaleManager) (now : Nat) (change : StaleManager → StaleManager) :
    HydratedStaleManager :=
  let flushed := state.flushHydrated now
  { flushed with manager := change flushed.manager }

def named (field : Option String) : Option String := field.filter (· != "")

def mark (state : HydratedStaleManager) (now : Nat) : StaleMark → HydratedStaleManager
  | .type none => state.flushThen now StaleManager.markAllStale
  | .type (some options) =>
      match named options.field with
      | none => state.flushThen now (·.markTypeStale options.type)
      | some field =>
          match computeKey field options.when with
          | .ok key => state.flushThen now (·.markTypeFieldStale options.type field key)
          | .error _ => state.flushHydrated now
  | .record id field args =>
      match named field with
      | none => state.flushThen now (·.markRecordStale id)
      | some field =>
          match computeKey field args with
          | .ok key => { state with manager := state.manager.markFieldStale id key }
          | .error _ => state

end HydratedStaleManager

/-- What happens to the entries in the course of time. -/
inductive StaleAction where
  | write (now : Nat) (id key : String)
  /-- A forced write, or a value that has become too old. -/
  | force (id key : String)
  /-- The garbage collector has removed the field. -/
  | delete (id key : String)
  | deleteRecord (id : String)
  | hydrate (snapshot : Snapshot)
  | mark (now : Nat) (mark : StaleMark)
  | reset

def HydratedStaleManager.act (state : HydratedStaleManager) : StaleAction → HydratedStaleManager
  | .write now id key => { state with manager := state.manager.setFieldTimeToNow now id key }
  | .force id key => { state with manager := state.manager.markFieldStale id key }
  | .delete id key => { state with manager := state.manager.delete id key }
  | .deleteRecord id => { state with manager := state.manager.deleteRecord id }
  | .hydrate snapshot => state.registerHydration snapshot
  | .mark now mark => state.mark now mark
  | .reset => {}

def runStaleActions (actions : List StaleAction) : HydratedStaleManager :=
  actions.foldl .act {}

end Houdini.Runtime.Cache
