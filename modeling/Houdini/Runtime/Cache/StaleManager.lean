import Houdini.Runtime.Cache.Layer

/-! When the fields of the cache were written, and which of them are stale. -/

set_option autoImplicit false

namespace Houdini.Runtime.Cache

/-- The time at which a field was set. Without one the field is stale. -/
abbrev FieldTime := Option Nat

structure StaleManager where
  fieldsTime : EntityMap FieldTime := ∅

namespace StaleManager

def getFieldTime (manager : StaleManager) (id field : String) : Option FieldTime :=
  manager.fieldsTime.getIn? id field

def isStale (manager : StaleManager) (id field : String) : Bool :=
  manager.getFieldTime id field == some none

def setFieldTimeToNow (manager : StaleManager) (now : Nat) (id field : String) : StaleManager :=
  { manager with fieldsTime := manager.fieldsTime.setIn id field (some now) }

def markFieldStale (manager : StaleManager) (id field : String) : StaleManager :=
  { manager with fieldsTime := manager.fieldsTime.setIn id field none }

def deleteRecord (manager : StaleManager) (id : String) : StaleManager :=
  { manager with fieldsTime := manager.fieldsTime.erase id }

def delete (manager : StaleManager) (id field : String) : StaleManager :=
  match manager.fieldsTime.get? id with
  | none => manager
  | some fields =>
      let left := fields.erase field
      { manager with
        fieldsTime :=
          if left.isEmpty then manager.fieldsTime.erase id else manager.fieldsTime.set id left }

end StaleManager

end Houdini.Runtime.Cache
