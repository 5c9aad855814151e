import Houdini.Runtime.Cache.Layer
import Houdini.Runtime.Cache.Stuff

/-! The indexes of the lists that operations can refer to. -/

set_option autoImplicit false

namespace Houdini.Runtime.Cache

structure ListHandler where
  name : String
  connection : Bool
  recordID : String
  recordType : Option String
  key : String
  listType : String
  selection : SubscriptionSelection
  filters : List (String × GraphQLValue) := []

abbrev ListCollection := List ListHandler

/-- A collection is shared by two indexes, so they hold its position. -/
structure ListManager where
  collections : List ListCollection := []
  lists : EntityMap Nat := ∅
  listsByField : EntityMap (List ListHandler) := ∅
  listsByOpaqueID : OrderedMap String Nat := ∅

namespace ListManager

def collection? (manager : ListManager) (name recordID : String) : Option ListCollection :=
  (manager.lists.getIn? name recordID).bind (manager.collections[·]?)

def add (manager : ListManager) (list : ListHandler) : ListManager :=
  let manager :=
    { manager with lists := manager.lists.set list.name ((manager.lists.get? list.name).getD ∅) }
  if ((manager.collection? list.name list.recordID).getD []).any (·.key == list.key) then manager
  else
    let (position, manager) :=
      match manager.lists.getIn? list.name list.recordID with
      | some position => (position, manager)
      | none =>
          (manager.collections.length,
            { manager with
              collections := manager.collections ++ [[]]
              lists := manager.lists.setIn list.name list.recordID manager.collections.length })
    let handlers := (manager.listsByField.getIn? list.recordID list.key).getD []
    { manager with
      collections := manager.collections.modify position (· ++ [list])
      listsByField := manager.listsByField.setIn list.recordID list.key (handlers ++ [list])
      listsByOpaqueID :=
        manager.listsByOpaqueID.set (opaqueListID list.recordID list.name) position }

/-- Remove an entry of a nested map, if there is a map to remove it from. -/
def forget {Value : Type} (map : EntityMap Value) (outer inner : String) : EntityMap Value :=
  match map.get? outer with
  | none => map
  | some entries => map.set outer (entries.erase inner)

/-- The handler of a field that is deleted leaves its collection. An empty collection leaves
the indexes. -/
def deleteHandler (field : String) (manager : ListManager) (list : ListHandler) : ListManager :=
  match manager.lists.getIn? list.name list.recordID with
  | none => manager
  | some position =>
      let manager :=
        { manager with
          collections :=
            manager.collections.modify position (·.filter fun other => other.key != field) }
      if (manager.collection? list.name list.recordID).getD [] = [] then
        { manager with
          lists := forget manager.lists list.name list.recordID
          listsByOpaqueID :=
            manager.listsByOpaqueID.erase (opaqueListID list.recordID list.name) }
      else manager

def deleteField (manager : ListManager) (parentID field : String) : ListManager :=
  match manager.listsByField.getIn? parentID field with
  | none => manager
  | some handlers =>
      let manager := handlers.foldl (deleteHandler field) manager
      { manager with listsByField := forget manager.listsByField parentID field }

end ListManager

end Houdini.Runtime.Cache
