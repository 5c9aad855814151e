import Houdini.Runtime.Cache.Lists
import Houdini.Runtime.Cache.Writing
import Houdini.Runtime.DeepEquals
import Mathlib.Data.List.Infix

/-! The operations of a selection that insert elements into lists or update them: the lists they
find, the conditions they compare, and what they write. -/

set_option autoImplicit false

namespace Houdini.Runtime

structure ListWhen where
  must : Option GraphQLObject := none
  mustNot : Option GraphQLObject := none

mutual

/-- A condition as the artifact has it. The kind of a literal is not told by its value. -/
def ListFilter.artifact (kind : GraphQLValue → String) : ListFilter → GraphQLValue
  | .literal value => .object [("kind", .string (kind value)), ("value", value)]
  | .variable name => .object [("kind", .string "Variable"), ("value", .string name)]
  | .object fields =>
      .object [("kind", .string "Object"), ("value", .object (artifactFields kind fields))]
  | .list values =>
      .object [("kind", .string "List"), ("value", .array (artifactValues kind values))]

def artifactValues (kind : GraphQLValue → String) : List ListFilter → List GraphQLValue
  | [] => []
  | value :: rest => value.artifact kind :: artifactValues kind rest

def artifactFields (kind : GraphQLValue → String) : List (String × ListFilter) → GraphQLObject
  | [] => []
  | (name, value) :: rest => (name, value.artifact kind) :: artifactFields kind rest

end

def resolveWhen (conditions : Option OperationWhen) (vars : GraphQLObject) : Option ListWhen :=
  conditions.map fun conditions =>
    { must := conditions.must.map (filterFields vars)
      mustNot := conditions.mustNot.map (filterFields vars) }

def artifactWhen (kind : GraphQLValue → String) (conditions : Option OperationWhen) :
    Option ListWhen :=
  conditions.map fun conditions =>
    { must := conditions.must.map (artifactFields kind)
      mustNot := conditions.mustNot.map (artifactFields kind) }

namespace Cache

/-- Every list is registered with its filters, and without conditions of its own. -/
def ListHandler.validateWhen (list : ListHandler) (conditions : Option ListWhen) : Bool :=
  match conditions with
  | none => true
  | some conditions =>
      ((conditions.must.getD []).all fun entry =>
        (GraphQLObject.property list.filters entry.1).deepEquals entry.2) &&
      (conditions.mustNot.getD []).all fun entry =>
        !(GraphQLObject.property list.filters entry.1).deepEquals entry.2

def ListCollection.satisfying (lists : ListCollection) (conditions : Option ListWhen) :
    ListCollection :=
  lists.filter (·.validateWhen conditions)

def ListHandler.fieldRef (list : ListHandler) : String := list.recordID ++ "." ++ list.key

namespace ListManager

/-- The lists with a name: all of them, those of a record, or those of the only record. -/
def getLists (manager : ListManager) (name : String) (id : Option String) (allLists : Bool) :
    Except JSError (Option ListCollection) :=
  match ((manager.lists.get? name).getD ∅).entries with
  | [] => .ok none
  | (headID, head) :: others =>
      let collection (position : Nat) : ListCollection := (manager.collections[position]?).getD []
      if allLists then
        .ok (some (((headID, head) :: others).flatMap fun entry => collection entry.2))
      else
        match collection head with
        | [] => .error .typeError
        | first :: _ =>
            let given := id.filter (· != "")
            let parentID :=
              match given, first.recordType.filter (· != "") with
              | none, _ => rootID
              | some id, none => id
              | some id, some type => type ++ ":" ++ id
            if others.isEmpty then
              if given.isNone || parentID == headID then .ok (some (collection head)) else .ok none
            else if given.isNone then .ok none
            else .ok (manager.collection? name parentID)

def getByOpaqueID (manager : ListManager) (opaqueID : String) : Option ListCollection :=
  (manager.listsByOpaqueID.get? opaqueID).bind (manager.collections[·]?)

end ListManager

def operationID (vars : GraphQLObject) (message : String) :
    ValueNode → Except JSError (Option String)
  | .variable name =>
      match vars.property name with
      | .string id => .ok (some id)
      | _ => .error (.error message)
  | .number text | .string text | .enum text => .ok (some text)
  | .boolean value => .ok (some (if value then "true" else "false"))
  | .null | .list _ | .object _ => .ok none

/-- The lists that an operation is about, but for those that were processed before. An operation
without such lists is passed over. -/
def operationLists (manager : ListManager) (vars : GraphQLObject) (processed : List String)
    (operation : MutationOperation) : Except JSError (Option ListCollection) := do
  let unprocessed (lists : ListCollection) : ListCollection :=
    lists.filter fun list => !processed.contains list.fieldRef
  let parentID ←
    match operation.parentID with
    | none => pure none
    | some node => operationID vars "parentID value must be a string" node
  let listID ←
    match operation.listID with
    | none => pure none
    | some node => operationID vars "listID value must be a string" node
  match operation.list, listID.filter (· != "") with
  | none, _ => return none
  | some _, some opaqueID => return (manager.getByOpaqueID opaqueID).map unprocessed
  | some name, none =>
      let lists ← manager.getLists name parentID operation.targetAll
      return lists.map unprocessed

def operationTargets (value : GraphQLValue) : List GraphQLObject :=
  let targets :=
    match value with
    | .array items => items
    | value => [value]
  targets.filterMap fun target =>
    match target with
    | .object data => some data
    -- an array is an object without any of the fields
    | .array _ => some []
    | _ => none

namespace ListHandler

variable (list : ListHandler)

def elementType (data : GraphQLObject) : String :=
  let typename := data.property "__typename"
  if typename.truthy then typename.propertyKey else list.listType

def elementID (config : ConfigFile) (data : GraphQLObject) : Option String :=
  Cache.recordID config (list.elementType data) data

def typenameField : SelectionField where
  keyRaw := "__typename"
  type := "String"

def withField (fields : FieldSelections) (name : String) (field : SelectionField) :
    FieldSelections :=
  match fields with
  | [] => [(name, field)]
  | (candidate, current) :: rest =>
      if candidate = name then (name, field) :: rest
      else (candidate, current) :: withField rest name field

def elementSelection (selection : SubscriptionSelection) : SubscriptionSelection :=
  { selection with fields := withField selection.fields "__typename" typenameField }

/-- What is written to the record of the list so that it gets the element. -/
def insertSelection (selection : SubscriptionSelection) (data : GraphQLObject) :
    SubscriptionSelection :=
  if list.connection then
    { fields := [("newEntry", {
        keyRaw := list.key
        type := "Connection"
        selection := some { fields := [("edges", {
          keyRaw := "edges"
          type := "ConnectionEdge"
          updates := some ["append", "prepend"]
          selection := some { fields := [
            ("__typename", typenameField),
            ("node", {
              type := list.elementType data
              keyRaw := "node"
              selection := some (elementSelection selection) })] } })] } })] }
  else
    { fields := [("newEntries", {
        keyRaw := list.key
        type := list.elementType data
        updates := some ["append", "prepend"]
        selection := some (elementSelection selection) })] }

def insertData (data : GraphQLObject) : GraphQLObject :=
  let type := list.elementType data
  let element : GraphQLValue := .object (data.setProperty "__typename" (.string type))
  if list.connection then
    [("newEntry", .object [("edges", .array [.object
      [("__typename", .string (type ++ "Edge")), ("node", element)]])])]
  else [("newEntries", .array [element])]

def addToList (config : ConfigFile) (vars : GraphQLObject) (layer : LayerID)
    (position : ListPosition) (selection : SubscriptionSelection) (data : GraphQLObject) :
    WriteM Unit :=
  match list.elementID config data with
  | none => pure ()
  | some _ =>
      let update :=
        match position with
        | .first => "prepend"
        | .last => "append"
      write { config, vars, applyUpdates := some [update] } (list.insertSelection selection data)
        (list.insertData data) list.recordID (some layer)

def contains (storage : InMemoryStorage) (dataID : String) : Except JSError Bool :=
  if list.connection then
    let connection := (storage.get list.recordID list.key).value
    if !connection.truthy then .ok false
    else
      let edges := (storage.get connection.propertyKey "edges").value
      if !edges.truthy then .ok false
      else
        match edges with
        | .array edges =>
            .ok ((GraphQLValue.flatten edges).any fun edge =>
              (storage.get edge.propertyKey "node").value == .string dataID)
        | _ => .error .typeError
  else
    match (storage.get list.recordID list.key).value with
    | .undefined | .null => .ok false
    | .array items => .ok (items.contains (.string dataID))
    -- `includes` of a text looks for a part of it
    | .string text => .ok (decide (dataID.toList <:+: text.toList))
    | _ => .error .typeError

def upsertInList (config : ConfigFile) (vars : GraphQLObject) (layer : LayerID)
    (position : ListPosition) (selection : SubscriptionSelection) (data : GraphQLObject) :
    WriteM Unit := fun storage =>
  match list.elementID config data with
  | none => .ok () storage
  | some dataID =>
      match list.contains storage dataID with
      | .error error => .error error storage
      | .ok true => write { config, vars } selection data rootID (some layer) storage
      | .ok false => list.addToList config vars layer position selection data storage

end ListHandler

/-- An operation that comes with a field whose value is written. -/
structure OperationCall where
  config : ConfigFile := {}
  manager : ListManager
  operation : MutationOperation
  selection : SubscriptionSelection
  value : GraphQLValue
  vars : GraphQLObject := []
  layer : LayerID
  processed : List String := []

namespace OperationCall

variable (call : OperationCall)

def lists : Except JSError (Option ListCollection) :=
  operationLists call.manager call.vars call.processed call.operation

def elements : List GraphQLObject := operationTargets call.value

def forEach (conditions : Option ListWhen) (change : ListHandler → GraphQLObject → WriteM Unit) :
    WriteM Unit :=
  match call.lists with
  | .error error => throw error
  | .ok none => pure ()
  | .ok (some lists) =>
      (call.elements.product (lists.satisfying conditions)).forM fun target =>
        change target.2 target.1

def addToList (list : ListHandler) (data : GraphQLObject) : WriteM Unit :=
  list.addToList call.config call.vars call.layer (call.operation.position.getD .last)
    call.selection data

def upsertInList (list : ListHandler) (data : GraphQLObject) : WriteM Unit :=
  list.upsertInList call.config call.vars call.layer (call.operation.position.getD .last)
    call.selection data

def insertWhen : Option ListWhen := resolveWhen call.operation.when call.vars

def upsertWhen (kind : GraphQLValue → String) : Option ListWhen :=
  artifactWhen kind call.operation.when

def insert : WriteM Unit := call.forEach call.insertWhen call.addToList

def upsert (kind : GraphQLValue → String) : WriteM Unit :=
  call.forEach (call.upsertWhen kind) call.upsertInList

end OperationCall

end Cache

end Houdini.Runtime
