import Houdini.Runtime.Cache.StaleManager
import Houdini.Runtime.Cache.Storage
import Houdini.Runtime.Cache.Stuff
import Houdini.Runtime.Config

/-! Reconstructing an object from the stored records that a selection visits. -/

set_option autoImplicit false

namespace Houdini.Runtime.Cache

abbrev ReadM := EStateM JSError InMemoryStorage

structure ReadContext where
  config : ConfigFile := {}
  staleManager : StaleManager := {}
  vars : GraphQLObject := []
  ignoreMasking : Bool := false
  fullCheck : Bool := false

def ReadContext.reads (context : ReadContext) (field : SelectionField) : Bool :=
  (field.visible || context.ignoreMasking || context.fullCheck) && field.included context.vars

structure SelectionResult where
  data : GraphQLValue
  isPartial : Bool
  stale : Bool
  hasData : Bool
  deriving DecidableEq, Repr

structure NestedListResult where
  data : List GraphQLValue := []
  isPartial : Bool := false
  stale : Bool := false
  hasData : Bool := false
  cascadeNull : Bool := false
  deriving DecidableEq, Repr

structure FieldValueResult where
  value : GraphQLValue
  isPartial : Bool := false
  stale : Bool := false
  hasData : Bool := false
  cascadeNull : Bool := false
  deriving DecidableEq, Repr

/-- The object while its fields are read. -/
structure SelectionState where
  target : GraphQLObject := []
  isPartial : Bool := false
  stale : Bool := false
  hasData : Bool := false
  cascadeNull : Bool := false
  deriving DecidableEq, Repr

def entryRecord : GraphQLValue → String
  | .undefined => rootID
  | entry => entry.propertyKey

section Lists

variable (read : String → ReadM SelectionResult) (nullable : Bool)

mutual

/-- `hydrateNestedList` for one entry. A list inside of the list passes on whether
it is partial or null, but neither its data nor its staleness. -/
def hydrateEntry : GraphQLValue → ReadM NestedListResult
  | .array items => do
      let nested ← hydrateNestedList items
      return { data := [.array nested.data], isPartial := nested.isPartial,
               cascadeNull := nested.cascadeNull }
  | .null => return { data := [.null] }
  | entry => do
      let result ← read (entryRecord entry)
      return { data := [result.data], isPartial := result.isPartial, stale := result.stale,
               hasData := result.hasData,
               cascadeNull := result.data == .null && !nullable }

def hydrateNestedList : List GraphQLValue → ReadM NestedListResult
  | [] => return {}
  | entry :: rest => do
      let first ← hydrateEntry entry
      let others ← hydrateNestedList rest
      return { data := first.data ++ others.data
               isPartial := first.isPartial || others.isPartial
               stale := first.stale || others.stale
               hasData := first.hasData || others.hasData
               cascadeNull := first.cascadeNull || others.cascadeNull }

end

end Lists

def defaultComponentField (component : SelectionComponent) (vars : GraphQLObject)
    (parent : String) : GraphQLValue :=
  .component component.key component.prop component.fragment parent
    (evaluateVariables component.variables vars)

def readStored (context : ReadContext) (parent : String) (field : SelectionField) :
    ReadM GraphQLValue := fun storage =>
  match field.component with
  | none => .ok (storage.get parent (field.key context.vars)).value storage
  | some component =>
      let (result, storage) := storage.getOrWrite parent (field.key context.vars)
        (defaultComponentField component context.vars parent)
      .ok result.value storage

def unmarshalScalar (config : ConfigFile) (type : String) (value : GraphQLValue) :
    GraphQLValue :=
  match config.unmarshal type with
  | none => value
  | some unmarshal =>
      match value with
      | .array items => .array (items.map unmarshal)
      | value => unmarshal value

def nextStep (field : SelectionField) (stepsFromConnection : Option Nat) : Option Nat :=
  if (field.list.map (·.connection)).getD false then some 0
  else
    match stepsFromConnection with
    | none => none
    | some steps => if 2 ≤ steps then none else some (steps + 1)

def embeddedCursor (key : String) (stepsFromConnection : Option Nat) : Bool :=
  key == "cursor" && stepsFromConnection == some 1

/-- What a field is read as. A missing value is read as `null`. -/
def readValue (context : ReadContext) (read : SubscriptionSelection → String → ReadM SelectionResult)
    (field : SelectionField) (value : GraphQLValue) : ReadM FieldValueResult :=
  match value, field.selection with
  | .undefined, _ => return { value := .null }
  | .null, _ => return { value := .null, hasData := true }
  | value, none =>
      return { value := unmarshalScalar context.config field.type value, hasData := true }
  | .array items, some selection => do
      let list ← hydrateNestedList (read selection) field.nullable items
      return { value := .array list.data, isPartial := list.isPartial, stale := list.stale
               hasData := list.hasData || items.isEmpty, cascadeNull := list.cascadeNull }
  | value, some selection => do
      let object ← read selection value.propertyKey
      return { value := object.data, isPartial := object.isPartial, stale := object.stale
               hasData := object.hasData }

def attachListID (parent : String) (field : SelectionField) : GraphQLValue → GraphQLValue
  | .object fields =>
      match field.list with
      | some list =>
          if list.includeListID then
            .object (GraphQLObject.setProperty fields "__id"
              (.string (opaqueListID parent list.name)))
          else .object fields
      | none => .object fields
  | value => value

def requiredFieldMissing : GraphQLValue :=
  .object [("__typename", .string "@required field missing; don't match this")]

/-- The loop body of `getSelection`. -/
def readField (context : ReadContext)
    (read : Option Nat → SubscriptionSelection → String → ReadM SelectionResult)
    (stepsFromConnection : Option Nat) (parent : String) (state : SelectionState)
    (entry : String × SelectionField) : ReadM SelectionState := do
  let (attributeName, field) := entry
  if !context.reads field then
    return state
  let key := field.key context.vars
  let stored ← readStored context parent field
  let cursor := embeddedCursor key stepsFromConnection
  let result ← readValue context (read (nextStep field stepsFromConnection)) field stored
  let value := attachListID parent field result.value
  -- a masked field is read, but not kept
  let shown :=
    if field.visible || context.ignoreMasking then state.target.setProperty attributeName value
    else state.target
  let isNull := value == .null && !field.nullable && !cursor
  return {
    target :=
      if isNull && field.abstractHasRequired then
        GraphQLObject.setProperty shown attributeName requiredFieldMissing
      else shown
    isPartial := state.isPartial || (!stored.isDefined && !cursor) || result.isPartial
    stale := state.stale || context.staleManager.isStale parent key || result.stale
    hasData := state.hasData || result.hasData
    cascadeNull :=
      state.cascadeNull || result.cascadeNull || (isNull && !field.abstractHasRequired) }

def readFields (context : ReadContext)
    (read : Option Nat → SubscriptionSelection → String → ReadM SelectionResult)
    (stepsFromConnection : Option Nat) (parent : String) :
    FieldSelections → SelectionState → ReadM SelectionState
  | [], state => return state
  | entry :: rest, state => do
      let state ← readField context read stepsFromConnection parent state entry
      readFields context read stepsFromConnection parent rest state

def fragmentKey : String := " $fragments"

def fragmentReferences (fragments : List (String × ValueMap)) (vars : GraphQLObject)
    (parent : String) : GraphQLValue :=
  .object [("loading", .boolean false),
    ("values", .object (fragments.map fun fragment =>
      (fragment.1, .object [("parent", .string parent),
        ("variables", .object (evaluateVariables fragment.2 vars))])))]

def SelectionState.start (selection : SubscriptionSelection) (vars : GraphQLObject)
    (parent : String) : SelectionState :=
  match selection.fragments with
  | none => {}
  | some fragments =>
      { target := [(fragmentKey, fragmentReferences fragments vars parent)], hasData := true }

/-- Data is partial if there is some, but not everything has a full value. -/
def SelectionState.result (state : SelectionState) : SelectionResult where
  data := if state.cascadeNull then .null else .object state.target
  isPartial := state.hasData && state.isPartial
  stale := state.hasData && state.stale
  hasData := state.hasData

def readTypename (id : String) : ReadM (Option String) := fun storage =>
  let (typename, storage) := storage.getTypename id
  .ok typename storage

/-- `getSelection` for selections of a bounded depth. -/
def getSelectionWithin (context : ReadContext) :
    Nat → Option Nat → SubscriptionSelection → String → ReadM SelectionResult
  | 0, _, _, _ => throw .typeError
  | depth + 1, stepsFromConnection, selection, parent => do
      let typename ← readTypename parent
      match getFieldsForType selection typename with
      | none => throw .typeError
      | some fields =>
          let state ← readFields context (getSelectionWithin context depth) stepsFromConnection
            parent fields (.start selection context.vars parent)
          return state.result

def getSelection (context : ReadContext) (stepsFromConnection : Option Nat)
    (selection : SubscriptionSelection) (parent : String) : ReadM SelectionResult :=
  getSelectionWithin context selection.depth stepsFromConnection selection parent

structure ReadResult where
  data : GraphQLValue
  isPartial : Bool
  stale : Bool
  deriving DecidableEq, Repr

/-- `read`: without data there is nothing to answer. -/
def read (context : ReadContext) (selection : SubscriptionSelection) (parent : String := rootID)
    (stepsFromConnection : Option Nat := none) : ReadM ReadResult := do
  let result ← getSelection context stepsFromConnection selection parent
  if result.hasData then
    return { data := result.data, isPartial := result.isPartial, stale := result.stale }
  else return { data := .null, isPartial := false, stale := false }

end Houdini.Runtime.Cache
