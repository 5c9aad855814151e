import Houdini.Runtime.Value

/-! The selections of compiled documents, and what evaluating one against some
variables comes to. Loading states are left out. -/

set_option autoImplicit false

namespace Houdini.Runtime

/-- An argument in a document. A number is kept as the text `JSON.stringify` prints
for what it parses to. -/
inductive ValueNode where
  | «variable» (name : String)
  | number (text : String)
  | string (value : String)
  | boolean (value : Bool)
  | enum (value : String)
  | null
  | list (values : List ValueNode)
  | object (fields : List (String × ValueNode))
  deriving Repr

abbrev ValueMap := List (String × ValueNode)

mutual

def variableValue (args : GraphQLObject) : ValueNode → GraphQLValue
  | .variable name => args.property name
  | .number text => .number text
  | .string value | .enum value => .string value
  | .boolean value => .boolean value
  | .null => .null
  | .list values => .array (variableValues args values)
  | .object fields => .object (variableFields args [] fields)

def variableValues (args : GraphQLObject) : List ValueNode → List GraphQLValue
  | [] => []
  | value :: rest => variableValue args value :: variableValues args rest

def variableFields (args : GraphQLObject) (object : GraphQLObject) :
    List (String × ValueNode) → GraphQLObject
  | [] => object
  | (name, value) :: rest =>
      variableFields args (object.setProperty name (variableValue args value)) rest

end

def evaluateVariables (arguments : ValueMap) (args : GraphQLObject) : GraphQLObject :=
  arguments.map fun entry => (entry.1, variableValue args entry.2)

inductive ListFilter where
  | literal (value : GraphQLValue)
  | «variable» (name : String)
  | object (value : List (String × ListFilter))
  | list (value : List ListFilter)
  deriving Repr

mutual

def filterValue (vars : GraphQLObject) : ListFilter → GraphQLValue
  | .literal value => value
  | .variable name => vars.property name
  | .object fields => .object (filterFields vars fields)
  | .list values => .array (filterValues vars values)

def filterValues (vars : GraphQLObject) : List ListFilter → List GraphQLValue
  | [] => []
  | value :: rest => filterValue vars value :: filterValues vars rest

def filterFields (vars : GraphQLObject) : List (String × ListFilter) → GraphQLObject
  | [] => []
  | (name, value) :: rest => (name, filterValue vars value) :: filterFields vars rest

end

inductive OperationAction where
  | insert
  | remove
  | delete
  | toggle
  | upsert
  deriving DecidableEq, Repr

inductive ListPosition where
  | first
  | last
  deriving DecidableEq, Repr

/-- The conditions of an operation before their variables are resolved. -/
structure OperationWhen where
  must : Option (List (String × ListFilter)) := none
  mustNot : Option (List (String × ListFilter)) := none
  deriving Repr

structure MutationOperation where
  action : OperationAction
  list : Option String := none
  type : Option String := none
  parentID : Option ValueNode := none
  listID : Option ValueNode := none
  position : Option ListPosition := none
  /-- `target === 'all'` -/
  targetAll : Bool := false
  «when» : Option OperationWhen := none
  deriving Repr

structure SelectionList where
  name : String
  connection : Bool
  type : String
  includeListID : Bool := false
  deriving DecidableEq, Repr

structure SelectionDirective where
  name : String
  arguments : ValueMap
  deriving Repr

structure SelectionComponent where
  prop : String
  key : String
  fragment : String
  «variables» : ValueMap := []
  deriving Repr

mutual

structure SubscriptionSelection where
  /-- The arguments of the fragments that the selection spreads. -/
  fragments : Option (List (String × ValueMap)) := none
  fields : List (String × SelectionField) := []
  abstractFields : Option AbstractFields := none

structure SelectionField where
  type : String
  keyRaw : String
  nullable : Bool := false
  operations : List MutationOperation := []
  list : Option SelectionList := none
  directives : List SelectionDirective := []
  updates : Option (List String) := none
  visible : Bool := false
  filters : List (String × ListFilter) := []
  selection : Option SubscriptionSelection := none
  abstract : Bool := false
  abstractHasRequired : Bool := false
  component : Option SelectionComponent := none
  optimisticKey : Bool := false

structure AbstractFields where
  fields : List (String × List (String × SelectionField))
  typeMap : List (String × String) := []

end

abbrev FieldSelections := List (String × SelectionField)

instance : Inhabited SubscriptionSelection := ⟨{}⟩

/-- `getFieldsForType` outside of a loading state. A type that is mapped to one
without fields has none, which is not the same as an empty selection. -/
def getFieldsForType (selection : SubscriptionSelection) (typename : Option String) :
    Option FieldSelections :=
  match selection.abstractFields, typename with
  | some abstractFields, some typename =>
      if typename = "" then some selection.fields
      else
        match abstractFields.typeMap.lookup typename with
        | some mappedType =>
            if mappedType = "" then
              (abstractFields.fields.lookup typename).orElse fun _ => some selection.fields
            else abstractFields.fields.lookup mappedType
        | none => (abstractFields.fields.lookup typename).orElse fun _ => some selection.fields
  | _, _ => some selection.fields

def SelectionDirective.condition (directive : SelectionDirective) (vars : GraphQLObject) : Bool :=
  ((evaluateVariables directive.arguments vars).property "if").truthy

/-- `@include` and `@skip` leave the field in the selection. -/
def SelectionField.included (field : SelectionField) (vars : GraphQLObject) : Bool :=
  let condition (name : String) : Option Bool :=
    (field.directives.find? (·.name == name)).map (·.condition vars)
  (condition "include").getD true && !(condition "skip").getD false

mutual

def SubscriptionSelection.hasOperations : SubscriptionSelection → Bool
  | { fragments := _, fields, abstractFields := none } => fieldsHaveOperations fields
  | { fragments := _, fields, abstractFields := some abstractFields } =>
      fieldsHaveOperations fields || abstractFields.hasOperations

def SelectionField.hasOperations : SelectionField → Bool
  | { operations, selection := none, .. } => !operations.isEmpty
  | { operations, selection := some selection, .. } =>
      !operations.isEmpty || selection.hasOperations

def AbstractFields.hasOperations : AbstractFields → Bool
  | { fields, typeMap := _ } => typesHaveOperations fields

def fieldsHaveOperations : FieldSelections → Bool
  | [] => false
  | (_, field) :: rest => field.hasOperations || fieldsHaveOperations rest

def typesHaveOperations : List (String × FieldSelections) → Bool
  | [] => false
  | (_, fields) :: rest => fieldsHaveOperations fields || typesHaveOperations rest

end

mutual

def SubscriptionSelection.depth : SubscriptionSelection → Nat
  | { fragments := _, fields, abstractFields := none } => fieldsDepth fields + 1
  | { fragments := _, fields, abstractFields := some abstractFields } =>
      max (fieldsDepth fields) abstractFields.depth + 1

def SelectionField.depth : SelectionField → Nat
  | { selection := none, .. } => 0
  | { selection := some selection, .. } => selection.depth

def AbstractFields.depth : AbstractFields → Nat
  | { fields, typeMap := _ } => typesDepth fields

def fieldsDepth : FieldSelections → Nat
  | [] => 0
  | (_, field) :: rest => max field.depth (fieldsDepth rest)

def typesDepth : List (String × FieldSelections) → Nat
  | [] => 0
  | (_, fields) :: rest => max (fieldsDepth fields) (typesDepth rest)

end

end Houdini.Runtime
