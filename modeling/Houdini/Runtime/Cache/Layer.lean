import Houdini.Data.OrderedMap
import Houdini.Runtime.Value

/-! One storage layer: stored fields and links, the pending list operations of
every record, and the records deleted in the layer. -/

set_option autoImplicit false

namespace Houdini.Runtime

/-- What a runtime function throws. -/
inductive JSError where
  /-- Reading a property of `undefined`. -/
  | typeError
  | error (message : String)
  deriving DecidableEq, Repr

namespace Cache

abbrev LayerID := Nat

abbrev EntityMap (Value : Type) := OrderedMap String (OrderedMap String Value)

inductive OperationLocation where
  | start
  | «end»
  deriving DecidableEq, Repr

inductive ListOperation where
  | insert (location : OperationLocation) (id : String)
  | remove (id : String)
  deriving DecidableEq, Repr

inductive Operation where
  | list (operation : ListOperation)
  | delete (target : String)
  deriving DecidableEq, Repr

/-- One entry of the operation map. The properties that an entry can lack are
optional: `delete` creates an entry without `fields`. -/
structure RecordOperations where
  deleted : Bool := false
  undoDeletesInList : Option (List String) := none
  fields : Option (OrderedMap String (List ListOperation)) := none

instance : DecidableEq RecordOperations := fun left right =>
  decidable_of_iff (left.deleted = right.deleted ∧
      left.undoDeletesInList = right.undoDeletesInList ∧ left.fields = right.fields) (by
    cases left
    cases right
    simp)

inductive FieldKind where
  | link
  | scalar
  | unknown
  deriving DecidableEq, Repr

structure Layer where
  id : LayerID
  optimistic : Bool := false
  fields : EntityMap GraphQLValue := ∅
  links : EntityMap GraphQLValue := ∅
  operations : OrderedMap String RecordOperations := ∅
  deletedIDs : List String := []

namespace ListOperation

def target : ListOperation → String
  | .insert _ id => id
  | .remove id => id

def isInsert : ListOperation → Bool
  | .insert .. => true
  | .remove _ => false

def isRemove : ListOperation → Bool
  | .insert .. => false
  | .remove _ => true

def inserts (operation : ListOperation) (id : String) : Bool :=
  operation.isInsert && operation.target == id

def removes (operation : ListOperation) (id : String) : Bool :=
  operation.isRemove && operation.target == id

end ListOperation

namespace Layer

def get (layer : Layer) (id field : String) : GraphQLValue × FieldKind :=
  let link := (layer.links.getIn? id field).getD .undefined
  if link.isDefined then (link, .link)
  else ((layer.fields.getIn? id field).getD .undefined, .scalar)

def getOperations (layer : Layer) (id field : String) : Option (List Operation) :=
  match layer.operations.get? id with
  | none => none
  | some operations =>
      if operations.deleted then some [.delete id]
      else (operations.fields.bind (·.get? field)).map (·.map .list)

def writeField (layer : Layer) (id field : String) (value : GraphQLValue) : Layer :=
  { layer with fields := layer.fields.setIn id field value }

/-- The operations recorded for a field of a record. Reading them through an
entry without `fields` throws. -/
def fieldOperations (layer : Layer) (id field : String) :
    Except JSError (Option (List ListOperation)) :=
  match layer.operations.get? id with
  | none => .ok none
  | some operations =>
      match operations.fields with
      | none => .error .typeError
      | some fields => .ok (fields.get? field)

def undoDelete (layer : Layer) (id field value : String) : Layer :=
  let undone := ((layer.operations.get? id).bind (·.undoDeletesInList)).getD []
  let current := (layer.operations.get? value).getD {}
  { layer with
    operations := layer.operations.set value
      { current with undoDeletesInList := some (undone ++ [field]) } }

def undoRemove (layer : Layer) (id field : String) (value : GraphQLValue)
    (operations : List ListOperation) : Layer :=
  let kept := operations.filter fun operation =>
    !operation.isRemove || GraphQLValue.string operation.target != value
  let current := (layer.operations.get? id).getD {}
  { layer with
    operations := layer.operations.set id
      { current with fields := some ((current.fields.getD ∅).set field kept) } }

def isDeleted (layer : Layer) (value : GraphQLValue) : Bool :=
  ((layer.operations.get? value.propertyKey).map (·.deleted)).getD false ||
    match value with
    | .string id => layer.deletedIDs.contains id
    | _ => false

/-- The part of `writeLink` that runs for every linked value. -/
def undelete (layer : Layer) (id field : String) (value : GraphQLValue) :
    Except JSError Layer := do
  let operations ← layer.fieldOperations id field
  if layer.isDeleted value then
    return layer.undoDelete id field value.propertyKey
  match operations with
  | none | some [] => return layer
  | some operations => return layer.undoRemove id field value operations

def writeLink (layer : Layer) (id field : String) (value : GraphQLValue) :
    EStateM.Result JSError Layer Unit :=
  let rec undeleteAll (layer : Layer) : List GraphQLValue → EStateM.Result JSError Layer Unit
    | [] => .ok () { layer with links := layer.links.setIn id field value }
    | linked :: rest =>
        match layer.undelete id field linked with
        | .error error => .error error layer
        | .ok layer => undeleteAll layer rest
  undeleteAll layer value.flattenLinks

def isDisplayLayer (layer : Layer) (displayLayers : List LayerID) : Bool :=
  displayLayers.isEmpty || displayLayers.contains layer.id ||
    displayLayers.foldl max 0 < layer.id

def clear (layer : Layer) : Layer :=
  { layer with links := ∅, fields := ∅, operations := ∅, deletedIDs := [] }

/-- Drop the fields that hold `undefined`, then the records that are left
without fields or links. -/
def removeUndefinedFields (layer : Layer) : Layer :=
  layer.fields.entries.foldl (fun layer record =>
    let id := record.1
    let cleared := record.2.entries.foldl (fun (layer : Layer) entry =>
      if entry.2.isDefined then layer
      else
        { layer with
          fields := layer.fields.set id (((layer.fields.get? id).getD ∅).erase entry.1)
          links :=
            match layer.links.get? id with
            | none => layer.links
            | some links => layer.links.set id (links.erase entry.1) }) layer
    let layer :=
      if ((cleared.fields.get? id).getD ∅).isEmpty then
        { cleared with fields := cleared.fields.erase id }
      else cleared
    if ((layer.links.get? id).getD ∅).isEmpty then
      { layer with links := layer.links.erase id }
    else layer) layer

def addDeletedID (layer : Layer) (id : String) : Layer :=
  { layer with
    deletedIDs := if layer.deletedIDs.contains id then layer.deletedIDs
      else layer.deletedIDs ++ [id] }

def delete (layer : Layer) (id : String) : Layer :=
  let current := (layer.operations.get? id).getD {}
  addDeletedID
    { layer with
      operations := layer.operations.set id
        { current with deleted := true, undoDeletesInList := some [] } } id

def deleteField (layer : Layer) (id field : String) : Layer :=
  { layer with fields := layer.fields.setIn id field .undefined }

/-- The entry's `fields` are read before the new entry is built, so a record
deleted in the layer makes this throw. -/
def addFieldOperation (layer : Layer) (id field : String) (operation : ListOperation) :
    Except JSError Layer := do
  let existing ← layer.fieldOperations id field
  let current := (layer.operations.get? id).getD {}
  return { layer with
    operations := layer.operations.set id
      { current with
        fields := some ((current.fields.getD ∅).set field (existing.getD [] ++ [operation])) } }

def insert (layer : Layer) (id field : String) (location : OperationLocation)
    (target : String) : Except JSError Layer :=
  layer.addFieldOperation id field (.insert location target)

def remove (layer : Layer) (id field target : String) : Except JSError Layer :=
  layer.addFieldOperation id field (.remove target)

def netOperations (operations : List ListOperation) (id : String) : Int :=
  (operations.countP (·.inserts id) : Int) - (operations.countP (·.removes id) : Int)

/-- An operation survives while fewer of its kind than the net count have been kept. -/
def survives (net : String → Int) (kept : List ListOperation) : ListOperation → Bool
  | .insert _ id => 0 < net id && ((kept.countP (·.inserts id) : Nat) : Int) < net id
  | .remove id => net id < 0 && ((kept.countP (·.removes id) : Nat) : Int) < -net id

/-- Keep, newest first, only as many inserts or removes of an id as the net
count dictates. -/
def compactOperations (operations : List ListOperation) : List ListOperation :=
  let net := netOperations operations
  operations.foldl (fun kept operation =>
    if survives net kept operation then kept ++ [operation] else kept) []

/-- The operation lists of two entries for one record, the newer one first. -/
def mergeFieldOperations (upper lower : Option RecordOperations) :
    OrderedMap String (List ListOperation) :=
  let entries (operations : Option RecordOperations) :=
    ((operations.bind (·.fields)).getD ∅).entries
  (entries upper ++ entries lower).foldl (fun fields entry =>
    fields.set entry.1 ((fields.get? entry.1).getD [] ++ entry.2)) ∅

/-- Merge the operations a layer holds for one record into this layer. -/
def mergeOperations (this : Layer) (entry : String × RecordOperations) : Layer :=
  let current := this.operations.get? entry.1
  let fields := (mergeFieldOperations (some entry.2) current).mapValues fun _ operations =>
    compactOperations operations
  let merged :=
    if fields.isEmpty then this
    else
      { this with
        operations := this.operations.set entry.1
          { (current.getD {}) with fields := some fields } }
  if entry.2.deleted then
    { merged with fields := merged.fields.erase entry.1, links := merged.links.erase entry.1 }
  else merged

def writeLinks (this : Layer) : List (String × String × GraphQLValue) →
    EStateM.Result JSError Layer Unit
  | [] => .ok () this
  | (id, field, value) :: rest =>
      match this.writeLink id field value with
      | .error error this => .error error this
      | .ok _ this => writeLinks this rest

/-- `writeLayer`: merge a layer into this one. Operations are applied first,
so that a delete clears the existing data before the values are copied. -/
def writeLayer (this layer : Layer) : EStateM.Result JSError Layer Unit :=
  if layer.id = this.id then .ok () this
  else
    let merged := layer.operations.entries.foldl mergeOperations this
    let written := { merged with fields := merged.fields.setAllIn layer.fields.entriesIn }
    match written.writeLinks layer.links.entriesIn with
    | .error error this => .error error this
    | .ok _ this => .ok () (layer.deletedIDs.foldl addDeletedID this)

end Layer

end Cache

end Houdini.Runtime
