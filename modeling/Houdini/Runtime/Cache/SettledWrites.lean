import Houdini.Runtime.Cache.StorageWrites
import Houdini.Runtime.Cache.WritingProperties

/-! Writes to a store whose layers were all resolved into one, with no operations left to apply
to a list. -/

set_option autoImplicit false

namespace Houdini.Runtime.Cache

/-- What a layer holds for a field of a record: a link hides a scalar. -/
structure FieldCell where
  link : Option GraphQLValue := none
  scalar : Option GraphQLValue := none
  deriving DecidableEq, Repr

/-- What can be done to a field of a record. -/
inductive CellWrite where
  | link (value : GraphQLValue)
  | scalar (value : GraphQLValue)
  | remove
  deriving DecidableEq, Repr

namespace FieldCell

def after (cell : FieldCell) : CellWrite → FieldCell
  | .link value => { cell with link := some value }
  | .scalar value => { cell with scalar := some value }
  | .remove => {}

def value (cell : FieldCell) : GraphQLValue :=
  let link := cell.link.getD .undefined
  if link.isDefined then link else cell.scalar.getD .undefined

theorem value_of_link {value : GraphQLValue} (scalar : Option GraphQLValue)
    (defined : value ≠ .undefined) : ({ link := some value, scalar } : FieldCell).value = value := by
  unfold FieldCell.value
  simp [GraphQLValue.isDefined_iff.mpr defined]

@[simp] theorem value_of_scalar (value : GraphQLValue) :
    ({ scalar := some value } : FieldCell).value = value := rfl

@[simp] theorem value_blank : ({} : FieldCell).value = .undefined := rfl

end FieldCell

namespace InMemoryStorage

def base (storage : InMemoryStorage) : Layer := storage.data.headD { id := 0 }

/-- There is one layer, which is not optimistic, and it applies nothing to the lists it holds. -/
structure Settled (storage : InMemoryStorage) (layer : LayerID) : Prop where
  single : storage.data = [storage.base]
  layer : storage.base.id = layer
  resolved : storage.base.optimistic = false
  operations : storage.base.operations = ∅
  deletedIDs : storage.base.deletedIDs = []
  idMaps : storage.idMaps = ∅

def cell (storage : InMemoryStorage) (id field : String) : FieldCell where
  link := storage.base.links.getIn? id field
  scalar := storage.base.fields.getIn? id field

def putLink (storage : InMemoryStorage) (id field : String) (value : GraphQLValue) :
    InMemoryStorage :=
  { storage with
    data := [{ storage.base with links := storage.base.links.setIn id field value }] }

def putScalar (storage : InMemoryStorage) (id field : String) (value : GraphQLValue) :
    InMemoryStorage :=
  { storage with
    data := [{ storage.base with fields := storage.base.fields.setIn id field value }] }

section Cells

variable (storage : InMemoryStorage) (id field other name : String) (value : GraphQLValue)

theorem cell_putLink :
    (storage.putLink id field value).cell other name =
      if other = id ∧ name = field then (storage.cell other name).after (.link value)
      else storage.cell other name := by
  have linked : (storage.base.links.setIn id field value).getIn? other name =
      if other = id ∧ name = field then some value else storage.base.links.getIn? other name :=
    OrderedMap.getIn?_setIn ..
  unfold cell
  change FieldCell.mk ((storage.base.links.setIn id field value).getIn? other name) _ = _
  rw [linked]
  split <;> rfl

theorem cell_putScalar :
    (storage.putScalar id field value).cell other name =
      if other = id ∧ name = field then (storage.cell other name).after (.scalar value)
      else storage.cell other name := by
  have stored : (storage.base.fields.setIn id field value).getIn? other name =
      if other = id ∧ name = field then some value else storage.base.fields.getIn? other name :=
    OrderedMap.getIn?_setIn ..
  unfold cell
  change FieldCell.mk _ ((storage.base.fields.setIn id field value).getIn? other name) = _
  rw [stored]
  split <;> rfl

end Cells

section Settled

variable {storage : InMemoryStorage} {layer : LayerID} (settled : storage.Settled layer)

include settled

theorem Settled.putLink (id field : String) (value : GraphQLValue) :
    (storage.putLink id field value).Settled layer where
  single := rfl
  layer := settled.layer
  resolved := settled.resolved
  operations := settled.operations
  deletedIDs := settled.deletedIDs
  idMaps := settled.idMaps

theorem Settled.putScalar (id field : String) (value : GraphQLValue) :
    (storage.putScalar id field value).Settled layer where
  single := rfl
  layer := settled.layer
  resolved := settled.resolved
  operations := settled.operations
  deletedIDs := settled.deletedIDs
  idMaps := settled.idMaps

theorem Settled.nextRank : storage.nextRank.2.Settled layer where
  single := settled.single
  layer := settled.layer
  resolved := settled.resolved
  operations := settled.operations
  deletedIDs := settled.deletedIDs
  idMaps := settled.idMaps

theorem Settled.withTypenames (typenames : OrderedMap String String) :
    ({ storage with typenames } : InMemoryStorage).Settled layer where
  single := settled.single
  layer := settled.layer
  resolved := settled.resolved
  operations := settled.operations
  deletedIDs := settled.deletedIDs
  idMaps := settled.idMaps

theorem Settled.value_eq (id field : String) :
    storage.value id field = (storage.cell id field).value := by
  have held : (storage.cell id field).value = storage.base.value id field := by
    unfold Layer.value Layer.get FieldCell.value cell
    dsimp only
    split <;> rfl
  rw [held]
  have names : storage.recordIDs id = [id] := by
    unfold recordIDs
    rw [settled.idMaps]
    rfl
  have idle : (storage.base.view storage.idMaps id field).patch = {} := by
    unfold Layer.view Layer.hidden Layer.hiddenIDs Layer.listOperations
    rw [settled.deletedIDs, settled.operations]
    rfl
  have kept : (storage.base.view storage.idMaps id field).deletes = false := by
    unfold Layer.view Layer.deletes
    rw [settled.operations]
    rfl
  unfold InMemoryStorage.value
  rw [get_value, views, settled.single, names]
  change cellValue (PatchView.read {} [storage.base.view storage.idMaps id field]) = _
  have stored : (storage.base.view storage.idMaps id field).stored =
      storedCell (storage.base.value id field) := rfl
  cases held : storedCell (storage.base.value id field) with
  | nothing =>
      rw [PatchView.read_nothing (stored.trans held) kept, storedCell_eq_nothing.mp held]
      rfl
  | list entries =>
      rw [PatchView.read_list (stored.trans held) kept, idle, storedCell_eq_list.mp held]
      simp [cellValue, ListPatch.apply, ListPatch.comp, ListPatch.keeps]
  | scalar value =>
      rw [PatchView.read_scalar (stored.trans held), ← cellValue_storedCell (storage.base.value id field),
        held]

theorem Settled.removeEmbeddedRecord (id : String) :
    (storage.removeEmbeddedRecord id).Settled layer ∧
      ∀ other field, (storage.removeEmbeddedRecord id).cell other field =
        if other = id then {} else storage.cell other field := by
  have removed : storage.removeEmbeddedRecord id =
      { storage with
        data := [{ storage.base with
          fields := storage.base.fields.erase id, links := storage.base.links.erase id }]
        typenames := storage.typenames.erase id } := by
    have kept : ¬ storage.base.optimistic = true := by
      rw [settled.resolved]
      exact Bool.false_ne_true
    unfold InMemoryStorage.removeEmbeddedRecord
    rw [settled.single, List.map_cons, List.map_nil, if_neg kept]
  rw [removed]
  constructor
  · exact
      { single := rfl
        layer := settled.layer
        resolved := settled.resolved
        operations := settled.operations
        deletedIDs := settled.deletedIDs
        idMaps := settled.idMaps }
  · intro other field
    change FieldCell.mk ((storage.base.links.erase id).getIn? other field)
      ((storage.base.fields.erase id).getIn? other field) = _
    rw [OrderedMap.getIn?_erase, OrderedMap.getIn?_erase]
    split <;> rfl

end Settled

end InMemoryStorage

section Writing

variable {storage : InMemoryStorage} {layer : LayerID} (settled : storage.Settled layer)

include settled

private theorem find_base : storage.data.find? (·.id == layer) = some storage.base := by
  rw [settled.single]
  simp [settled.layer]

private theorem setLayer_base {written : Layer} (same : written.id = storage.base.id) :
    storage.setLayer written = { storage with data := [written] } := by
  unfold InMemoryStorage.setLayer
  rw [settled.single]
  simp [same]

theorem writeFieldTo_settled (id field : String) (value : GraphQLValue) :
    writeFieldTo layer id field value storage =
      .ok () (storage.putScalar id field value) := by
  unfold writeFieldTo changeLayer
  rw [find_base settled]
  dsimp only
  rw [setLayer_base settled (by rfl)]
  rfl

theorem writeLinkTo_settled (id field : String) (value : GraphQLValue) :
    writeLinkTo layer id field value storage = .ok () (storage.putLink id field value) := by
  have undeleted (linked : List GraphQLValue) :
      Layer.writeLink.undeleteAll id field value storage.base linked =
        .ok () { storage.base with links := storage.base.links.setIn id field value } := by
    induction linked with
    | nil => rfl
    | cons element rest ih =>
        have present : storage.base.isDeleted element = false := by
          unfold Layer.isDeleted
          rw [settled.operations, settled.deletedIDs]
          cases element <;> rfl
        have kept : storage.base.undelete id field element = .ok storage.base := by
          unfold Layer.undelete Layer.fieldOperations
          rw [present, settled.operations]
          rfl
        rw [Layer.writeLink.undeleteAll, kept]
        exact ih
  unfold writeLinkTo changeLayer Layer.writeLink
  rw [find_base settled]
  dsimp only
  rw [undeleted]
  dsimp only
  rw [setLayer_base settled (by rfl)]
  rfl

theorem isOptimistic_settled : isOptimistic layer storage = false := by
  unfold isOptimistic
  rw [find_base settled]
  exact settled.resolved

theorem hasListOperation_settled (key : String) (id : GraphQLValue) :
    hasListOperation storage key id = false := by
  unfold hasListOperation
  rw [settled.single]
  simp only [List.any_cons, List.any_nil, Bool.or_false]
  rw [settled.operations]
  rfl

theorem updateList_settled (context : WriteContext) (updates : Option (List String))
    (ids : ListIDs) (oldIDs : List GraphQLValue) :
    (updateList context layer storage updates ids oldIDs).action = .link := by
  have applied (updates applyUpdates : List String) (current : ListUpdate)
      (linked : current.action = .link) :
      (applyUpdates.foldl (applyListUpdate (filterIDs storage) false updates ids.newIDs oldIDs)
        current).action = .link := by
    induction applyUpdates generalizing current with
    | nil => exact linked
    | cons update rest ih =>
        refine ih _ ?_
        unfold applyListUpdate
        split
        · exact linked
        · split
          · exact linked
          · split
            · exact linked
            · split <;> exact linked
  unfold updateList
  rw [isOptimistic_settled settled]
  split
  · exact applied _ _ _ rfl
  · rfl

theorem previousListIDs_settled (updates : List String) (key : String) (previous : GraphQLValue) :
    previousListIDs storage updates key previous = previous.items := by
  unfold previousListIDs
  split
  · exact List.filter_eq_self.mpr fun id _ => by rw [hasListOperation_settled settled]; rfl
  · rfl

theorem writeProperty_scalar {context : WriteContext}
    {write : SubscriptionSelection → String → GraphQLObject → WriteM Unit} {field : SelectionField}
    {parent : String} {value result : GraphQLValue} (leaf : field.selection = none)
    (named : field.key context.vars ≠ "__typename")
    (scalar : scalarValue context.applyUpdates field.updates
      (storage.value parent (field.key context.vars)) value = .ok result) :
    writeProperty context layer write parent field value storage =
      .ok () (storage.putScalar parent (field.key context.vars) result) := by
  have read : (storage.get parent (field.key context.vars)).value =
      storage.value parent (field.key context.vars) := rfl
  have get : (get : WriteM InMemoryStorage) storage = .ok storage storage := rfl
  unfold writeProperty
  rw [EStateM.bind_of_ok get, leaf]
  dsimp only
  unfold writeScalar
  rw [read, scalar]
  dsimp only
  rw [EStateM.bind_of_ok (writeFieldTo_settled settled _ _ _)]
  unfold rememberTypename
  split
  · rw [if_neg named]
  · rfl

theorem writeProperty_null {context : WriteContext} {selection : SubscriptionSelection}
    {write : SubscriptionSelection → String → GraphQLObject → WriteM Unit} {field : SelectionField}
    {parent : String} (branch : field.selection = some selection) :
    writeProperty context layer write parent field .null storage =
      .ok () (if storage.value parent (field.key context.vars) = .null then storage
        else storage.putLink parent (field.key context.vars) .null) := by
  have get : (get : WriteM InMemoryStorage) storage = .ok storage storage := rfl
  unfold writeProperty
  rw [EStateM.bind_of_ok get, branch]
  change (if (storage.value parent (field.key context.vars) == .null) = true then pure ()
    else writeLinkTo layer parent (field.key context.vars) .null : WriteM Unit) storage = _
  by_cases null : storage.value parent (field.key context.vars) = .null
  · rw [if_pos null, if_pos (beq_iff_eq.mpr null)]
    rfl
  · rw [if_neg null, if_neg fun same => null (beq_iff_eq.mp same),
      writeLinkTo_settled settled]

theorem writeProperty_object {context : WriteContext} {selection : SubscriptionSelection}
    {write : SubscriptionSelection → String → GraphQLObject → WriteM Unit} {field : SelectionField}
    {parent record : String} {data : GraphQLObject} (branch : field.selection = some selection)
    (linked : LinkedField.linkedID
      { parent, key := field.key context.vars, linkedType := linkedType field (.object data)
        abstract := field.abstract } context.config data = .ok (some record)) :
    writeProperty context layer write parent field (.object data) storage =
      write selection record data
        (storage.putLink parent (field.key context.vars) (.string record)) := by
  have get : (get : WriteM InMemoryStorage) storage = .ok storage storage := rfl
  unfold writeProperty
  rw [EStateM.bind_of_ok get, branch]
  dsimp only
  unfold writeObject
  rw [linked]
  exact EStateM.bind_of_ok (writeLinkTo_settled settled _ _ _)

theorem writeLayer_settled : writeLayer none storage = .ok layer storage := by
  have safe : storage.topLayer = (storage.base, storage) := by
    have last : storage.data.getLast? = some storage.base := by
      rw [settled.single]
      rfl
    unfold InMemoryStorage.topLayer
    rw [last]
    simp [settled.resolved]
  unfold writeLayer
  simp [safe, settled.layer]

end Writing

end Houdini.Runtime.Cache
