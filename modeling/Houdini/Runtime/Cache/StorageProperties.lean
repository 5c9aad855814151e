import Houdini.Data.ListPatch
import Houdini.Runtime.Cache.Storage

/-! The layered read as the composition of one view for every layer and id. -/

set_option autoImplicit false

namespace Houdini.Runtime.Cache

namespace Layer

def listOperations (layer : Layer) (id field : String) : List ListOperation :=
  (((layer.operations.get? id).bind (·.fields)).bind (·.get? field)).getD []

def deletes (layer : Layer) (id : String) : Bool :=
  ((layer.operations.get? id).map (·.deleted)).getD false

def value (layer : Layer) (id field : String) : GraphQLValue := (layer.get id field).1

end Layer

namespace ListOperation

def startTarget? : ListOperation → Option GraphQLValue
  | .insert .start id => some (.string id)
  | _ => none

def endTarget? : ListOperation → Option GraphQLValue
  | .insert .end id => some (.string id)
  | _ => none

def removeTarget? : ListOperation → Option GraphQLValue
  | .remove id => some (.string id)
  | _ => none

def patch (operations : List ListOperation) : ListPatch GraphQLValue where
  insertStart := operations.filterMap startTarget?
  insertEnd := (operations.filterMap endTarget?).reverse
  removed := operations.filterMap removeTarget?

theorem patch_append (upper lower : List ListOperation) :
    patch (upper ++ lower) = (patch upper).comp (patch lower) := by
  simp [patch, ListPatch.comp, List.filterMap_append]

theorem patch_cons (operation : ListOperation) (rest : List ListOperation) :
    patch (operation :: rest) = (patch [operation]).comp (patch rest) :=
  patch_append [operation] rest

end ListOperation

def storedCell : GraphQLValue → StoredCell GraphQLValue GraphQLValue
  | .undefined => .nothing
  | .array items => .list items
  | value => .scalar value

def cellValue : StoredCell GraphQLValue GraphQLValue → GraphQLValue
  | .nothing => .undefined
  | .scalar value => value
  | .list items => .array items

theorem cellValue_storedCell (value : GraphQLValue) : cellValue (storedCell value) = value := by
  cases value <;> rfl

theorem storedCell_eq_nothing {value : GraphQLValue} :
    storedCell value = .nothing ↔ value = .undefined := by
  cases value <;> simp [storedCell]

theorem storedCell_eq_list {value : GraphQLValue} {items : List GraphQLValue} :
    storedCell value = .list items ↔ value = .array items := by
  cases value <;> simp [storedCell]

namespace Layer

def hidden (layer : Layer) (idMaps : OrderedMap String String) (field : String) :
    ListPatch GraphQLValue :=
  { removed := (layer.hiddenIDs idMaps field).map GraphQLValue.string }

def view (layer : Layer) (idMaps : OrderedMap String String) (id field : String) :
    PatchView GraphQLValue GraphQLValue where
  stored := storedCell (layer.value id field)
  deletes := layer.deletes id
  patch := (layer.hidden idMaps field).comp (ListOperation.patch (layer.listOperations id field))

theorem getOperations_of_deletes {layer : Layer} {id field : String}
    (deleted : layer.deletes id = true) :
    (layer.getOperations id field).getD [] = [.delete id] := by
  unfold deletes at deleted
  unfold getOperations
  cases found : layer.operations.get? id with
  | none => simp [found] at deleted
  | some operations =>
      simp only [found, Option.map_some, Option.getD_some] at deleted
      simp [deleted]

theorem getOperations_of_kept {layer : Layer} {id field : String}
    (kept : layer.deletes id = false) :
    (layer.getOperations id field).getD [] = (layer.listOperations id field).map .list := by
  unfold deletes at kept
  unfold getOperations listOperations
  cases found : layer.operations.get? id with
  | none => simp
  | some operations =>
      simp only [found, Option.map_some, Option.getD_some] at kept
      simp only [kept, Bool.false_eq_true, if_false, Option.bind_some]
      cases (operations.fields.bind (·.get? field)) <;> simp

end Layer

namespace PendingOperations

def patch (pending : PendingOperations) : ListPatch GraphQLValue where
  insertStart := pending.insertStart.map GraphQLValue.string
  insertEnd := pending.insertEnd.map GraphQLValue.string
  removed := pending.removeSet.map GraphQLValue.string

@[simp] theorem patch_addLayer (pending : PendingOperations) (id : LayerID) :
    (pending.addLayer id).patch = pending.patch := rfl

theorem isRemoved_eq (pending : PendingOperations) (value : GraphQLValue) :
    (!pending.isRemoved value) = pending.patch.keeps value := by
  unfold isRemoved ListPatch.keeps patch
  cases value <;> simp

theorem display_eq (pending : PendingOperations) (entries : List GraphQLValue) :
    pending.display entries = pending.patch.apply entries := by
  unfold display ListPatch.apply
  exact List.filter_congr fun value _ => pending.isRemoved_eq value

theorem apply_of_isEmpty {pending : PendingOperations} (empty : pending.isEmpty = true)
    (entries : List GraphQLValue) : pending.patch.apply entries = entries := by
  simp only [isEmpty, Bool.and_eq_true, List.isEmpty_iff] at empty
  obtain ⟨⟨removed, start⟩, finish⟩ := empty
  simp [ListPatch.apply, patch, removed, start, finish, ListPatch.keeps]

theorem applyOperations_list (pending : PendingOperations)
    (operations : List ListOperation) :
    ∃ applied, pending.applyOperations (operations.map .list) = some applied ∧
      applied.patch = pending.patch.comp (ListOperation.patch operations) := by
  induction operations generalizing pending with
  | nil =>
      exact ⟨pending, rfl, by simp [ListPatch.comp, ListOperation.patch, patch]⟩
  | cons operation rest ih =>
      rw [ListOperation.patch_cons, ← ListPatch.comp_assoc]
      cases operation with
      | remove id =>
          obtain ⟨applied, result, composed⟩ :=
            ih { pending with removeSet := pending.removeSet ++ [id] }
          refine ⟨applied, result, composed.trans ?_⟩
          simp [patch, ListPatch.comp, ListOperation.patch, ListOperation.startTarget?,
            ListOperation.endTarget?, ListOperation.removeTarget?]
      | insert location id =>
          cases location with
          | start =>
              obtain ⟨applied, result, composed⟩ :=
                ih { pending with insertStart := pending.insertStart ++ [id] }
              refine ⟨applied, result, composed.trans ?_⟩
              simp [patch, ListPatch.comp, ListOperation.patch, ListOperation.startTarget?,
                ListOperation.endTarget?, ListOperation.removeTarget?]
          | «end» =>
              obtain ⟨applied, result, composed⟩ :=
                ih { pending with insertEnd := id :: pending.insertEnd }
              refine ⟨applied, result, composed.trans ?_⟩
              simp [patch, ListPatch.comp, ListOperation.patch, ListOperation.startTarget?,
                ListOperation.endTarget?, ListOperation.removeTarget?]

end PendingOperations

namespace InMemoryStorage

private theorem comp_hidden (pending : PendingOperations) (layer : Layer)
    (idMaps : OrderedMap String String) (field : String) :
    ({ pending with removeSet := pending.removeSet ++ layer.hiddenIDs idMaps field } :
      PendingOperations).patch = pending.patch.comp (layer.hidden idMaps field) := by
  simp [PendingOperations.patch, ListPatch.comp, Layer.hidden]

theorem getFrom_value (idMaps : OrderedMap String String) (field : String)
    (pending : PendingOperations) (visits : List (Layer × String)) :
    (getFrom idMaps field pending visits).value =
      cellValue (PatchView.read pending.patch
        (visits.map fun visit => visit.1.view idMaps visit.2 field)) := by
  induction visits generalizing pending with
  | nil => rfl
  | cons visit rest ih =>
      obtain ⟨layer, id⟩ := visit
      simp only [getFrom, List.map_cons]
      generalize restViews : (rest.map fun visit => visit.1.view idMaps visit.2 field) = below
        at ih ⊢
      simp only [PatchView.read, Layer.view]
      generalize hides : ({ pending with
        removeSet := pending.removeSet ++ layer.hiddenIDs idMaps field } :
          PendingOperations) = hidingPending
      have hidingPatch : hidingPending.patch = pending.patch.comp (layer.hidden idMaps field) :=
        hides ▸ comp_hidden pending layer idMaps field
      by_cases deleted : layer.deletes id = true
      · simp only [Layer.getOperations_of_deletes deleted, deleted,
          PendingOperations.applyOperations]
        unfold Layer.value
        cases stored : (layer.get id field).1 <;>
          simp [GraphQLValue.isDefined, GraphQLValue.isArray, storedCell, cellValue,
            FieldResult.missing]
      · rw [Layer.getOperations_of_kept (Bool.eq_false_iff.mpr deleted)]
        obtain ⟨applied, result, composed⟩ :=
          (hidingPending.addLayer layer.id).applyOperations_list
            (layer.listOperations id field)
        rw [PendingOperations.patch_addLayer, hidingPatch, ListPatch.comp_assoc] at composed
        rw [result]
        simp only [deleted]
        unfold Layer.value
        cases stored : (layer.get id field).1 with
        | undefined =>
            simp only [GraphQLValue.isDefined, Bool.not_false, Bool.true_and, storedCell,
              Bool.false_and, Bool.false_eq_true, if_false, if_true]
            rw [← composed, ← ih applied]
            cases operations : layer.listOperations id field with
            | cons operation others => simp
            | nil =>
                -- without operations the read goes on with the hidden ids only
                rw [operations] at composed result
                have samePatch : applied.patch = hidingPending.patch := by
                  rw [composed, hidingPatch]
                  simp [ListOperation.patch, ListPatch.comp]
                simp only [List.map_nil, List.isEmpty_nil, if_true]
                rw [ih, ih, samePatch]
                split <;> rfl
        | array items =>
            simp only [GraphQLValue.isDefined, GraphQLValue.isArray, Bool.not_true,
              Bool.false_and, Bool.and_false, Bool.false_eq_true, if_false, storedCell,
              cellValue, GraphQLValue.items]
            rw [← composed]
            cases empty : applied.isEmpty with
            | true => simp [PendingOperations.apply_of_isEmpty empty]
            | false => simp [PendingOperations.display_eq]
        | null | boolean _ | number _ | string _ | object _ | component _ _ _ _ _ =>
            simp [GraphQLValue.isDefined, GraphQLValue.isArray, storedCell, cellValue]

def views (storage : InMemoryStorage) (targetID field : String) :
    List (PatchView GraphQLValue GraphQLValue) :=
  storage.data.reverse.flatMap fun layer =>
    (storage.recordIDs targetID).map fun id => layer.view storage.idMaps id field

theorem get_value (storage : InMemoryStorage) (targetID field : String) :
    (storage.get targetID field).value =
      cellValue (PatchView.read {} (storage.views targetID field)) := by
  rw [get, getFrom_value, views, List.map_flatMap]
  simp only [List.map_map, Function.comp_def]
  rfl

theorem get_value_eq_undefined_iff (storage : InMemoryStorage) (targetID field : String) :
    (storage.get targetID field).value = .undefined ↔
      PatchView.read {} (storage.views targetID field) = .nothing := by
  rw [get_value]
  constructor
  · intro missing
    cases cell : PatchView.read {} (storage.views targetID field) with
    | nothing => rfl
    | list entries => simp [cell, cellValue] at missing
    | scalar value =>
        obtain ⟨view, member, stored⟩ := PatchView.stored_of_read_scalar cell
        obtain ⟨layer, _, inLayer⟩ := List.mem_flatMap.mp member
        obtain ⟨id, _, rfl⟩ := List.mem_map.mp inLayer
        simp only [cell, cellValue] at missing
        subst missing
        change storedCell (layer.value id field) = .scalar .undefined at stored
        cases found : layer.value id field <;> simp [found, storedCell] at stored
  · intro empty
    rw [empty]
    rfl

theorem get_value_eq_array_iff {storage : InMemoryStorage} {targetID field : String}
    {items : List GraphQLValue} :
    (storage.get targetID field).value = .array items ↔
      PatchView.read {} (storage.views targetID field) = .list items := by
  rw [get_value]
  constructor
  · intro shown
    cases cell : PatchView.read {} (storage.views targetID field) with
    | nothing => simp [cell, cellValue] at shown
    | list entries => simpa [cell, cellValue] using shown
    | scalar value =>
        obtain ⟨view, member, stored⟩ := PatchView.stored_of_read_scalar cell
        obtain ⟨layer, _, inLayer⟩ := List.mem_flatMap.mp member
        obtain ⟨id, _, rfl⟩ := List.mem_map.mp inLayer
        simp only [cell, cellValue] at shown
        subst shown
        change storedCell (layer.value id field) = .scalar (.array items) at stored
        cases found : layer.value id field <;> simp [found, storedCell] at stored
  · intro found
    rw [found]
    rfl

end InMemoryStorage

end Houdini.Runtime.Cache
