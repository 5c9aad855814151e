import Houdini.Runtime.Cache.ListLinks
import Houdini.Runtime.Cache.StorageWrites
import Houdini.Runtime.Cache.WriteFrames

/-! What writes to fields with other keys leave alone about a list: what each layer stores for
it, the operations on lists with its key, and the deletes. -/

set_option autoImplicit false

namespace Houdini.Runtime.Cache

namespace Layer

/-- The layer is the same for the list, and so are the operations on all lists with its key. -/
structure KeepsList (parent key : String) (layer written : Layer) : Prop where
  header : written.header = layer.header
  value : written.value parent key = layer.value parent key
  deletes : ∀ id, written.deletes id = layer.deletes id
  operations : ∀ id, written.listOperations id key = layer.listOperations id key
  deletedIDs : written.deletedIDs = layer.deletedIDs
  undone : ∀ id, written.undoesDelete id key = layer.undoesDelete id key

def NoneUndone (layer : Layer) (key : String) : Prop := ∀ id, layer.undoesDelete id key = false

theorem KeepsList.refl {parent key : String} (layer : Layer) : KeepsList parent key layer layer where
  header := rfl
  value := rfl
  deletes := fun _ => rfl
  operations := fun _ => rfl
  deletedIDs := rfl
  undone := fun _ => rfl

section KeepsList

variable {parent key : String} {layer written : Layer}

theorem KeepsList.trans {last : Layer} (first : KeepsList parent key layer written)
    (second : KeepsList parent key written last) : KeepsList parent key layer last where
  header := second.header.trans first.header
  value := second.value.trans first.value
  deletes := fun id => (second.deletes id).trans (first.deletes id)
  operations := fun id => (second.operations id).trans (first.operations id)
  deletedIDs := second.deletedIDs.trans first.deletedIDs
  undone := fun id => (second.undone id).trans (first.undone id)

theorem KeepsList.symm (kept : KeepsList parent key layer written) :
    KeepsList parent key written layer where
  header := kept.header.symm
  value := kept.value.symm
  deletes := fun id => (kept.deletes id).symm
  operations := fun id => (kept.operations id).symm
  deletedIDs := kept.deletedIDs.symm
  undone := fun id => (kept.undone id).symm

theorem KeepsList.noneUndone (kept : KeepsList parent key layer written)
    (none : layer.NoneUndone key) : written.NoneUndone key :=
  fun id => (kept.undone id).trans (none id)

theorem KeepsList.view (kept : KeepsList parent key layer written)
    (idMaps : OrderedMap String String) :
    written.view idMaps parent key = layer.view idMaps parent key := by
  have hidden : written.hiddenIDs idMaps key = layer.hiddenIDs idMaps key := by
    unfold hiddenIDs
    rw [kept.deletedIDs]
    refine List.flatMap_congr fun id _ => ?_
    rw [kept.undone]
  unfold Layer.view Layer.hidden
  rw [kept.value, kept.deletes, kept.operations, hidden]

theorem keepsList_writeField {id field : String} (value : GraphQLValue) (other : field ≠ key) :
    KeepsList parent key layer (layer.writeField id field value) where
  header := rfl
  value := layer.value_writeField_of_ne value fun same => other same.2.symm
  deletes := fun _ => rfl
  operations := fun _ => rfl
  deletedIDs := rfl
  undone := fun _ => rfl

theorem keepsList_undoDelete {id field target : String} (other : field ≠ key)
    (none : layer.NoneUndone key) : KeepsList parent key layer (layer.undoDelete id field target) where
  header := rfl
  value := rfl
  deletes := by
    intro named
    by_cases same : named = target
    · subst same
      cases found : layer.operations.get? named <;> simp [Layer.deletes, undoDelete, found]
    · simp [Layer.deletes, undoDelete, same]
  operations := by
    intro named
    by_cases same : named = target
    · subst same
      cases found : layer.operations.get? named <;>
        simp [Layer.listOperations, undoDelete, found]
    · simp [Layer.listOperations, undoDelete, same]
  deletedIDs := rfl
  undone := by
    intro named
    by_cases same : named = target
    · subst same
      have before := none id
      rw [none named]
      unfold undoesDelete at before ⊢
      simpa [undoDelete, Ne.symm other] using before
    · simp [undoesDelete, undoDelete, same]

theorem keepsList_setOperations {id field : String} (operations : List ListOperation)
    (other : field ≠ key) :
    KeepsList parent key layer
      { layer with
        operations := layer.operations.set id
          { (layer.operations.get? id).getD {} with
            fields := some ((((layer.operations.get? id).getD {}).fields.getD ∅).set field
              operations) } } where
  header := rfl
  value := rfl
  deletes := by
    intro named
    by_cases same : named = id
    · subst same
      cases found : layer.operations.get? named <;> simp [Layer.deletes, found]
    · simp [Layer.deletes, same]
  operations := by
    intro named
    by_cases same : named = id
    · subst same
      cases found : layer.operations.get? named with
      | none => simp [Layer.listOperations, found, Ne.symm other]
      | some entry =>
          cases held : entry.fields <;>
            simp [Layer.listOperations, found, held, Ne.symm other]
    · simp [Layer.listOperations, same]
  deletedIDs := rfl
  undone := by
    intro named
    by_cases same : named = id
    · subst same
      cases found : layer.operations.get? named <;> simp [undoesDelete, found]
    · simp [undoesDelete, same]

theorem keepsList_undelete {id field : String} {value : GraphQLValue} (other : field ≠ key)
    (none : layer.NoneUndone key) (success : layer.undelete id field value = .ok written) :
    KeepsList parent key layer written := by
  unfold undelete at success
  cases looked : layer.fieldOperations id field with
  | error error => simp [looked, bind, Except.bind] at success
  | ok operations =>
      simp only [looked, bind, Except.bind] at success
      split at success
      · cases success
        exact keepsList_undoDelete other none
      · split at success
        · cases success
          exact .refl layer
        · cases success
          exact .refl layer
        · cases success
          exact keepsList_setOperations _ other

theorem keepsList_writeLink {id field : String} (value : GraphQLValue) (other : field ≠ key)
    (none : layer.NoneUndone key) :
    KeepsList parent key layer (resultState (layer.writeLink id field value)) := by
  unfold writeLink
  generalize value.flattenLinks = linked
  induction linked generalizing layer with
  | nil =>
      exact
        { header := rfl
          value := by
            have apart : ¬ (parent = id ∧ key = field) := fun same => other same.2.symm
            have unlinked : (layer.links.setIn id field value).getIn? parent key =
                layer.links.getIn? parent key := by
              rw [OrderedMap.getIn?_setIn, if_neg apart]
            change ({ layer with links := layer.links.setIn id field value } : Layer).value parent
              key = layer.value parent key
            simp only [Layer.value, Layer.get, unlinked]
          deletes := fun _ => rfl
          operations := fun _ => rfl
          deletedIDs := rfl
          undone := fun _ => rfl }
  | cons element rest ih =>
      unfold writeLink.undeleteAll
      cases first : layer.undelete id field element with
      | error error => exact .refl layer
      | ok middle =>
          have kept : KeepsList parent key layer middle := keepsList_undelete other none first
          exact kept.trans (ih (kept.noneUndone none))

theorem keepsList_insert {id field : String} {location : OperationLocation} {target : String}
    (other : field ≠ key) (success : layer.insert id field location target = .ok written) :
    KeepsList parent key layer written := by
  unfold insert addFieldOperation at success
  cases looked : layer.fieldOperations id field with
  | error error => simp [looked, bind, Except.bind] at success
  | ok operations =>
      simp only [looked, bind, Except.bind] at success
      cases success
      exact keepsList_setOperations _ other

end KeepsList

end Layer

namespace InMemoryStorage

/-- Every layer is the same for the list. -/
structure KeepsList (parent key : String) (storage final : InMemoryStorage) : Prop where
  layers : List.Forall₂ (Layer.KeepsList parent key) storage.data final.data
  idMaps : final.idMaps = storage.idMaps

theorem KeepsList.refl {parent key : String} (storage : InMemoryStorage) :
    KeepsList parent key storage storage where
  layers := List.forall₂_same.mpr fun layer _ => .refl layer
  idMaps := rfl

private theorem forall₂_replace {Entry Other : Type} {related : Other → Entry → Prop}
    {others : List Other} {entries : List Entry} (all : List.Forall₂ related others entries)
    (change : Entry → Entry)
    (better : ∀ entry ∈ entries, ∀ other, related other entry → related other (change entry)) :
    List.Forall₂ related others (entries.map change) := by
  induction all with
  | nil => exact .nil
  | cons first _ ih =>
      exact .cons (better _ List.mem_cons_self _ first)
        (ih fun entry member => better entry (List.mem_cons_of_mem _ member))

section KeepsList

variable {parent key : String} {storage final : InMemoryStorage}

theorem KeepsList.trans {last : InMemoryStorage} (first : KeepsList parent key storage final)
    (second : KeepsList parent key final last) : KeepsList parent key storage last where
  layers := by
    have chained : ∀ {front middle back : List Layer},
        List.Forall₂ (Layer.KeepsList parent key) front middle →
        List.Forall₂ (Layer.KeepsList parent key) middle back →
        List.Forall₂ (Layer.KeepsList parent key) front back := by
      intro front middle back before after
      induction before generalizing back with
      | nil =>
          cases after
          exact .nil
      | cons head _ ih =>
          cases after with
          | cons next rest => exact .cons (head.trans next) (ih rest)
    exact chained first.layers second.layers
  idMaps := second.idMaps.trans first.idMaps

theorem KeepsList.headers (kept : KeepsList parent key storage final) :
    final.headers = storage.headers := by
  obtain ⟨layers, _⟩ := kept
  unfold InMemoryStorage.headers
  generalize storage.data = before at layers
  generalize final.data = after at layers
  induction layers with
  | nil => rfl
  | cons first _ ih => rw [List.map_cons, List.map_cons, first.header, ih]

theorem KeepsList.find (kept : KeepsList parent key storage final) (id : LayerID) :
    (storage.data.find? (·.id == id) = none ∧ final.data.find? (·.id == id) = none) ∨
      ∃ layer written, storage.data.find? (·.id == id) = some layer ∧
        final.data.find? (·.id == id) = some written ∧ layer.KeepsList parent key written := by
  obtain ⟨layers, _⟩ := kept
  generalize storage.data = before at layers
  generalize final.data = after at layers
  induction layers with
  | nil => exact .inl ⟨rfl, rfl⟩
  | @cons layer written _ _ first _ ih =>
      have sameID : written.id = layer.id := congrArg Prod.fst first.header
      rw [List.find?_cons, List.find?_cons, sameID]
      cases layer.id == id with
      | true => exact .inr ⟨layer, written, rfl, rfl, first⟩
      | false => exact ih

theorem KeepsList.isOptimistic (kept : KeepsList parent key storage final) (layer : LayerID) :
    isOptimistic layer final = isOptimistic layer storage := by
  unfold Cache.isOptimistic
  rcases kept.find layer with ⟨before, after⟩ | ⟨first, second, before, after, same⟩
  · rw [before, after]
  · rw [before, after]
    exact congrArg Prod.snd same.header

theorem hasListOperation_iff {id : GraphQLValue} :
    hasListOperation storage key id = true ↔
      ∃ layer ∈ storage.data, ∃ record, ∃ operation ∈ layer.listOperations record key,
        GraphQLValue.string operation.target = id := by
  unfold hasListOperation
  rw [List.any_eq_true]
  refine exists_congr fun layer => and_congr_right fun _ => ?_
  rw [List.any_eq_true]
  constructor
  · rintro ⟨⟨record, operations⟩, member, named⟩
    obtain ⟨operation, recorded, same⟩ := List.any_eq_true.mp named
    refine ⟨record, operation, ?_, by simpa using same⟩
    unfold Layer.listOperations
    rw [OrderedMap.mem_entries_iff.mp member]
    exact recorded
  · rintro ⟨record, operation, recorded, same⟩
    unfold Layer.listOperations at recorded
    cases found : layer.operations.get? record with
    | none => simp [found] at recorded
    | some operations =>
        rw [found] at recorded
        exact ⟨(record, operations), OrderedMap.mem_entries_iff.mpr found,
          List.any_eq_true.mpr ⟨operation, recorded, by simpa using same⟩⟩

theorem KeepsList.hasListOperation (kept : KeepsList parent key storage final)
    (id : GraphQLValue) :
    hasListOperation final key id = hasListOperation storage key id := by
  rw [Bool.eq_iff_iff, hasListOperation_iff, hasListOperation_iff]
  obtain ⟨layers, _⟩ := kept
  generalize storage.data = before at layers
  generalize final.data = after at layers
  induction layers with
  | nil => simp
  | cons first _ ih =>
      simp only [List.mem_cons, exists_eq_or_imp, ih, first.operations]

theorem KeepsList.recordIDs (kept : KeepsList parent key storage final) (record : String) :
    final.recordIDs record = storage.recordIDs record := by
  unfold InMemoryStorage.recordIDs
  rw [kept.idMaps]

theorem KeepsList.value (kept : KeepsList parent key storage final)
    (alone : storage.recordIDs parent = [parent]) :
    final.value parent key = storage.value parent key := by
  have names := (kept.recordIDs parent).trans alone
  refine value_of_views ?_
  unfold views
  rw [names, alone, kept.idMaps]
  obtain ⟨layers, _⟩ := kept
  generalize storage.data = before at layers
  generalize final.data = after at layers
  have reversed : List.Forall₂ (Layer.KeepsList parent key) before.reverse after.reverse :=
    List.rel_reverse layers
  generalize before.reverse = before at reversed
  generalize after.reverse = after at reversed
  clear layers
  induction reversed with
  | nil => rfl
  | cons first _ ih =>
      rw [List.flatMap_cons, List.flatMap_cons, ih]
      simp only [List.map_cons, List.map_nil, first.view]

end KeepsList

/-- A field with another key, none of whose embedded records is the parent of the list. -/
def OtherKey (parent key other : String) : Prop :=
  other ≠ key ∧ ∀ field : LinkedField, field.key = other → field.ownsEntry parent = false

section Writing

variable {parent key : String} {start : InMemoryStorage} {layer : LayerID}

private theorem kept_changeLayer (distinct : (start.headers.map (·.1)).Nodup)
    (undone : ∀ current ∈ start.data, current.id = layer → current.NoneUndone key)
    {storage : InMemoryStorage} (kept : KeepsList parent key start storage) {current written : Layer}
    (found : storage.data.find? (·.id == layer) = some current)
    (step : current.NoneUndone key → current.KeepsList parent key written) :
    KeepsList parent key start (storage.setLayer written) := by
  have target : current.id = layer := by simpa using List.find?_some found
  have none : current.NoneUndone key := by
    rcases kept.find layer with ⟨_, missing⟩ | ⟨first, second, before, after, same⟩
    · rw [found] at missing
      cases missing
    · rw [found] at after
      cases after
      exact same.noneUndone (undone first (List.mem_of_find?_eq_some before)
        (by simpa using List.find?_some before))
  have stepped := step none
  have sameID : written.id = current.id := congrArg Prod.fst stepped.header
  have nodup : (storage.data.map (·.id)).Nodup := by
    rw [← headers_fst, kept.headers]
    exact distinct
  refine ⟨forall₂_replace kept.layers _ fun entry member other related => ?_, kept.idMaps⟩
  split
  · rename_i same
    have equal : entry = current := List.inj_on_of_nodup_map nodup member
      (List.mem_of_find?_eq_some found) (same.trans sameID)
    rw [equal] at related
    exact related.trans stepped
  · exact related

theorem KeepsList.removeEmbeddedRecord {storage : InMemoryStorage}
    (kept : KeepsList parent key start storage) {id : String} (apart : id ≠ parent) :
    KeepsList parent key start (storage.removeEmbeddedRecord id) := by
  refine ⟨forall₂_replace kept.layers _ fun entry _ before related => ?_, kept.idMaps⟩
  split
  · exact related
  · refine related.trans ?_
    exact
      { header := rfl
        value := by
          simp only [Layer.value, Layer.get, OrderedMap.getIn?_erase, Ne.symm apart, if_false]
        deletes := fun _ => rfl
        operations := fun _ => rfl
        deletedIDs := rfl
        undone := fun _ => rfl }

theorem keepsList_keptAt (distinct : (start.headers.map (·.1)).Nodup)
    (undone : ∀ current ∈ start.data, current.id = layer → current.NoneUndone key) :
    KeptAt layer (OtherKey parent key) (KeepsList parent key start) where
  writeField := by
    intro id field value other storage kept
    unfold writeFieldTo changeLayer
    cases found : storage.data.find? (·.id == layer) with
    | none => exact kept
    | some current =>
        exact kept_changeLayer distinct undone kept found fun _ =>
          Layer.keepsList_writeField value other.1
  writeLink := by
    intro id field value other storage kept
    unfold writeLinkTo changeLayer
    cases found : storage.data.find? (·.id == layer) with
    | none => exact kept
    | some current =>
        have step := fun none : current.NoneUndone key =>
          @Layer.keepsList_writeLink parent _ _ id _ value other.1 none
        dsimp only
        cases linked : current.writeLink id field value with
        | ok _ written =>
            rw [linked] at step
            exact kept_changeLayer distinct undone kept found step
        | error error written =>
            rw [linked] at step
            exact kept_changeLayer distinct undone kept found step
  insert := by
    intro id field location target other storage kept
    unfold insertInto
    cases found : storage.data.find? (·.id == layer) with
    | none => exact kept
    | some current =>
        dsimp only
        cases inserted : current.insert id field location target with
        | error error => exact kept
        | ok written =>
            exact kept_changeLayer distinct undone kept found fun _ =>
              Layer.keepsList_insert other.1 inserted
  removeEmbeddedRecord := by
    intro field id other owned storage kept
    have apart : id ≠ parent := by
      rintro rfl
      rw [other.2 field rfl] at owned
      cases owned
    exact kept.removeEmbeddedRecord apart
  nextRank := fun _ kept => ⟨kept.layers, kept.idMaps⟩
  typenames := fun _ _ kept => ⟨kept.layers, kept.idMaps⟩

end Writing

end InMemoryStorage

end Houdini.Runtime.Cache
