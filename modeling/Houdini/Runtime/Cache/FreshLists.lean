import Houdini.Runtime.Cache.ListLinks
import Houdini.Runtime.Cache.StorageWrites
import Houdini.Runtime.Cache.WritingProperties

/-! When a list that is written to the topmost layer is the list that the cache shows. -/

set_option autoImplicit false

namespace Houdini.Runtime.Cache

/-- The record that an entry of a list stands for, if it is not embedded. -/
def LinkedField.recordOf (field : LinkedField) (config : ConfigFile) :
    GraphQLValue → Option String
  | .object data =>
      if isEmbedded config field.linkedType data then none
      else
        match field.entryID config "" data with
        | .ok id => id
        | .error _ => none
  | _ => none

section Records

variable {config : ConfigFile} {field : LinkedField} {write : String → GraphQLObject → WriteM Unit}

theorem LinkedField.entryID_of_recordOf {data : GraphQLObject} {id : String}
    (record : field.recordOf config (.object data) = some id) (embedded : String) :
    field.entryID config embedded data = .ok (some id) ∧ id ≠ "" := by
  unfold recordOf at record
  dsimp only at record
  unfold entryID at record ⊢
  dsimp only at record ⊢
  split at record
  · cases record
  · rename_i keyed
    split
    · rename_i untyped
      rw [if_pos untyped] at record
      cases record
    · rename_i typed
      rw [if_neg typed] at record
      dsimp only at record
      rw [record]
      exact ⟨rfl, recordID_ne_empty record⟩

theorem extractNestedListIDs_records {entries : List GraphQLValue} {ids : List String}
    (records : entries.map (field.recordOf config) = ids.map some)
    (previousIDs : List GraphQLValue) {storage final : InMemoryStorage} {found : ListIDs}
    (success : extractNestedListIDs config field write previousIDs entries storage =
      .ok found final) :
    found = ⟨ids.map .string, ids.map .string⟩ := by
  induction entries generalizing ids previousIDs storage final found with
  | nil =>
      have none : ids = [] := List.map_eq_nil_iff.mp records.symm
      unfold extractNestedListIDs at success
      rw [none]
      exact (EStateM.pure_eq_ok success).1
  | cons entry rest ih =>
      cases ids with
      | nil => cases records
      | cons id others =>
          rw [List.map_cons, List.map_cons, List.cons.injEq] at records
          obtain ⟨record, recordsBelow⟩ := records
          unfold extractNestedListIDs at success
          obtain ⟨⟨newIDs, nestedID⟩, middle, first, success⟩ := EStateM.bind_eq_ok success
          obtain ⟨below, last, second, success⟩ := EStateM.bind_eq_ok success
          have extracted := ih recordsBelow _ second
          obtain ⟨same, _⟩ := EStateM.pure_eq_ok success
          cases entry with
          | object data =>
              unfold extractEntryIDs writeEntry at first
              obtain ⟨written, _, first, result⟩ := EStateM.bind_eq_ok first
              obtain ⟨embedded, _, _, first⟩ := EStateM.bind_eq_ok first
              rw [(field.entryID_of_recordOf record embedded).1] at first
              obtain ⟨_, _, _, first⟩ := EStateM.bind_eq_ok first
              obtain ⟨given, _⟩ := EStateM.pure_eq_ok first
              obtain ⟨pair, _⟩ := EStateM.pure_eq_ok result
              cases pair
              rw [same, extracted, given]
              rfl
          | undefined | null | boolean _ | number _ | string _ | array _ | component _ _ _ _ _ =>
              cases record

theorem named_of_records {entries : List GraphQLValue} {ids : List String}
    (records : entries.map (field.recordOf config) = ids.map some) : ∀ id ∈ ids, id ≠ "" := by
  intro id member
  have inRecords : some id ∈ entries.map (field.recordOf config) := by
    rw [records]
    exact List.mem_map_of_mem member
  obtain ⟨entry, _, record⟩ := List.mem_map.mp inRecords
  cases entry with
  | object data => exact (field.entryID_of_recordOf record "").2
  | undefined | null | boolean _ | number _ | string _ | array _ | component _ _ _ _ _ =>
      cases record

end Records

/-- An object whose last property is a list of records, and the selection that it is written
with. What the object holds before the list is written first. -/
structure ListWrite (context : WriteContext) where
  selection : SubscriptionSelection
  plain : selection.hasOperations = false
  parent : String
  preceding : GraphQLObject
  name : String
  entries : List GraphQLValue
  fields : FieldSelections
  typed : getFieldsForType selection
    (GraphQLObject.property (preceding ++ [(name, .array entries)]) "__typename").text? =
      some fields
  field : SelectionField
  selected : fields.lookup name = some field
  inner : SubscriptionSelection
  linked : field.selection = some inner
  ids : List String
  records : entries.map (LinkedField.recordOf
    { parent, key := field.key context.vars, linkedType := field.type, abstract := field.abstract }
    context.config) = ids.map some

namespace ListWrite

variable {context : WriteContext}

def data (list : ListWrite context) : GraphQLObject :=
  list.preceding ++ [(list.name, .array list.entries)]

def key (list : ListWrite context) : String := list.field.key context.vars

def linkedField (list : ListWrite context) : LinkedField where
  parent := list.parent
  key := list.key
  linkedType := list.field.type
  abstract := list.field.abstract

def links (list : ListWrite context) : GraphQLValue := .array (list.ids.map .string)

def begin (list : ListWrite context) (layer : LayerID) : WriteM Unit :=
  if context.disabled then pure ()
  else
    writeFields context layer (writeSelection context layer) list.parent list.fields list.preceding

def prepare (list : ListWrite context) (layer : LayerID) (previous : GraphQLValue) :
    WriteM PreparedList :=
  prepareList context layer (writeSelection context layer list.inner) list.field.updates
    list.linkedField previous list.entries

/-- The shown list and the new one only differ in records that operations put there, which a
list that takes updates does not count. -/
def Dropped (list : ListWrite context) (storage : InMemoryStorage) : Prop :=
  list.ids ≠ [] ∧ previousListIDs storage (list.field.updates.getD []) list.key
    (storage.value list.parent list.key) = list.ids.map .string

structure FitsLayer (list : ListWrite context) (storage : InMemoryStorage) (layer : Layer) :
    Prop where
  linkable : list.ids = [] ∨ layer.Linkable list.parent list.ids
  shown : layer.ShowsLinked storage.idMaps (storage.recordIDs list.parent) list.parent list.key
      list.ids ∨
    ∃ name ∈ storage.recordIDs list.parent, name ≠ list.parent ∧
      layer.ShowsNamed storage.idMaps name list.key list.ids

structure Fits (list : ListWrite context) (layer : LayerID) (storage : InMemoryStorage) :
    Prop where
  enabled : context.disabled = false
  listed : storage.value list.parent list.key = .undefined ∨
    storage.value list.parent list.key = .null ∨
      (storage.value list.parent list.key).isArray = true
  prepared : ∃ result prepared,
    list.prepare layer (storage.value list.parent list.key) storage = .ok result prepared ∧
      (list.Dropped storage → prepared.value list.parent list.key = list.links) ∧
      (¬ list.Dropped storage →
        ∃ top, prepared.data.getLast? = some top ∧ list.FitsLayer prepared top)

theorem writeSelection_eq (list : ListWrite context) (enabled : context.disabled = false)
    (layer : LayerID) :
    writeSelection context layer list.selection list.parent list.data =
      (list.begin layer >>= fun _ =>
        writeProperty context layer (writeSelection context layer) list.parent list.field
          (.array list.entries)) := by
  rw [Cache.writeSelection_eq, data, list.typed, begin]
  simp only [enabled, Bool.false_eq_true, if_false]
  rw [writeFields_append]
  refine congrArg _ (funext fun _ => ?_)
  rw [writeFields, list.selected]
  simp only [writeFields]
  exact bind_pure_unit

private theorem writeLayer_eq {storage : InMemoryStorage} {top : Layer}
    (last : storage.data.getLast? = some top) (resolved : top.optimistic = false)
    {target : Option LayerID} (toTop : target = none ∨ target = some top.id) :
    writeLayer target storage = .ok top.id storage := by
  have safe : storage.topLayer = (top, storage) := by
    unfold InMemoryStorage.topLayer
    rw [last]
    simp [resolved]
  unfold writeLayer
  obtain rfl | rfl := toTop
  · simp [safe]
  · by_cases zero : top.id = 0
    · have unnamed : Option.filter (fun id => id != 0) (some top.id) = none := by
        simp [Option.filter, zero]
      rw [unnamed]
      simp only [safe]
    · have named : Option.filter (fun id => id != 0) (some top.id) = some top.id := by
        simp [Option.filter, zero]
      rw [named]
      dsimp only
      unfold InMemoryStorage.getLayer
      cases found : storage.data.find? (·.id == top.id) with
      | none =>
          have absent := List.find?_eq_none.mp found top (List.mem_of_getLast? last)
          simp at absent
      | some layer =>
          have same : layer.id = top.id := by simpa using List.find?_some found
          simp only [same]

private theorem writeProperty_eq (list : ListWrite context) (layer : LayerID)
    (storage : InMemoryStorage) :
    writeProperty context layer (writeSelection context layer) list.parent list.field
        (.array list.entries) storage =
      if storage.value list.parent list.key = .undefined ∨
          storage.value list.parent list.key = .null ∨
          (storage.value list.parent list.key).isArray = true then
        (list.prepare layer (storage.value list.parent list.key) >>= fun result =>
          if result.changed then linkList layer list.linkedField result else pure ()) storage
      else .ok () storage := by
  unfold writeProperty
  have started : (get : WriteM InMemoryStorage) storage = .ok storage storage := rfl
  rw [EStateM.bind_of_ok started, list.linked]
  change (if storage.value list.parent list.key == GraphQLValue.undefined ||
      storage.value list.parent list.key == GraphQLValue.null ||
      (storage.value list.parent list.key).isArray then (_ : WriteM Unit) else _) storage = _
  by_cases listed : storage.value list.parent list.key = .undefined ∨
      storage.value list.parent list.key = .null ∨
      (storage.value list.parent list.key).isArray = true
  · rw [if_pos listed, if_pos (by simpa [or_assoc] using listed)]
    rfl
  · rw [if_neg listed, if_neg (by simpa [or_assoc] using listed)]
    rfl

private theorem prepare_eq (list : ListWrite context) (noUpdates : context.applyUpdates = none)
    {layer : LayerID} {previous : GraphQLValue} {storage prepared : InMemoryStorage}
    {result : PreparedList} (success : list.prepare layer previous storage = .ok result prepared) :
    result.update = { linkedIDs := list.ids.map .string } ∧
      result.changed = (list.ids.map .string !=
          previousListIDs storage (list.field.updates.getD []) list.key previous ||
        previous == .null ||
        ((previousListIDs storage (list.field.updates.getD []) list.key previous).isEmpty &&
          (list.ids.map GraphQLValue.string).isEmpty)) := by
  unfold prepare prepareList at success
  obtain ⟨_, _, first, success⟩ := EStateM.bind_eq_ok success
  cases first
  obtain ⟨found, _, extracted, success⟩ := EStateM.bind_eq_ok success
  have ids := extractNestedListIDs_records list.records _ extracted
  obtain ⟨_, _, first, success⟩ := EStateM.bind_eq_ok success
  cases first
  obtain ⟨_, _, _, success⟩ := EStateM.bind_eq_ok success
  obtain ⟨same, _⟩ := EStateM.pure_eq_ok success
  have update (middle : InMemoryStorage) (oldIDs : List GraphQLValue) :
      updateList context layer middle list.field.updates found oldIDs =
        { linkedIDs := list.ids.map .string } := by
    unfold updateList
    rw [noUpdates, ids]
    cases list.field.updates <;> rfl
  rw [same]
  dsimp only
  rw [update, ids]
  exact ⟨rfl, rfl⟩

private theorem changed_iff (list : ListWrite context) (storage : InMemoryStorage) :
    (list.ids.map .string !=
          previousListIDs storage (list.field.updates.getD []) list.key
            (storage.value list.parent list.key) ||
        storage.value list.parent list.key == .null ||
        ((previousListIDs storage (list.field.updates.getD []) list.key
            (storage.value list.parent list.key)).isEmpty &&
          (list.ids.map GraphQLValue.string).isEmpty)) = true ↔ ¬ list.Dropped storage := by
  unfold Dropped
  generalize shown : storage.value list.parent list.key = previous
  generalize counted : previousListIDs storage (list.field.updates.getD []) list.key previous =
    oldIDs
  by_cases same : oldIDs = list.ids.map .string
  · by_cases empty : list.ids = []
    · simp [same, empty]
    · have notNull : previous ≠ .null := by
        rintro rfl
        refine empty (List.map_eq_nil_iff.mp (same.symm.trans ?_))
        rw [← counted]
        unfold previousListIDs
        split <;> rfl
      simp [same, empty, notNull]
  · simp [same, Ne.symm same]

private theorem linked_iff (list : ListWrite context) {storage : InMemoryStorage} {top : Layer}
    (distinct : storage.DistinctLayers) (last : storage.data.getLast? = some top)
    {result : PreparedList} (update : result.update = { linkedIDs := list.ids.map .string }) :
    (∃ final, linkList top.id list.linkedField result storage = .ok () final ∧
        final.value list.parent list.key = list.links) ↔ list.FitsLayer storage top := by
  have member := List.mem_of_getLast? last
  have found : storage.data.find? (·.id == top.id) = some top := by
    cases looked : storage.data.find? (·.id == top.id) with
    | none => exact absurd (List.find?_eq_none.mp looked top member) (by simp)
    | some other =>
        have same : other.id = top.id := by simpa using List.find?_some looked
        rw [List.inj_on_of_nodup_map distinct.nodup (List.mem_of_find?_eq_some looked) member same]
  have named := named_of_records list.records
  have links : linkList top.id list.linkedField result =
      writeLinkTo top.id list.parent list.key (.array (list.ids.map .string)) := by
    unfold linkList
    rw [update]
    rfl
  rw [links]
  unfold writeLinkTo changeLayer
  rw [found]
  dsimp only
  cases linked : top.writeLink list.parent list.key (.array (list.ids.map .string)) with
  | error error written =>
      simp only [reduceCtorEq, false_and, exists_false, false_iff]
      intro fits
      obtain ⟨_, success⟩ := (Layer.writeLink_ok_iff named).mpr fits.linkable
      rw [linked] at success
      cases success
  | ok _ written =>
      have linkable := (Layer.writeLink_ok_iff named).mp ⟨written, linked⟩
      obtain ⟨relinked, set⟩ := Layer.writeLink_relinked named linked
      have sameID : written.id = top.id := congrArg Prod.fst relinked.header
      obtain ⟨below, split⟩ := List.getLast?_eq_some_iff.mp
        (InMemoryStorage.getLast?_setLayer written last sameID)
      have views : (storage.setLayer written).views list.parent list.key =
          (storage.recordIDs list.parent).map
              (fun name => written.view storage.idMaps name list.key) ++
            below.reverse.flatMap fun layer => (storage.recordIDs list.parent).map
              fun name => layer.view storage.idMaps name list.key := by
        unfold InMemoryStorage.views
        rw [split, List.reverse_append]
        rfl
      have names : storage.recordIDs list.parent = [list.parent] ∨
          ∃ mapped, storage.recordIDs list.parent = [mapped, list.parent] := by
        unfold InMemoryStorage.recordIDs
        split
        · rename_i mapped _
          split
          · exact .inl rfl
          · exact .inr ⟨mapped, rfl⟩
        · exact .inl rfl
      have shows := relinked.shows_iff set storage.idMaps names
        (below.reverse.flatMap fun layer => (storage.recordIDs list.parent).map
          fun name => layer.view storage.idMaps name list.key)
      rw [← views, ← InMemoryStorage.get_value] at shows
      constructor
      · intro success
        obtain ⟨final, ran, shown⟩ := success
        cases ran
        exact ⟨linkable, shows.mp shown⟩
      · intro fits
        exact ⟨_, rfl, shows.mpr fits.shown⟩

private theorem begin_writes (list : ListWrite context) (layer : LayerID)
    (start : InMemoryStorage) : WritesTo layer start (list.begin layer) := by
  unfold begin
  split
  · exact .pure _
  · exact writeFields_writes (fun _ _ inner _ => writeSelection_writes context layer start inner) _ _

private theorem prepare_writes (list : ListWrite context) (layer : LayerID)
    (start : InMemoryStorage) (previous : GraphQLValue) :
    WritesTo layer start (list.prepare layer previous) :=
  prepareList_writes (writeSelection_writes context layer start list.inner) _ _ _

private def user (id : String) : GraphQLValue := .object [("id", .string id)]

private def usersField : SelectionField where
  type := "User"
  keyRaw := "users"
  selection := some { fields := [("id", { type := "ID", keyRaw := "id" })] }

def users : ListWrite {} where
  selection := { fields := [("users", usersField)] }
  plain := rfl
  parent := rootID
  preceding := []
  name := "users"
  entries := [user "1", user "3", user "2"]
  fields := [("users", usersField)]
  typed := rfl
  field := usersField
  selected := rfl
  inner := { fields := [("id", { type := "ID", keyRaw := "id" })] }
  linked := rfl
  ids := ["User:1", "User:3", "User:2"]
  records := by decide

private def listedUsers (ids : List String) : Layer where
  id := 1
  links := (∅ : EntityMap GraphQLValue).setIn "_ROOT_" "users" (.array (ids.map .string))

private def withOperation (layer : Layer) (operation : ListOperation) : Layer :=
  { layer with
    operations := OrderedMap.singleton "_ROOT_"
      { fields := some (OrderedMap.singleton "users" [operation]) } }

def removedUser : InMemoryStorage where
  data := [withOperation (listedUsers ["User:1", "User:2", "User:3"]) (.remove "User:3")]
  idCount := 2

private theorem removedUser_reachable : removedUser.Reachable := by
  have created : Relation.ReflTransGen InMemoryStorage.Step {} _ :=
    .tail .refl (.createLayer {} false)
  have linked := created.tail (.layer (.head _) (.writeLink { id := 1 } "_ROOT_" "users"
    (.array [.string "User:1", .string "User:2", .string "User:3"])))
  have removed : Layer.Step (listedUsers ["User:1", "User:2", "User:3"])
      (withOperation (listedUsers ["User:1", "User:2", "User:3"]) (.remove "User:3")) :=
    .remove "_ROOT_" "users" "User:3" rfl
  exact linked.tail (.layer (.head _) removed)

private theorem users_fit_removedUser : users.Fits 1 removedUser where
  enabled := rfl
  listed := .inr (.inr (by decide))
  prepared := by
    have undropped : ¬ users.Dropped removedUser := by
      intro dropped
      exact absurd dropped.2 (by decide +kernel)
    refine ⟨_, _, rfl, fun dropped => absurd dropped undropped, fun _ => ⟨_, rfl, ?_, .inl ?_⟩⟩
    · refine .inr ⟨?_, fun missing => by cases missing⟩
      intro entry found
      cases found
      rfl
    · have only (name : String) (named : name ∈ removedUser.recordIDs "_ROOT_") :
          name = "_ROOT_" := by
        simpa [InMemoryStorage.recordIDs, removedUser] using named
      exact
        { present := by decide +kernel
          alone := fun name named different => absurd (only name named) different
          visible := by decide +kernel
          unremoved := by
            intro id member name named removes
            refine ⟨only name named, ?_⟩
            clear removes named
            revert id
            decide +kernel
          inserted := by
            intro name named id inserts
            obtain rfl := only name named
            obtain ⟨location, member⟩ := inserts
            change .insert location id ∈ [ListOperation.remove "User:3"] at member
            simp at member }

def insertedUser : InMemoryStorage :=
  resultState (InMemoryStorage.resolveLayer
    { data := [listedUsers ["User:1", "User:2"],
        withOperation { id := 2, optimistic := true } (.insert .end "User:3")]
      idCount := 3 } 2)

end ListWrite

end Houdini.Runtime.Cache
