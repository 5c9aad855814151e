import Houdini.Runtime.Cache.StorageWrites

/-! Snapshots of the store: what a fresh store displays after it was hydrated from
the serialized text of another one. -/

set_option autoImplicit false

namespace Houdini.Runtime

namespace GraphQLValue

mutual

/-- `JSON.parse(JSON.stringify(value))`. There is no text for `undefined` and functions. -/
def parsed : GraphQLValue → Option GraphQLValue
  | .undefined | .component .. => none
  | .array items => some (.array (parsedItems items))
  | .object fields => some (.object (parsedFields fields))
  | value => some value

/-- An entry without text is printed as `null`. -/
def parsedItems : List GraphQLValue → List GraphQLValue
  | [] => []
  | item :: rest => (parsed item).getD .null :: parsedItems rest

def parsedFields : List (String × GraphQLValue) → List (String × GraphQLValue)
  | [] => []
  | (name, value) :: rest =>
      match parsed value with
      | none => parsedFields rest
      | some value => (name, value) :: parsedFields rest

end

theorem parsedItems_eq_map (items : List GraphQLValue) :
    parsedItems items = items.map fun item => (parsed item).getD .null := by
  induction items with
  | nil => rfl
  | cons item rest ih => rw [parsedItems, ih, List.map_cons]

def Printable (value : GraphQLValue) : Prop := value.parsed.getD .undefined = value

end GraphQLValue

namespace Cache

/-- What `serialize` prints. -/
structure Snapshot where
  rank : Nat
  fields : EntityMap GraphQLValue
  links : EntityMap GraphQLValue

def parsedRecords (records : EntityMap GraphQLValue) : EntityMap GraphQLValue :=
  records.mapValues fun _ fieldMap =>
    (fieldMap.filter fun entry => entry.2.parsed.isSome).mapValues fun _ value =>
      value.parsed.getD .undefined

def Snapshot.parsed (snapshot : Snapshot) : Snapshot where
  rank := snapshot.rank
  fields := parsedRecords snapshot.fields
  links := parsedRecords snapshot.links

namespace InMemoryStorage

/-- `serialize`, before its result is printed. Only the top layer is read. -/
def serialize (storage : InMemoryStorage) : Snapshot × InMemoryStorage :=
  let (layer, storage) := storage.topLayer
  ({ rank := storage.rank
     fields := layer.fields.mapValues fun _ fieldMap =>
       fieldMap.filter fun entry => !entry.2.isComponent
     links := layer.links }, storage)

def ofSnapshot (snapshot : Snapshot) : EStateM.Result JSError InMemoryStorage Unit :=
  let (layer, storage) :=
    ({} : InMemoryStorage).hydrate snapshot.rank snapshot.fields snapshot.links none
  storage.resolveLayer layer.id

end InMemoryStorage

theorem parsedRecords_getIn? (records : EntityMap GraphQLValue) (id field : String) :
    ((parsedRecords records).getIn? id field).getD .undefined =
      ((records.getIn? id field).bind GraphQLValue.parsed).getD .undefined := by
  unfold parsedRecords OrderedMap.getIn?
  rw [OrderedMap.get?_mapValues]
  cases records.get? id with
  | none => rfl
  | some fieldMap =>
      simp only [Option.map_some, Option.bind_some]
      rw [OrderedMap.get?_mapValues, OrderedMap.get?_filter]
      cases fieldMap.get? field with
      | none => rfl
      | some value =>
          cases text : value.parsed with
          | none => simp [Option.filter_some, text]
          | some parsed => simp [Option.filter_some, text]

def Layer.printed (layer : Layer) (id field : String) : GraphQLValue :=
  let link := ((layer.links.getIn? id field).bind GraphQLValue.parsed).getD .undefined
  if link.isDefined then link
  else ((layer.fields.getIn? id field).bind GraphQLValue.parsed).getD .undefined

theorem Layer.printed_eq {layer : Layer} {id field : String}
    (plain : (layer.value id field).isComponent = false) :
    layer.printed id field = (layer.value id field).parsed.getD .undefined := by
  unfold Layer.printed Layer.value Layer.get at *
  dsimp only at *
  cases linked : (layer.links.getIn? id field).getD .undefined with
  | undefined =>
      have none : ((layer.links.getIn? id field).bind GraphQLValue.parsed).getD .undefined =
          .undefined := by
        cases found : layer.links.getIn? id field with
        | none => rfl
        | some value =>
            rw [found, Option.getD_some] at linked
            rw [linked]
            rfl
      simp only [none, GraphQLValue.isDefined, Bool.false_eq_true, if_false]
      cases layer.fields.getIn? id field <;> rfl
  | _ =>
      obtain ⟨value, found⟩ : ∃ value, layer.links.getIn? id field = some value := by
        cases found : layer.links.getIn? id field with
        | none =>
            rw [found] at linked
            cases linked
        | some value => exact ⟨value, rfl⟩
      rw [found, Option.getD_some] at linked
      subst linked
      simp_all [GraphQLValue.isDefined, GraphQLValue.parsed, GraphQLValue.isComponent]

namespace InMemoryStorage

variable {storage : InMemoryStorage} {layer : Layer}

theorem serialize_single (single : storage.data = [layer]) (settled : layer.optimistic = false) :
    storage.serialize.1 =
      { rank := storage.rank
        fields := layer.fields.mapValues fun _ fieldMap =>
          fieldMap.filter fun entry => !entry.2.isComponent
        links := layer.links } := by
  unfold serialize topLayer
  rw [single]
  simp only [List.getLast?_singleton, settled, Bool.false_eq_true, if_false]

theorem ofSnapshot_eq (snapshot : Snapshot) :
    ofSnapshot snapshot =
      .ok () {
        data := [{ id := 1, fields := snapshot.fields, links := snapshot.links }]
        idCount := 2
        rank := snapshot.rank } := rfl

theorem value_of_single (blank : layer.operations = ∅) (kept : layer.deletedIDs = [])
    (single : storage.data = [layer]) (unmapped : storage.idMaps = ∅) (id field : String) :
    storage.value id field = layer.value id field := by
  have known : storage.recordIDs id = [id] := by
    unfold recordIDs
    rw [unmapped]
    rfl
  have views : storage.views id field = [layer.view storage.idMaps id field] := by
    unfold InMemoryStorage.views
    rw [single, known]
    rfl
  unfold value
  rw [get_value, views]
  have plain : (layer.view storage.idMaps id field).patch = {} := by
    unfold Layer.view Layer.hidden Layer.hiddenIDs Layer.listOperations
    rw [kept, blank]
    rfl
  have stands : (layer.view storage.idMaps id field).deletes = false := by
    unfold Layer.view Layer.deletes
    rw [blank]
    rfl
  rw [← cellValue_storedCell (layer.value id field)]
  refine congrArg cellValue ?_
  have stored : (layer.view storage.idMaps id field).stored = storedCell (layer.value id field) := rfl
  cases cell : storedCell (layer.value id field) with
  | nothing =>
      rw [PatchView.read_nothing (stored.trans cell) stands]
      rfl
  | scalar value => exact PatchView.read_scalar (stored.trans cell)
  | list entries =>
      rw [PatchView.read_list (stored.trans cell) stands, plain, ListPatch.empty_comp]
      exact congrArg StoredCell.list (ListPatch.Idle.apply_eq ⟨nofun, nofun, nofun⟩)

theorem value_ofSnapshot (single : storage.data = [layer]) (settled : layer.optimistic = false) :
    ∃ restored, ofSnapshot storage.serialize.1.parsed = .ok () restored ∧
      ∀ id field, restored.value id field = layer.printed id field := by
  refine ⟨_, ofSnapshot_eq _, fun id field => ?_⟩
  rw [value_of_single rfl rfl rfl rfl, serialize_single single settled]
  unfold Layer.value Layer.get Layer.printed Snapshot.parsed
  dsimp only
  rw [parsedRecords_getIn?, parsedRecords_getIn?]
  have fields : ((OrderedMap.getIn? (layer.fields.mapValues fun _ fieldMap =>
        fieldMap.filter fun entry => !entry.2.isComponent) id field).bind GraphQLValue.parsed) =
      (layer.fields.getIn? id field).bind GraphQLValue.parsed := by
    unfold OrderedMap.getIn?
    rw [OrderedMap.get?_mapValues]
    cases layer.fields.get? id with
    | none => rfl
    | some fieldMap =>
        simp only [Option.map_some, Option.bind_some]
        rw [OrderedMap.get?_filter]
        cases fieldMap.get? field with
        | none => rfl
        | some value => cases value <;> rfl
  rw [fields]
  split <;> rfl

def Mapped (storage : InMemoryStorage) (id : String) : Prop :=
  ∃ mapped, storage.idMaps.get? id = some mapped ∧ mapped ≠ ""

/-- Nothing but the stored fields and links of the layer shows. -/
structure SnapshotComplete (storage : InMemoryStorage) (layer : Layer) : Prop where
  printable : ∀ id field, ¬ storage.Mapped id → (layer.value id field).isComponent = false →
    (layer.value id field).Printable
  kept : ∀ id field items, ¬ storage.Mapped id → layer.value id field = .array items →
    layer.deletes id = false
  idle : ∀ id field items, ¬ storage.Mapped id → layer.value id field = .array items →
    (layer.view storage.idMaps id field).patch.Idle items
  mapped : ∀ id field, storage.Mapped id → (storage.value id field).isComponent = false →
    storage.value id field = layer.printed id field

theorem recordIDs_of_not_mapped {id : String} (unmapped : ¬ storage.Mapped id) :
    storage.recordIDs id = [id] := by
  unfold recordIDs
  cases found : storage.idMaps.get? id with
  | none => rfl
  | some mapped =>
      by_cases empty : mapped = ""
      · simp only [empty, if_true]
      · exact absurd ⟨mapped, found, empty⟩ unmapped

theorem value_of_not_mapped (single : storage.data = [layer]) {id : String}
    (unmapped : ¬ storage.Mapped id) (field : String) :
    storage.value id field =
      cellValue (PatchView.read {} [layer.view storage.idMaps id field]) := by
  unfold value
  rw [get_value]
  unfold InMemoryStorage.views
  rw [single, recordIDs_of_not_mapped unmapped]
  rfl

private theorem removed_string {entry : GraphQLValue} {id field : String}
    (member : entry ∈ (layer.view storage.idMaps id field).patch.removed) :
    ∃ text, entry = .string text := by
  obtain hidden | operated := List.mem_append.mp member
  · obtain ⟨text, _, rfl⟩ := List.mem_map.mp hidden
    exact ⟨text, rfl⟩
  · obtain ⟨operation, _, target⟩ := List.mem_filterMap.mp operated
    cases operation with
    | insert location id => cases target
    | remove id => exact ⟨id, (Option.some.inj target).symm⟩

private theorem idle_of_shown {id field : String} {items : List GraphQLValue}
    (shown : (layer.view storage.idMaps id field).patch.apply items =
      GraphQLValue.parsedItems items) :
    (layer.view storage.idMaps id field).patch.Idle items := by
  refine ListPatch.idle_of_length ?_ ?_
  · intro entry member removed
    obtain ⟨text, rfl⟩ := removed_string removed
    have printed : GraphQLValue.string text ∈ GraphQLValue.parsedItems items := by
      rw [GraphQLValue.parsedItems_eq_map]
      exact List.mem_map.mpr ⟨_, member, rfl⟩
    rw [← shown, ListPatch.mem_apply] at printed
    exact printed.2 removed
  · rw [shown, GraphQLValue.parsedItems_eq_map, List.length_map]

private theorem value_eq_printed_iff (single : storage.data = [layer]) {id field : String}
    (unmapped : ¬ storage.Mapped id) :
    ((storage.value id field).isComponent = false →
        layer.printed id field = storage.value id field) ↔
      ((layer.value id field).isComponent = false → (layer.value id field).Printable) ∧
        ∀ items, layer.value id field = .array items → layer.deletes id = false ∧
          (layer.view storage.idMaps id field).patch.Idle items := by
  rw [value_of_not_mapped single unmapped field]
  have stored : (layer.view storage.idMaps id field).stored = storedCell (layer.value id field) :=
    rfl
  cases shown : layer.value id field with
  | undefined =>
      have printed : layer.printed id field = .undefined := by
        rw [Layer.printed_eq (by rw [shown]; rfl), shown]
        rfl
      have nothing : PatchView.read {} [layer.view storage.idMaps id field] = .nothing := by
        rw [shown] at stored
        cases deletes : (layer.view storage.idMaps id field).deletes with
        | true => exact PatchView.read_deletes (by rw [stored]; exact nofun) deletes
        | false =>
            rw [PatchView.read_nothing stored deletes]
            rfl
      rw [printed, nothing]
      exact ⟨fun _ => ⟨fun _ => rfl, nofun⟩, fun _ _ => rfl⟩
  | array items =>
      have printed : layer.printed id field = .array (GraphQLValue.parsedItems items) := by
        rw [Layer.printed_eq (by rw [shown]; rfl), shown]
        rfl
      rw [shown] at stored
      rw [printed]
      cases deletes : layer.deletes id with
      | true =>
          have nothing : PatchView.read {} [layer.view storage.idMaps id field] = .nothing :=
            PatchView.read_deletes (by rw [stored]; exact nofun) deletes
          rw [nothing]
          constructor
          · intro same
            cases same rfl
          · intro complete
            cases (complete.2 items rfl).1
      | false =>
          have list : PatchView.read {} [layer.view storage.idMaps id field] =
              .list ((layer.view storage.idMaps id field).patch.apply items) := by
            rw [PatchView.read_list stored deletes, ListPatch.empty_comp]
          rw [list]
          constructor
          · intro same
            have applied : (layer.view storage.idMaps id field).patch.apply items =
                GraphQLValue.parsedItems items := (GraphQLValue.array.inj (same rfl)).symm
            have idle := idle_of_shown applied
            rw [idle.apply_eq] at applied
            refine ⟨fun _ => ?_, ?_⟩
            · exact congrArg GraphQLValue.array applied.symm
            · intro others same
              cases same
              exact ⟨rfl, idle⟩
          · intro complete _
            have printable := complete.1 rfl
            rw [(complete.2 items rfl).2.apply_eq]
            exact printable
  | component key prop fragment parent arguments =>
      rw [shown] at stored
      have found : PatchView.read {} [layer.view storage.idMaps id field] = .scalar _ :=
        PatchView.read_scalar stored
      rw [found]
      exact ⟨fun _ => ⟨nofun, nofun⟩, fun _ => nofun⟩
  | _ =>
      have plain : (layer.value id field).isComponent = false := by
        rw [shown]
        rfl
      have printed := Layer.printed_eq plain
      rw [shown] at stored
      have found : PatchView.read {} [layer.view storage.idMaps id field] = .scalar _ :=
        PatchView.read_scalar stored
      rw [found, printed, shown]
      exact ⟨fun same => ⟨fun _ => same rfl, nofun⟩, fun complete _ => complete.1 rfl⟩

/-- Hydrating a fresh store from the text of a single resolved layer displays everything
as before, functions apart, exactly when nothing but what the layer stores shows. -/
theorem hydrate_serialize_value_iff (single : storage.data = [layer])
    (settled : layer.optimistic = false) :
    (∃ restored, ofSnapshot storage.serialize.1.parsed = .ok () restored ∧
      ∀ id field, (storage.value id field).isComponent = false →
        restored.value id field = storage.value id field) ↔ storage.SnapshotComplete layer := by
  obtain ⟨restored, hydrated, shows⟩ := value_ofSnapshot single settled
  have only : (∃ restored, ofSnapshot storage.serialize.1.parsed = .ok () restored ∧
      ∀ id field, (storage.value id field).isComponent = false →
        restored.value id field = storage.value id field) ↔
      ∀ id field, (storage.value id field).isComponent = false →
        layer.printed id field = storage.value id field := by
    simp only [hydrated, EStateM.Result.ok.injEq, true_and, exists_eq_left', shows]
  rw [only]
  constructor
  · intro same
    have unmapped {id : String} (field : String) (single' : ¬ storage.Mapped id) :=
      (value_eq_printed_iff single single').mp (same id field)
    constructor
    · exact fun id field known => (unmapped field known).1
    · exact fun id field items known list => ((unmapped field known).2 items list).1
    · exact fun id field items known list => ((unmapped field known).2 items list).2
    · exact fun id field _ plain => (same id field plain).symm
  · intro complete id field
    by_cases known : storage.Mapped id
    · exact fun plain => (complete.mapped id field known plain).symm
    · refine (value_eq_printed_iff single known).mpr ⟨complete.printable id field known, ?_⟩
      intro items list
      exact ⟨complete.kept id field items known list, complete.idle id field items known list⟩

/-- A response that was written and nothing else survives. -/
theorem hydrate_serialize_value_iff_viewer :
    let layer : Layer := ({ id := 1 } : Layer).writeField "User:1" "firstName" (.string "Bob")
    let storage : InMemoryStorage := { data := [layer], idCount := 2 }
    (∃ restored, ofSnapshot storage.serialize.1.parsed = .ok () restored ∧
      ∀ id field, (storage.value id field).isComponent = false →
        restored.value id field = storage.value id field) ↔ storage.SnapshotComplete layer :=
  hydrate_serialize_value_iff rfl rfl

private def listedUser : Layer :=
  { id := 1
    links := (∅ : EntityMap GraphQLValue).setIn "_ROOT_" "users" (.array [.string "User:1"]) }

def deletedUser : InMemoryStorage where
  data := [listedUser.delete "User:1"]
  idCount := 2

private theorem deletedUser_reachable : deletedUser.Reachable := by
  have created : Relation.ReflTransGen Step {} _ := .tail .refl (.createLayer {} false)
  have listed := created.tail (.layer (.head _)
    (.writeLink { id := 1 } "_ROOT_" "users" (.array [.string "User:1"])))
  have deleted : Layer.Step listedUser _ := .delete _ "User:1"
  exact listed.tail (.layer (.head _) deleted)

/-- The snapshot forgets the delete, and the user shows up again. -/
theorem hydrate_serialize_value_deletedUser :
    deletedUser.Reachable ∧ deletedUser.data.map (·.optimistic) = [false] ∧
      deletedUser.value "_ROOT_" "users" = .array [] ∧
      ∃ restored, ofSnapshot deletedUser.serialize.1.parsed = .ok () restored ∧
        restored.value "_ROOT_" "users" = .array [.string "User:1"] :=
  ⟨deletedUser_reachable, by decide, by decide, _, rfl, by decide⟩

end InMemoryStorage

end Cache

end Houdini.Runtime
