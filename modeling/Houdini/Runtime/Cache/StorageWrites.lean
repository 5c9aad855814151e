import Houdini.Runtime.Cache.StorageRuns

/-! What a read shows after a write to one layer. -/

set_option autoImplicit false

namespace Houdini.Runtime.Cache

namespace Layer

theorem value_writeField_of_ne (layer : Layer) {id field other name : String}
    (value : GraphQLValue) (elsewhere : ¬ (other = id ∧ name = field)) :
    (layer.writeField id field value).value other name = layer.value other name := by
  simp [Layer.value, Layer.get, writeField, OrderedMap.getIn?_setIn, elsewhere]

theorem value_writeField_self (layer : Layer) (id field : String) (value : GraphQLValue) :
    (layer.writeField id field value).value id field = value ∨
      (layer.writeField id field value).value id field = layer.value id field := by
  unfold Layer.value Layer.get writeField
  dsimp only
  split
  · exact .inr rfl
  · exact .inl (by simp [OrderedMap.getIn?_setIn])

theorem view_writeField (layer : Layer) (idMaps : OrderedMap String String)
    {id field other name : String} (value : GraphQLValue) (elsewhere : ¬ (other = id ∧ name = field)) :
    (layer.writeField id field value).view idMaps other name = layer.view idMaps other name := by
  unfold view
  rw [layer.value_writeField_of_ne value elsewhere]
  rfl

end Layer

namespace InMemoryStorage

def value (storage : InMemoryStorage) (id field : String) : GraphQLValue :=
  (storage.get id field).value

theorem value_of_views {storage other : InMemoryStorage} {id field : String}
    (same : storage.views id field = other.views id field) :
    storage.value id field = other.value id field := by
  unfold value
  rw [get_value, get_value, same]

private theorem read_blank {blank : PatchView GraphQLValue GraphQLValue}
    (stored : blank.stored = .nothing) (kept : blank.deletes = false) (patch : blank.patch = {})
    (rest : List (PatchView GraphQLValue GraphQLValue)) :
    PatchView.read {} (blank :: rest) = PatchView.read {} rest := by
  rw [PatchView.read_nothing stored kept, patch]
  rfl

theorem value_createLayer (storage : InMemoryStorage) (optimistic : Bool) (id field : String) :
    (storage.createLayer optimistic).2.value id field = storage.value id field := by
  have below : (storage.createLayer optimistic).2.views id field =
      (storage.recordIDs id).map (fun known =>
        (storage.createLayer optimistic).1.view storage.idMaps known field) ++
        storage.views id field := by
    simp [views, createLayer, recordIDs]
  have blank (known : String) :
      (storage.createLayer optimistic).1.view storage.idMaps known field = ⟨.nothing, false, {}⟩ := by
    rfl
  unfold value
  rw [get_value, get_value, below]
  simp only [blank]
  unfold recordIDs
  split
  · split
    · rw [List.map_cons, List.map_nil, List.singleton_append, read_blank rfl rfl rfl]
    · rw [List.map_cons, List.map_cons, List.map_nil, List.cons_append, List.singleton_append,
        read_blank rfl rfl rfl, read_blank rfl rfl rfl]
  · rw [List.map_cons, List.map_nil, List.singleton_append, read_blank rfl rfl rfl]

theorem value_setLayer {storage : InMemoryStorage} (distinct : storage.DistinctLayers)
    {layer : Layer} (written : Layer) (member : layer ∈ storage.data) (sameID : written.id = layer.id)
    {id field : String} (same : ∀ known ∈ storage.recordIDs id,
      written.view storage.idMaps known field = layer.view storage.idMaps known field) :
    (storage.setLayer written).value id field = storage.value id field := by
  apply value_of_views
  unfold views setLayer
  rw [← List.map_reverse, List.flatMap_map]
  refine List.flatMap_congr fun current present => ?_
  refine List.map_congr_left fun known named => ?_
  dsimp only
  split
  · rename_i found
    have equal : current = layer :=
      List.inj_on_of_nodup_map distinct.nodup (List.mem_reverse.mp present) member
        (found.trans sameID)
    rw [equal]
    exact same known named
  · rfl

theorem topLayer_getLast? (storage : InMemoryStorage) :
    storage.topLayer.2.data.getLast? = some storage.topLayer.1 := by
  unfold topLayer
  split
  · simp [createLayer]
  · rename_i layer last
    split
    · simp [createLayer]
    · exact last

theorem topLayer_mem (storage : InMemoryStorage) : storage.topLayer.1 ∈ storage.topLayer.2.data :=
  List.mem_of_getLast? storage.topLayer_getLast?

theorem topLayer_optimistic (storage : InMemoryStorage) : storage.topLayer.1.optimistic = false := by
  unfold topLayer
  split
  · rfl
  · split
    · rfl
    · rename_i resolved
      exact Bool.eq_false_iff.mpr resolved

theorem value_topLayer (storage : InMemoryStorage) (id field : String) :
    storage.topLayer.2.value id field = storage.value id field := by
  unfold topLayer
  split
  · exact storage.value_createLayer false id field
  · split
    · exact storage.value_createLayer false id field
    · rfl

theorem topLayer_idMaps (storage : InMemoryStorage) :
    storage.topLayer.2.idMaps = storage.idMaps := by
  unfold topLayer
  split
  · rfl
  · split <;> rfl

theorem topLayer_typenames (storage : InMemoryStorage) :
    storage.topLayer.2.typenames = storage.typenames := by
  unfold topLayer
  split
  · rfl
  · split <;> rfl

theorem DistinctLayers.topLayer {storage : InMemoryStorage} (distinct : storage.DistinctLayers) :
    storage.topLayer.2.DistinctLayers :=
  (distinct.headersKept (.topLayer storage)).distinctLayers distinct

theorem DistinctLayers.setLayer {storage : InMemoryStorage} (distinct : storage.DistinctLayers)
    {layer : Layer} (written : Layer) (member : layer ∈ storage.data)
    (same : written.header = layer.header) : (storage.setLayer written).DistinctLayers := by
  have headers := headers_setLayer distinct.nodup written member same
  have ids : (storage.setLayer written).data.map (·.id) = storage.data.map (·.id) := by
    rw [← headers_fst, ← headers_fst, headers]
  refine ⟨by rw [ids]; exact distinct.nodup, ?_⟩
  intro other present
  have old : other.id ∈ storage.data.map (·.id) := ids ▸ List.mem_map_of_mem present
  obtain ⟨known, inData, sameID⟩ := List.mem_map.mp old
  rw [← sameID]
  exact distinct.fresh known inData

theorem getLast?_setLayer {storage : InMemoryStorage} {layer : Layer} (written : Layer)
    (last : storage.data.getLast? = some layer) (sameID : written.id = layer.id) :
    (storage.setLayer written).data.getLast? = some written := by
  simp [setLayer, List.getLast?_map, last, sameID]

theorem getLast?_of_headers {storage other : InMemoryStorage} {top : Layer}
    (headers : other.headers = storage.headers) (last : storage.data.getLast? = some top) :
    ∃ current, other.data.getLast? = some current ∧ current.header = top.header := by
  have same : other.data.getLast?.map Layer.header = some top.header := by
    rw [← List.getLast?_map]
    change other.headers.getLast? = some top.header
    rw [headers, InMemoryStorage.headers, List.getLast?_map, last]
    rfl
  exact Option.map_eq_some_iff.mp same

theorem topLayer_value (storage : InMemoryStorage) :
    storage.data.getLast? = some storage.topLayer.1 ∨
      ∀ id field, storage.topLayer.1.value id field = .undefined := by
  unfold topLayer
  split
  · exact .inr fun _ _ => rfl
  · rename_i layer last
    split
    · exact .inr fun _ _ => rfl
    · exact .inl last

section WriteField

variable {storage : InMemoryStorage} {id field : String} {value : GraphQLValue}

theorem writeField_getLast? :
    (storage.writeField id field value).data.getLast? =
      some (storage.topLayer.1.writeField id field value) :=
  getLast?_setLayer _ storage.topLayer_getLast? rfl

theorem writeField_idMaps : (storage.writeField id field value).idMaps = storage.idMaps :=
  storage.topLayer_idMaps

theorem writeField_typenames : (storage.writeField id field value).typenames = storage.typenames :=
  storage.topLayer_typenames

theorem DistinctLayers.writeField (distinct : storage.DistinctLayers) :
    (storage.writeField id field value).DistinctLayers :=
  distinct.topLayer.setLayer _ storage.topLayer_mem rfl

theorem value_writeField (distinct : storage.DistinctLayers) {other name : String}
    (elsewhere : ¬ (id ∈ storage.recordIDs other ∧ name = field)) :
    (storage.writeField id field value).value other name = storage.value other name := by
  have same : storage.topLayer.2.recordIDs other = storage.recordIDs other := by
    unfold recordIDs
    rw [storage.topLayer_idMaps]
  refine Eq.trans ?_ (storage.value_topLayer other name)
  refine value_setLayer distinct.topLayer (storage.topLayer.1.writeField id field value)
    storage.topLayer_mem rfl ?_
  intro known named
  refine Layer.view_writeField _ _ _ ?_
  intro hit
  rw [same, hit.1] at named
  exact elsewhere ⟨named, hit.2⟩

theorem recordIDs_head? (storage : InMemoryStorage) (record : String) :
    ∃ id, (storage.recordIDs record).head? = some id := by
  unfold recordIDs
  split
  · split <;> exact ⟨_, rfl⟩
  · exact ⟨_, rfl⟩

theorem getOrWrite_cases {record : String} (head : (storage.recordIDs record).head? = some id)
    (truthy : value.truthy = true) :
    (storage.getOrWrite record field value = (storage.get record field, storage) ∧
        ∀ layer ∈ storage.data.getLast?, layer.value id field ≠ .undefined) ∨
      ((storage.getOrWrite record field value).1.value = value ∧
        (storage.getOrWrite record field value).2 = storage.writeField id field value ∧
        ∃ layer ∈ storage.data.getLast?, layer.value id field = .undefined) := by
  unfold getOrWrite
  cases last : storage.data.getLast? with
  | none => exact .inl ⟨rfl, fun _ absent => nomatch absent⟩
  | some layer =>
      cases known : storage.recordIDs record with
      | nil =>
          rw [known] at head
          cases head
      | cons first rest =>
          have same : first = id := by
            rw [known] at head
            exact Option.some.inj head
          subst same
          dsimp only
          by_cases stored : layer.value first field = .undefined
          · refine .inr ?_
            have missing : (layer.get first field).1.isDefined = false :=
              GraphQLValue.isDefined_eq_false_iff.mpr stored
            simp only [missing, truthy, Bool.not_false, Bool.and_self, if_true]
            exact ⟨trivial, rfl, layer, rfl, stored⟩
          · refine .inl ?_
            have present : (layer.get first field).1.isDefined = true :=
              GraphQLValue.isDefined_iff.mpr stored
            simp only [present, Bool.not_true, Bool.false_and, Bool.false_eq_true, if_false]
            refine ⟨trivial, ?_⟩
            intro other same
            cases same
            exact stored

end WriteField

theorem value_of_getLast? {storage : InMemoryStorage} {layer : Layer} {record id field : String}
    (last : storage.data.getLast? = some layer)
    (head : (storage.recordIDs record).head? = some id)
    (defined : layer.value id field ≠ .undefined)
    (notArray : (layer.value id field).isArray = false) :
    storage.value record field = layer.value id field := by
  obtain ⟨below, split⟩ := List.getLast?_eq_some_iff.mp last
  cases known : storage.recordIDs record with
  | nil =>
      rw [known] at head
      cases head
  | cons first rest =>
      rw [known] at head
      cases head
      unfold value get
      rw [split, List.reverse_append, known]
      simp only [List.reverse_singleton, List.flatMap_cons, List.map_cons, List.cons_append]
      unfold getFrom
      unfold Layer.value at defined notArray ⊢
      have present := GraphQLValue.isDefined_iff.mpr defined
      simp [present, notArray]

def typename (storage : InMemoryStorage) (id : String) : Option String :=
  (storage.getTypename id).1

theorem typename_congr {storage other : InMemoryStorage} {id : String}
    (typenames : other.typenames.get? id = storage.typenames.get? id)
    (value : other.value id "__typename" = storage.value id "__typename") :
    other.typename id = storage.typename id := by
  unfold typename getTypename
  rw [typenames]
  unfold InMemoryStorage.value at value
  split
  · rfl
  · rw [value]
    split <;> rfl

theorem getTypename_storage (storage : InMemoryStorage) (id : String) :
    (storage.getTypename id).2 = { storage with typenames := (storage.getTypename id).2.typenames } ∧
      ∀ other, (storage.getTypename id).2.typename other = storage.typename other := by
  unfold getTypename
  split
  · exact ⟨rfl, fun _ => rfl⟩
  · rename_i unknown
    split
    · rename_i typename shown
      refine ⟨rfl, fun other => ?_⟩
      by_cases same : other = id
      · subst same
        unfold InMemoryStorage.typename getTypename
        simp [unknown, shown]
      · exact typename_congr (OrderedMap.get?_set_of_ne _ _ same) rfl
    · exact ⟨rfl, fun _ => rfl⟩

end InMemoryStorage

end Houdini.Runtime.Cache
