import Houdini.Runtime.Cache.GarbageCollector
import Houdini.Runtime.Cache.StorageWrites

/-! What collecting garbage does to the fields that are in use. -/

set_option autoImplicit false

namespace Houdini.Runtime.Cache

namespace Layer

private def stored (id field : String) (layer : Layer) :
    Option GraphQLValue × Option GraphQLValue :=
  (layer.fields.getIn? id field, layer.links.getIn? id field)

private def clearField (id : String) (layer : Layer) (entry : String × GraphQLValue) : Layer :=
  if entry.2.isDefined then layer
  else
    { layer with
      fields := layer.fields.set id (((layer.fields.get? id).getD ∅).erase entry.1)
      links :=
        match layer.links.get? id with
        | none => layer.links
        | some links => layer.links.set id (links.erase entry.1) }

private def dropEmpty (id : String) (layer : Layer) : Layer :=
  let layer :=
    if ((layer.fields.get? id).getD ∅).isEmpty then
      { layer with fields := layer.fields.erase id }
    else layer
  if ((layer.links.get? id).getD ∅).isEmpty then { layer with links := layer.links.erase id }
  else layer

private theorem removeUndefinedFields_eq (layer : Layer) :
    layer.removeUndefinedFields = layer.fields.entries.foldl (fun layer record =>
      dropEmpty record.1 (record.2.entries.foldl (clearField record.1) layer)) layer := rfl

private theorem getIn?_set_erase {Value : Type} (map : EntityMap Value) (id field other name : String) :
    (map.set id (((map.get? id).getD ∅).erase field)).getIn? other name =
      if other = id ∧ name = field then none else map.getIn? other name := by
  unfold OrderedMap.getIn?
  rw [OrderedMap.get?_set]
  by_cases same : other = id
  · subst same
    rw [if_pos rfl, Option.bind_some, OrderedMap.get?_erase]
    cases map.get? other with
    | none => simp
    | some record => simp
  · rw [if_neg same, if_neg fun both => same both.1]

private theorem stored_clearField (id : String) (layer : Layer) (entry : String × GraphQLValue)
    (other name : String) :
    stored other name (clearField id layer entry) =
      if other = id ∧ name = entry.1 ∧ entry.2.isDefined = false then (none, none)
      else stored other name layer := by
  unfold clearField
  cases defined : entry.2.isDefined with
  | true =>
      rw [if_pos rfl, if_neg fun all => nomatch all.2.2]
  | false =>
      rw [if_neg nofun]
      have links : (match layer.links.get? id with
          | none => layer.links
          | some links => layer.links.set id (links.erase entry.1)).getIn? other name =
          if other = id ∧ name = entry.1 then none else layer.links.getIn? other name := by
        cases found : layer.links.get? id with
        | none =>
            by_cases both : other = id ∧ name = entry.1
            · rw [if_pos both, both.1, OrderedMap.getIn?, found]
              rfl
            · rw [if_neg both]
        | some record =>
            have erased := getIn?_set_erase layer.links id entry.1 other name
            rw [found] at erased
            exact erased
      unfold stored
      dsimp only
      rw [getIn?_set_erase, links]
      by_cases both : other = id ∧ name = entry.1
      · rw [if_pos both, if_pos both, if_pos ⟨both.1, both.2, rfl⟩]
      · rw [if_neg both, if_neg both, if_neg fun all => both ⟨all.1, all.2.1⟩]

private theorem getIn?_of_isEmpty {Value : Type} {map : EntityMap Value} {id : String}
    (empty : ((map.get? id).getD ∅).isEmpty = true) (other name : String) :
    (map.erase id).getIn? other name = map.getIn? other name := by
  rw [OrderedMap.getIn?_erase]
  by_cases same : other = id
  · subst same
    rw [if_pos rfl, OrderedMap.getIn?]
    cases found : map.get? other with
    | none => rfl
    | some record =>
        rw [found] at empty
        have none : record.entries = [] := List.isEmpty_iff.mp empty
        rw [Option.bind_some, OrderedMap.get?, none]
        rfl
  · rw [if_neg same]

private theorem stored_dropEmpty (id : String) (layer : Layer) (other name : String) :
    stored other name (dropEmpty id layer) = stored other name layer := by
  unfold dropEmpty
  dsimp only
  by_cases fields : ((layer.fields.get? id).getD ∅).isEmpty = true <;>
    by_cases links : ((layer.links.get? id).getD ∅).isEmpty = true <;>
    simp [fields, links, stored, getIn?_of_isEmpty]

private theorem stored_clearFields (id : String) (record : OrderedMap String GraphQLValue)
    (layer : Layer) (name : String) :
    stored id name (record.entries.foldl (clearField id) layer) =
      if record.get? name = some .undefined then (none, none) else stored id name layer := by
  rw [OrderedMap.observe_foldl_entries (stored id) (clearField id)
    (fun _ value found => if value.isDefined then found else (none, none))]
  · cases found : record.get? name with
    | none => simp
    | some value => cases value <;> simp [GraphQLValue.isDefined]
  · intro layer key value
    rw [stored_clearField]
    cases value.isDefined <;> simp
  · intro layer entry key different
    rw [stored_clearField, if_neg fun all => different all.2.1]

private theorem stored_clearFields_of_ne {id other : String} (different : other ≠ id)
    (entries : List (String × GraphQLValue)) (layer : Layer) (name : String) :
    stored other name (entries.foldl (clearField id) layer) = stored other name layer := by
  induction entries generalizing layer with
  | nil => rfl
  | cons entry rest ih =>
      rw [List.foldl_cons, ih, stored_clearField, if_neg fun all => different all.1]

private theorem stored_removeUndefinedFields (layer : Layer) (id field : String) :
    stored id field layer.removeUndefinedFields =
      if layer.fields.getIn? id field = some .undefined then (none, none)
      else stored id field layer := by
  rw [removeUndefinedFields_eq,
    OrderedMap.observe_foldl_entries (fun id layer => stored id field layer) _
      (fun _ record found => if record.get? field = some .undefined then (none, none) else found)]
  · unfold OrderedMap.getIn?
    cases layer.fields.get? id with
    | none => simp
    | some record => simp
  · intro layer key record
    rw [stored_dropEmpty, stored_clearFields]
  · intro layer entry key different
    rw [stored_dropEmpty, stored_clearFields_of_ne different]

theorem value_removeUndefinedFields (layer : Layer) (id field : String) :
    layer.removeUndefinedFields.value id field =
      if layer.fields.getIn? id field = some .undefined then .undefined
      else layer.value id field := by
  have found := layer.stored_removeUndefinedFields id field
  unfold value get
  by_cases marked : layer.fields.getIn? id field = some .undefined
  · rw [if_pos marked] at found ⊢
    obtain ⟨fields, links⟩ := Prod.mk.inj found
    rw [fields, links]
    rfl
  · rw [if_neg marked] at found ⊢
    obtain ⟨fields, links⟩ := Prod.mk.inj found
    rw [fields, links]

private theorem operations_foldl {Entry : Type} (step : Layer → Entry → Layer)
    (kept : ∀ layer entry, (step layer entry).operations = layer.operations ∧
      (step layer entry).deletedIDs = layer.deletedIDs) (entries : List Entry) (layer : Layer) :
    (entries.foldl step layer).operations = layer.operations ∧
      (entries.foldl step layer).deletedIDs = layer.deletedIDs := by
  induction entries generalizing layer with
  | nil => exact ⟨rfl, rfl⟩
  | cons entry rest ih =>
      obtain ⟨operations, deletedIDs⟩ := ih (step layer entry)
      exact ⟨operations.trans (kept layer entry).1, deletedIDs.trans (kept layer entry).2⟩

theorem operations_removeUndefinedFields (layer : Layer) :
    layer.removeUndefinedFields.operations = layer.operations ∧
      layer.removeUndefinedFields.deletedIDs = layer.deletedIDs := by
  rw [removeUndefinedFields_eq]
  refine operations_foldl _ (fun layer record => ?_) _ layer
  have cleared := operations_foldl (clearField record.1)
    (fun layer entry => by unfold clearField; split <;> exact ⟨rfl, rfl⟩) record.2.entries layer
  unfold dropEmpty
  dsimp only
  split <;> split <;> exact cleared

/-- A field is marked as undefined although the layer has a value for it. A list under a record
that the layer deletes does not count. -/
def Revived (layer : Layer) (id field : String) : Prop :=
  layer.fields.getIn? id field = some .undefined ∧ layer.value id field ≠ .undefined ∧
    ¬ ((layer.value id field).isArray = true ∧ layer.deletes id = true)

end Layer

namespace Layer

private theorem view_removeUndefinedFields (layer : Layer) (idMaps : OrderedMap String String)
    (id field : String) :
    layer.removeUndefinedFields.view idMaps id field =
      { layer.view idMaps id field with
        stored := storedCell (layer.removeUndefinedFields.value id field) } := by
  obtain ⟨operations, deletedIDs⟩ := layer.operations_removeUndefinedFields
  unfold view deletes hidden hiddenIDs undoesDelete listOperations
  rw [operations, deletedIDs]

private theorem alike_removeUndefinedFields {layer : Layer} {id field : String}
    (kept : ¬ layer.Revived id field) (idMaps : OrderedMap String String) :
    (layer.removeUndefinedFields.view idMaps id field).Alike (layer.view idMaps id field) := by
  rw [view_removeUndefinedFields, value_removeUndefinedFields]
  by_cases marked : layer.fields.getIn? id field = some .undefined
  · rw [if_pos marked]
    by_cases missing : layer.value id field = .undefined
    · rw [← missing]
      exact .inl rfl
    · have hidden : (layer.value id field).isArray = true ∧ layer.deletes id = true := by
        by_contra shown
        exact kept ⟨marked, missing, shown⟩
      obtain ⟨items, list⟩ := GraphQLValue.isArray_iff.mp hidden.1
      refine .inr ⟨⟨hidden.2, nofun⟩, hidden.2, ?_⟩
      change ∀ value, storedCell (layer.value id field) ≠ .scalar value
      rw [list]
      exact nofun
  · rw [if_neg marked]
    exact .inl rfl

end Layer

namespace InMemoryStorage

theorem value_of_single_layer {storage : InMemoryStorage} {layer : Layer}
    (single : storage.data = [layer]) (id field : String) :
    storage.value id field = cellValue (PatchView.read {}
      ((storage.recordIDs id).map fun known => layer.view storage.idMaps known field)) := by
  unfold value
  rw [get_value, views, single]
  simp

/-- The only layer of the storage holds a value for a field that it marks as undefined. -/
def Revived (storage : InMemoryStorage) (id field : String) : Prop :=
  ∃ layer, storage.data = [layer] ∧ layer.optimistic = false ∧ layer.Revived id field

section RemoveUndefinedFields

variable {storage : InMemoryStorage} {layer : Layer}

private theorem removeUndefinedFields_single (single : storage.data = [layer])
    (settled : layer.optimistic = false) :
    CacheInternal.removeUndefinedFields storage =
      { storage with data := [layer.removeUndefinedFields] } := by
  have sameID : layer.removeUndefinedFields.id = layer.id :=
    congrArg Prod.fst layer.removeUndefinedFields_header
  simp [CacheInternal.removeUndefinedFields, topLayer, single, settled, setLayer, sameID]

theorem value_removeUndefinedFields (distinct : storage.DistinctLayers)
    (atMostOne : storage.data.length = 1) {id field : String}
    (kept : ∀ known ∈ storage.recordIDs id, ¬ storage.Revived known field) :
    (CacheInternal.removeUndefinedFields storage).value id field = storage.value id field := by
  obtain ⟨layer, single⟩ := List.length_eq_one_iff.mp atMostOne
  cases settled : layer.optimistic with
  | false =>
      rw [removeUndefinedFields_single single settled, value_of_single_layer rfl,
        value_of_single_layer single]
      congr 1
      refine PatchView.read_alike ?_ _
      rw [List.forall₂_map_left_iff, List.forall₂_map_right_iff]
      refine List.forall₂_same.mpr fun known named => ?_
      refine Layer.alike_removeUndefinedFields (fun revived => ?_) storage.idMaps
      exact kept known named ⟨layer, single, settled, revived⟩
  | true =>
      refine Eq.trans ?_ (storage.value_topLayer id field)
      refine value_setLayer distinct.topLayer _ storage.topLayer_mem
        (congrArg Prod.fst storage.topLayer.1.removeUndefinedFields_header) fun known _ => ?_
      have blank : storage.topLayer.1.removeUndefinedFields = storage.topLayer.1 := by
        simp [topLayer, single, settled, createLayer, Layer.removeUndefinedFields]
      rw [blank]

private theorem value_ne_undefined_of_revived {id field : String}
    (unaliased : storage.recordIDs id = [id]) (revived : storage.Revived id field) :
    storage.value id field ≠ .undefined := by
  obtain ⟨layer, single, _, _, present, shown⟩ := revived
  rw [Ne, value, get_value_eq_undefined_iff, views, single, unaliased]
  change PatchView.read {} [layer.view storage.idMaps id field] ≠ .nothing
  cases stored : storedCell (layer.value id field) with
  | nothing => exact absurd (storedCell_eq_nothing.mp stored) present
  | scalar value =>
      rw [PatchView.read_scalar stored]
      intro same
      cases same
  | list items =>
      have list := storedCell_eq_list.mp stored
      have kept : layer.deletes id = false := by
        by_contra deleted
        exact shown ⟨GraphQLValue.isArray_iff.mpr ⟨items, list⟩, (Bool.not_eq_false _).mp deleted⟩
      rw [PatchView.read_list stored kept]
      intro same
      cases same

theorem value_removeUndefinedFields_of_revived {id field : String}
    (unaliased : storage.recordIDs id = [id]) (revived : storage.Revived id field) :
    (CacheInternal.removeUndefinedFields storage).value id field ≠ storage.value id field := by
  have present := value_ne_undefined_of_revived unaliased revived
  obtain ⟨layer, single, settled, marked, -⟩ := revived
  have gone : (CacheInternal.removeUndefinedFields storage).value id field = .undefined := by
    have sameIDs : recordIDs { storage with data := [layer.removeUndefinedFields] } id = [id] :=
      unaliased
    rw [removeUndefinedFields_single single settled, value_of_single_layer rfl, sameIDs,
      List.map_singleton, Layer.view_removeUndefinedFields, Layer.value_removeUndefinedFields,
      if_pos marked]
    simp [PatchView.read, storedCell, cellValue]
  rw [gone]
  exact present.symm

end RemoveUndefinedFields

private theorem deleteField_single {storage : InMemoryStorage} {id field : String} {layer : Layer}
    (single : (storage.deleteField id field).data = [layer]) :
    (∃ blank : Layer, blank.fields = ∅ ∧ layer = blank.deleteField id field) ∨
      ∃ top, storage.data = [top] ∧ top.optimistic = false ∧ layer = top.deleteField id field := by
  unfold deleteField at single
  have last := topLayer_getLast? storage
  generalize top : storage.topLayer = pair at single last
  obtain ⟨target, below⟩ := pair
  obtain ⟨known, data⟩ := List.length_eq_one_iff.mp (show below.data.length = 1 by
    have length := congrArg List.length single
    simpa [setLayer] using length)
  rw [data] at last
  cases last
  simp only [setLayer, data, List.map_cons, List.map_nil] at single
  rw [if_pos (by rfl)] at single
  cases single
  unfold topLayer at top
  cases stack : storage.data.getLast? with
  | none =>
      simp only [stack, createLayer, Prod.mk.injEq] at top
      exact .inl ⟨target, by rw [← top.1], rfl⟩
  | some current =>
      cases settled : current.optimistic with
      | true =>
          simp only [stack, settled, createLayer, if_true, Prod.mk.injEq] at top
          obtain ⟨earlier, whole⟩ := List.getLast?_eq_some_iff.mp stack
          have length := congrArg List.length (data ▸ congrArg InMemoryStorage.data top.2)
          simp [whole] at length
      | false =>
          simp only [stack, settled, Bool.false_eq_true, if_false, Prod.mk.injEq] at top
          obtain ⟨rfl, rfl⟩ := top
          exact .inr ⟨current, data, settled, rfl⟩

private theorem revived_deleteField {storage : InMemoryStorage} {id field other name : String}
    (elsewhere : ¬ (other = id ∧ name = field)) :
    (storage.deleteField id field).Revived other name ↔ storage.Revived other name := by
  have unmarked (layer : Layer) : (layer.deleteField id field).Revived other name ↔
      layer.Revived other name := by
    unfold Layer.Revived Layer.deleteField Layer.value Layer.get Layer.deletes
    dsimp only
    rw [OrderedMap.getIn?_setIn, if_neg elsewhere]
  constructor
  · rintro ⟨layer, single, -, revived⟩
    obtain ⟨blank, none, rfl⟩ | ⟨top, only, settled, rfl⟩ := deleteField_single single
    · have marked := ((unmarked blank).mp revived).1
      rw [none] at marked
      cases marked
    · exact ⟨top, only, settled, (unmarked top).mp revived⟩
  · rintro ⟨layer, single, settled, revived⟩
    refine ⟨layer.deleteField id field, ?_, settled, (unmarked layer).mpr revived⟩
    simp [deleteField, topLayer, single, settled, setLayer, Layer.deleteField]

/-- A field is not touched: its value is the same, and so is whether it was revived. -/
structure Spared (before after : InMemoryStorage) (id field : String) : Prop where
  distinct : before.DistinctLayers → after.DistinctLayers
  idMaps : after.idMaps = before.idMaps
  value : before.DistinctLayers → after.value id field = before.value id field
  revived : ∀ known ∈ before.recordIDs id, after.Revived known field ↔ before.Revived known field

theorem Spared.refl (storage : InMemoryStorage) (id field : String) :
    Spared storage storage id field :=
  ⟨fun distinct => distinct, rfl, fun _ => rfl, fun _ _ => Iff.rfl⟩

theorem Spared.trans {before middle after : InMemoryStorage} {id field : String}
    (first : Spared before middle id field) (second : Spared middle after id field) :
    Spared before after id field where
  distinct := second.distinct ∘ first.distinct
  idMaps := second.idMaps.trans first.idMaps
  value := fun distinct => (second.value (first.distinct distinct)).trans (first.value distinct)
  revived := by
    intro known named
    have middleNamed : known ∈ middle.recordIDs id := by
      rw [recordIDs, first.idMaps]
      exact named
    exact (second.revived known middleNamed).trans (first.revived known named)

private theorem spared_deleteField {storage : InMemoryStorage} {id field other name : String}
    (elsewhere : ¬ (other ∈ storage.recordIDs id ∧ name = field)) :
    Spared storage (storage.deleteField other name) id field where
  distinct := fun distinct => distinct.writeField
  idMaps := writeField_idMaps
  value := fun distinct => value_writeField distinct fun both => elsewhere ⟨both.1, both.2.symm⟩
  revived := by
    intro known named
    refine revived_deleteField ?_
    rintro ⟨rfl, rfl⟩
    exact elsewhere ⟨named, rfl⟩

end InMemoryStorage

namespace CacheInternal

variable {cache next : CacheInternal} {id field : String}

def Collects (cache : CacheInternal) (id field : String) : Prop :=
  cache.inUse id field = false ∧
    ∃ lifetime, cache.lifetimes.lifetimes.getIn? id field = some lifetime ∧
      cache.configFile.cacheBufferSize < lifetime + 1

private theorem tickFieldTime_frame (now : Nat) (cache : CacheInternal) (id field : String) :
    (tickFieldTime now cache id field).subscriptions = cache.subscriptions ∧
      (tickFieldTime now cache id field).configFile = cache.configFile ∧
      (tickFieldTime now cache id field).storage = cache.storage := by
  unfold tickFieldTime
  split
  · split <;> exact ⟨rfl, rfl, rfl⟩
  · exact ⟨rfl, rfl, rfl⟩

theorem tickField_frame (now : Nat) (cache : CacheInternal)
    (entry : String × String × Nat) :
    (tickField now cache entry).subscriptions = cache.subscriptions ∧
      (tickField now cache entry).configFile = cache.configFile ∧
      ((tickField now cache entry).storage = cache.storage ∨
        cache.inUse entry.1 entry.2.1 = false ∧
          cache.configFile.cacheBufferSize < entry.2.2 + 1 ∧
          (tickField now cache entry).storage = cache.storage.deleteField entry.1 entry.2.1) := by
  obtain ⟨other, name, lifetime⟩ := entry
  have unfolded : tickField now cache (other, name, lifetime) =
      if cache.inUse other name then cache
      else tickFieldTime now (cache.tickLifetime other name lifetime) other name := rfl
  rw [unfolded]
  cases used : cache.inUse other name with
  | true => exact ⟨rfl, rfl, .inl rfl⟩
  | false =>
      have times := tickFieldTime_frame now (cache.tickLifetime other name lifetime) other name
      obtain ⟨subscriptions, configFile, storage⟩ := times
      rw [if_neg nofun, subscriptions, configFile, storage]
      unfold tickLifetime
      dsimp only
      by_cases old : cache.configFile.cacheBufferSize < lifetime + 1
      · rw [if_pos old]
        exact ⟨rfl, rfl, .inr ⟨rfl, old, rfl⟩⟩
      · rw [if_neg old]
        exact ⟨rfl, rfl, .inl rfl⟩

private theorem tickField_spares (now : Nat) (entry : String × String × Nat)
    (spares : entry.1 ∈ cache.storage.recordIDs id → entry.2.1 = field →
      cache.inUse entry.1 entry.2.1 = true ∨ entry.2.2 + 1 ≤ cache.configFile.cacheBufferSize) :
    cache.storage.Spared (tickField now cache entry).storage id field := by
  obtain ⟨-, -, same | ⟨unused, old, deleted⟩⟩ := tickField_frame now cache entry
  · rw [same]
    exact .refl _ _ _
  · rw [deleted]
    refine InMemoryStorage.spared_deleteField ?_
    rintro ⟨named, same⟩
    rcases spares named same with inUse | young
    · rw [unused] at inUse
      cases inUse
    · exact absurd old (Nat.not_lt.mpr young)

private theorem tickFields_spares (now : Nat) (entries : List (String × String × Nat))
    (spares : ∀ entry ∈ entries, entry.1 ∈ cache.storage.recordIDs id → entry.2.1 = field →
      cache.inUse entry.1 entry.2.1 = true ∨ entry.2.2 + 1 ≤ cache.configFile.cacheBufferSize) :
    cache.storage.Spared (entries.foldl (tickField now) cache).storage id field := by
  induction entries generalizing cache with
  | nil => exact .refl _ _ _
  | cons entry rest ih =>
      have spared := tickField_spares now entry (spares entry List.mem_cons_self)
      obtain ⟨subscriptions, configFile, -⟩ := tickField_frame now cache entry
      refine spared.trans (ih ?_)
      intro other member named same
      have known : other.1 ∈ cache.storage.recordIDs id := by
        rw [InMemoryStorage.recordIDs, spared.idMaps] at named
        exact named
      have earlier := spares other (List.mem_cons_of_mem _ member) known same
      unfold inUse at earlier ⊢
      rw [subscriptions, configFile]
      exact earlier

theorem tick_spares (now : Nat)
    (kept : ∀ known ∈ cache.storage.recordIDs id, ¬ cache.Collects known field) :
    cache.storage.Spared (tick now cache).storage id field := by
  refine tickFields_spares now _ fun entry member named same => ?_
  obtain ⟨other, name, lifetime⟩ := entry
  dsimp only at named same ⊢
  subst same
  by_contra either
  rw [not_or, Bool.not_eq_true, Nat.not_le] at either
  exact kept other named ⟨either.1, lifetime, OrderedMap.mem_entriesIn.mp member, either.2⟩

/-- Whatever is in use is left alone: no id of the record loses the field in this tick, and the
field was not revived while it was marked as undefined. -/
def SparesUsed (cache : CacheInternal) : Prop :=
  ∀ id field, cache.inUse id field = true → ∀ known ∈ cache.storage.recordIDs id,
    ¬ cache.Collects known field ∧ ¬ cache.storage.Revived known field

/-- One call that changes the cache, as its parts see it. -/
inductive Step : CacheInternal → CacheInternal → Prop where
  | storage (cache : CacheInternal) {storage : InMemoryStorage}
      (step : cache.storage.Step storage) : Step cache { cache with storage }
  | addFieldSubscription (cache : CacheInternal) (id key : String) (selection : FieldSelection)
      (masked : Bool) :
      Step cache
        { cache with
          subscriptions := cache.subscriptions.addFieldSubscription id key selection masked
          lifetimes := cache.lifetimes.resetLifetime id key }
  | removeSubscribers (cache : CacheInternal) (id field : String) (specs : List SubscriptionSpec)
      (preferMasked : Bool) :
      Step cache
        { cache with
          subscriptions := cache.subscriptions.removeSubscribers id field specs preferMasked }
  | copySubscribers (cache : CacheInternal) (source target : String) :
      Step cache { cache with subscriptions := cache.subscriptions.copySubscribers source target }
  | resetLifetime (cache : CacheInternal) (id field : String) :
      Step cache { cache with lifetimes := cache.lifetimes.resetLifetime id field }
  | deleteLifetimes (cache : CacheInternal) (id : String) :
      Step cache { cache with lifetimes := ⟨cache.lifetimes.lifetimes.erase id⟩ }
  | lists (cache : CacheInternal) (lists : ListManager) : Step cache { cache with lists }
  | staleManager (cache : CacheInternal) (staleManager : StaleManager) :
      Step cache { cache with staleManager }
  | collectGarbage (cache : CacheInternal) (now : Nat) : Step cache (collectGarbage now cache)

def Reachable (cache : CacheInternal) : Prop :=
  ∃ configFile, Relation.ReflTransGen Step { configFile } cache

private theorem distinct_collectGarbage (now : Nat) (distinct : cache.storage.DistinctLayers) :
    (collectGarbage now cache).storage.DistinctLayers := by
  have ticked : (tick now cache).storage.DistinctLayers := by
    unfold tick
    generalize cache.lifetimes.lifetimes.entriesIn = entries
    induction entries generalizing cache with
    | nil => exact distinct
    | cons entry rest ih =>
        refine ih ?_
        obtain ⟨-, -, same | ⟨-, -, deleted⟩⟩ := tickField_frame now cache entry
        · rw [same]
          exact distinct
        · rw [deleted]
          exact distinct.writeField
  unfold collectGarbage
  dsimp only
  split
  · exact ticked.topLayer.setLayer _ (InMemoryStorage.topLayer_mem _)
      (Layer.removeUndefinedFields_header _)
  · exact ticked

theorem Reachable.distinctLayers (reachable : cache.Reachable) :
    cache.storage.DistinctLayers := by
  obtain ⟨configFile, run⟩ := reachable
  induction run with
  | refl => exact ⟨List.nodup_nil, nofun⟩
  | tail _ step distinct =>
      cases step with
      | storage step => exact (distinct.headersKept step).distinctLayers distinct
      | collectGarbage now => exact distinct_collectGarbage now distinct
      | _ => exact distinct

/-- Collecting garbage changes no field that is in use, under the condition. A field of a record
with one id that was revived is lost. -/
theorem collectGarbage_spares (reachable : cache.Reachable) (now : Nat) :
    (cache.SparesUsed → ∀ id field, cache.inUse id field = true →
      (collectGarbage now cache).storage.value id field = cache.storage.value id field) ∧
    ∀ id field, cache.inUse id field = true → cache.storage.recordIDs id = [id] →
      cache.storage.Revived id field →
        (collectGarbage now cache).storage.value id field ≠ cache.storage.value id field := by
  have distinct := reachable.distinctLayers
  constructor
  · intro spares id field used
    have ticked := tick_spares now fun known named => (spares id field used known named).1
    rw [← ticked.value distinct]
    unfold collectGarbage
    dsimp only
    split
    · rename_i single
      refine InMemoryStorage.value_removeUndefinedFields (ticked.distinct distinct) single ?_
      intro known named revived
      have earlier : known ∈ cache.storage.recordIDs id := by
        rw [InMemoryStorage.recordIDs, ticked.idMaps] at named
        exact named
      exact (spares id field used known earlier).2 ((ticked.revived known earlier).mp revived)
    · rfl
  · intro id field used unaliased revived
    have ticked : cache.storage.Spared (tick now cache).storage id field := by
      refine tick_spares now fun known named collects => ?_
      rw [unaliased, List.mem_singleton] at named
      rw [named, Collects, used] at collects
      cases collects.1
    have still : (tick now cache).storage.Revived id field :=
      (ticked.revived id (by rw [unaliased]; exact List.mem_singleton.mpr rfl)).mpr revived
    have sameIDs : (tick now cache).storage.recordIDs id = [id] := by
      rw [InMemoryStorage.recordIDs, ticked.idMaps]
      exact unaliased
    rw [← ticked.value distinct]
    have single : (tick now cache).storage.data.length = 1 := by
      obtain ⟨layer, only, -⟩ := still
      rw [only]
      rfl
    unfold collectGarbage
    dsimp only
    rw [if_pos single]
    exact InMemoryStorage.value_removeUndefinedFields_of_revived sameIDs still

private def linked (configFile : ConfigFile) : CacheInternal :=
  let (layer, storage) := ({} : InMemoryStorage).topLayer
  { configFile
    storage :=
      storage.setLayer (resultState (layer.writeLink "_ROOT_" "viewer" (.string "User:1")))
    lifetimes := ({} : GarbageCollector).resetLifetime "_ROOT_" "viewer" }

private def viewerSubscriber : FieldSelection :=
  ({ rootType := "Query", selection := {}, onMessage := 0 }, none)

private def watch (cache : CacheInternal) : CacheInternal :=
  { cache with
    subscriptions :=
      cache.subscriptions.addFieldSubscription "_ROOT_" "viewer" viewerSubscriber false
    lifetimes := cache.lifetimes.resetLifetime "_ROOT_" "viewer" }

private theorem linked_run (configFile : ConfigFile) :
    Relation.ReflTransGen Step { configFile } (linked configFile) := by
  have created := Step.storage { configFile } (.topLayer {})
  have written := Step.storage { configFile, storage := ({} : InMemoryStorage).topLayer.2 }
    (.layer (InMemoryStorage.topLayer_mem {}) (.writeLink _ "_ROOT_" "viewer" (.string "User:1")))
  exact .tail (.tail (.tail .refl created) written) (.resetLifetime _ "_ROOT_" "viewer")

/-- A viewer that is watched stays. -/
theorem collectGarbage_spares_viewer :
    let cache := watch (linked {})
    cache.inUse "_ROOT_" "viewer" = true ∧
      (collectGarbage 0 cache).storage.value "_ROOT_" "viewer" =
        cache.storage.value "_ROOT_" "viewer" := by
  have reachable : (watch (linked {})).Reachable :=
    ⟨{}, .tail (linked_run {}) (.addFieldSubscription _ "_ROOT_" "viewer" viewerSubscriber false)⟩
  refine ⟨rfl, (collectGarbage_spares reachable 0).1 ?_ "_ROOT_" "viewer" rfl⟩
  rintro id field _ known _
  constructor
  · rintro ⟨_, lifetime, young, old⟩
    have zero : lifetime = 0 := by
      change OrderedMap.getIn? (OrderedMap.setIn (OrderedMap.setIn ∅ "_ROOT_" "viewer" 0) "_ROOT_"
        "viewer" 0) known field = some lifetime at young
      rw [OrderedMap.getIn?_setIn, OrderedMap.getIn?_setIn] at young
      split at young
      · exact (Option.some.inj young).symm
      · cases young
    subst zero
    exact absurd old (by decide)
  · rintro ⟨layer, single, _, marked, _⟩
    cases single
    cases marked

/-- A mutation is pending when the link gets too old, so that it is only marked. The mutation is
resolved. -/
private def marked : CacheInternal :=
  let cache := linked { cacheBufferSize := 0 }
  let cache := collectGarbage 0 { cache with storage := (cache.storage.createLayer true).2 }
  { cache with storage := resultState (cache.storage.resolveLayer 2) }

/-- The viewer is still there when somebody subscribes to it. The next collection takes it away. -/
theorem not_collectGarbage_spares_revived :
    ∃ cache : CacheInternal, cache.Reachable ∧ cache.inUse "_ROOT_" "viewer" = true ∧
      cache.storage.value "_ROOT_" "viewer" = .string "User:1" ∧
      (collectGarbage 0 cache).storage.value "_ROOT_" "viewer" = .undefined := by
  have pending := Relation.ReflTransGen.tail (linked_run { cacheBufferSize := 0 })
    (.storage _ (.createLayer _ true))
  have collected := Relation.ReflTransGen.tail pending (.collectGarbage _ 0)
  have resolved := Relation.ReflTransGen.tail collected (.storage _ (.resolveLayer _ 2))
  have watched := Relation.ReflTransGen.tail resolved
    (.addFieldSubscription _ "_ROOT_" "viewer" viewerSubscriber false)
  exact ⟨watch marked, ⟨_, watched⟩, rfl, rfl, rfl⟩

end CacheInternal

end Houdini.Runtime.Cache
