import Houdini.Runtime.Cache.MergeProperties

/-! When merging a layer into the ones below it loses nothing, and what the
merged layer then holds. -/

set_option autoImplicit false

namespace Houdini.Runtime.Cache

namespace Layer

def storedField (layer : Layer) (id field : String) : GraphQLValue :=
  (layer.fields.getIn? id field).getD .undefined

def storedLink (layer : Layer) (id field : String) : GraphQLValue :=
  (layer.links.getIn? id field).getD .undefined

/-- The layer holds nothing under this id. -/
structure Silent (layer : Layer) (id : String) : Prop where
  value : ∀ field, layer.value id field = .undefined
  deletes : layer.deletes id = false
  listOperations : ∀ field, layer.listOperations id field = []

structure Omits (layer : Layer) (id field entry : String) : Prop where
  stored : GraphQLValue.string entry ∉ (layer.value id field).items
  inserted : ¬ ListOperation.Inserts (layer.listOperations id field) entry

/-- The operations that apply to the list displayed by a stack of layers, topmost
layer first: those at or above the first stored list. -/
def openOperations (id field : String) : List Layer → List ListOperation
  | [] => []
  | layer :: below =>
      layer.listOperations id field ++
        if (layer.value id field).isArray then [] else openOperations id field below

end Layer

namespace InMemoryStorage

/-- No layer of the list stores the entry in the field's list or inserts it. -/
def Absent (storage : InMemoryStorage) (layers : List Layer) (target field entry : String) :
    Prop :=
  ∀ layer ∈ layers, ∀ id ∈ storage.recordIDs target, layer.Omits id field entry

/-- A list stored by `upper` displays the same when operations and deletes of the
lower layers end up in one layer with it. -/
structure FaithfulList (storage : InMemoryStorage) (lowers above : List Layer) (upper : Layer)
    (target id field : String) : Prop where
  /-- The lower layers only remove entries: linked ones, or ones that nothing shows. -/
  operations : ∀ lower ∈ lowers, ∀ operation ∈ lower.listOperations id field,
    ∃ removed, operation = .remove removed ∧
      (.string removed ∈ upper.linked id field ∧
          ¬ ListOperation.Inserts (upper.listOperations id field) removed ∨
        storage.Absent (upper :: above) target field removed)
  /-- The layer does not remove what its own list links. -/
  removes : ∀ removed, ListOperation.Removes (upper.listOperations id field) removed →
    .string removed ∉ upper.linked id field
  /-- No lower layer deletes what the list displays. -/
  hidden : ∀ lower ∈ lowers, ∀ entry ∈ lower.hiddenIDs storage.idMaps field,
    .string entry ∉ (storage.get target field).value.items

/-- Merging `upper` into the layers already merged below it loses nothing. The
lower layers are listed topmost first and end with the base layer. -/
structure FaithfulMerge (storage : InMemoryStorage) (below lowers above : List Layer)
    (base upper : Layer) : Prop where
  /-- A field is not stored as a value above and as a link below. -/
  kinds : ∀ lower ∈ lowers, ∀ id field, upper.deletes id = false →
    upper.storedField id field ≠ .undefined → upper.storedLink id field = .undefined →
      lower.storedLink id field = .undefined
  /-- Explicitly undefined values do not overwrite anything. -/
  unsetFields : ∀ lower ∈ lowers, ∀ id field, upper.deletes id = false →
    upper.fields.getIn? id field = some .undefined → lower.storedField id field = .undefined
  unsetLinks : ∀ lower ∈ lowers, ∀ id field, upper.deletes id = false →
    upper.links.getIn? id field = some .undefined → lower.storedLink id field = .undefined
  /-- A record that links others is not one whose base entry lacks operations. -/
  writable : ∀ id field, upper.linked id field ≠ [] → base.Writable id
  /-- No linked record was deleted further down. -/
  relinked : ∀ lower ∈ lowers, ∀ id field, ∀ value ∈ upper.linked id field,
    lower.isDeleted value = false
  /-- The deletes of the layer are not undone. -/
  undone : ∀ id ∈ upper.deletedIDs, ∀ field,
    base.undoesDelete id field = false ∧ upper.undoesDelete id field = false
  /-- A record deleted in only one of base and upper layer is not given a list. -/
  deletedLists : ∀ id field, base.deletes id ≠ upper.deletes id →
    (upper.value id field).isArray = false
  /-- A deleted record is not stored further down. -/
  deletedRecords : ∀ target id, id ∈ storage.recordIDs target → upper.deletes id = true →
    base.deletes id = false → ∀ field,
      ({ storage with data := below }.get target field).value = .undefined
  lists : ∀ target id field, id ∈ storage.recordIDs target → base.deletes id = false →
    upper.deletes id = false → (upper.value id field).isArray = true →
      storage.FaithfulList lowers above upper target id field
  /-- An entry both inserted and removed is removed more often, or as often
  while nothing else shows it. -/
  toggles : ∀ target id field, id ∈ storage.recordIDs target → base.deletes id = false →
    upper.deletes id = false → (upper.operations.get? id).isSome = true → ∀ entry,
      ListOperation.Inserts (Layer.openOperations id field (upper :: lowers)) entry →
      ListOperation.Removes (Layer.openOperations id field (upper :: lowers)) entry →
        Layer.netOperations (Layer.openOperations id field (upper :: lowers)) entry < 0 ∨
          Layer.netOperations (Layer.openOperations id field (upper :: lowers)) entry = 0 ∧
          storage.Absent (below ++ above) target field entry ∧
          ∀ layer ∈ upper :: lowers, .string entry ∉ (layer.value id field).items
  /-- The merged layers know a record by one of its ids only. -/
  identified : ∀ target, (storage.recordIDs target).Nodup ∧
    ∃ active ∈ storage.recordIDs target, ∀ layer ∈ upper :: lowers,
      ∀ id ∈ storage.recordIDs target, id ≠ active → layer.Silent id

def resolvedRun (storage : InMemoryStorage) (id : LayerID) :
    List Layer × List Layer × List Layer :=
  let index := (storage.data.findIdx? (·.id == id)).getD 0
  let data := storage.data.modify index fun layer => { layer with optimistic := false }
  let start := startingIndex data index
  (data.take start, (data.drop start).takeWhile (!·.optimistic),
    (data.drop start).dropWhile (!·.optimistic))

/-- Every merge that resolving the layer makes is faithful, and forgetting the id
mappings when one layer is left hides nothing. -/
structure FaithfulResolve (storage : InMemoryStorage) (id : LayerID) : Prop where
  merges : ∀ base lowers upper uppers,
    (storage.resolvedRun id).2.1 = base :: lowers ++ upper :: uppers →
      storage.FaithfulMerge (storage.resolvedRun id).1 (base :: lowers).reverse
        (uppers ++ (storage.resolvedRun id).2.2) base upper
  mapped : (storage.resolvedRun id).1 = [] → (storage.resolvedRun id).2.2 = [] → ∀ target,
    (storage.recordIDs target).Nodup ∧ ∀ layer ∈ (storage.resolvedRun id).2.1,
      ∀ id ∈ storage.recordIDs target, id ≠ target → layer.Silent id
  deletedMapped : (storage.resolvedRun id).1 = [] → (storage.resolvedRun id).2.2 = [] →
    ∀ layer ∈ (storage.resolvedRun id).2.1, ∀ id ∈ layer.deletedIDs,
      (storage.idMaps.get? id).getD "" = ""

end InMemoryStorage

namespace Layer

theorem openOperations_singleton (layer : Layer) (id field : String) :
    openOperations id field [layer] = layer.listOperations id field := by
  simp only [openOperations, ite_self, List.append_nil]

theorem value_eq (layer : Layer) (id field : String) :
    layer.value id field =
      if layer.storedLink id field = .undefined then layer.storedField id field
      else layer.storedLink id field := by
  unfold value get storedLink storedField
  simp only [GraphQLValue.isDefined_iff, ne_eq, ite_not]
  split <;> rfl

theorem hidden_avoids (layer : Layer) (idMaps : OrderedMap String String) (field : String)
    (entries : List GraphQLValue) : (layer.hidden idMaps field).Avoids entries := by
  intro entry _
  simp [hidden]

theorem mem_hidden {layer : Layer} {idMaps : OrderedMap String String} {field : String}
    {value : GraphQLValue} :
    value ∈ (layer.hidden idMaps field).removed ↔
      ∃ entry, value = .string entry ∧ entry ∈ layer.hiddenIDs idMaps field := by
  simp [hidden, eq_comm, and_comm]

theorem view_avoids {layer : Layer} {id field : String}
    (idMaps : OrderedMap String String) (entries : List GraphQLValue)
    (absent : ∀ entry, .string entry ∈ entries →
      ¬ ListOperation.Inserts (layer.listOperations id field) entry) :
    (layer.view idMaps id field).patch.Avoids entries := by
  intro entry member
  have fromOperations := ListOperation.patch_avoids absent entry member
  have fromHidden := layer.hidden_avoids idMaps field entries entry member
  simp [view, fromOperations.1, fromOperations.2, fromHidden.1, fromHidden.2]

theorem Omits.not_contributes {layer : Layer} {id field entry : String}
    (omits : layer.Omits id field entry) (idMaps : OrderedMap String String) :
    ¬ (layer.view idMaps id field).Contributes (.string entry) := by
  have avoids : (layer.view idMaps id field).patch.Avoids [.string entry] := by
    refine view_avoids idMaps _ fun other member => ?_
    simp only [List.mem_singleton, GraphQLValue.string.injEq] at member
    exact member ▸ omits.inserted
  have patched := avoids (.string entry) List.mem_cons_self
  rintro (⟨entries, stored, member⟩ | inserted)
  · rw [view] at stored
    have array := storedCell_eq_list.mp stored
    exact omits.stored (by rw [array]; exact member)
  · exact inserted.elim patched.1 patched.2

end Layer

namespace ListOperation

def cancelled (operations : List ListOperation) : List GraphQLValue :=
  (operations.filter fun operation =>
    Layer.netOperations operations operation.target = 0).map fun operation =>
      .string operation.target

theorem mem_cancelled {operations : List ListOperation} {id : String} :
    .string id ∈ cancelled operations ↔
      Inserts operations id ∧ Removes operations id ∧ Layer.netOperations operations id = 0 := by
  have mentioned : (∃ operation ∈ operations, operation.target = id) ↔
      Inserts operations id ∨ Removes operations id := by
    constructor
    · rintro ⟨operation, member, rfl⟩
      cases operation with
      | insert location id => exact .inl ⟨location, member⟩
      | remove id => exact .inr member
    · rintro (⟨location, member⟩ | member)
      · exact ⟨_, member, rfl⟩
      · exact ⟨_, member, rfl⟩
  have counts : Layer.netOperations operations id = 0 →
      (Inserts operations id ↔ Removes operations id) := by
    intro balanced
    rw [inserts_iff, removes_iff]
    unfold Layer.netOperations at balanced
    omega
  simp only [cancelled, List.mem_map, List.mem_filter, decide_eq_true_eq,
    GraphQLValue.string.injEq]
  constructor
  · rintro ⟨operation, ⟨member, balanced⟩, rfl⟩
    have either := mentioned.mp ⟨operation, member, rfl⟩
    have same := counts balanced
    exact ⟨either.elim (fun inserted => inserted) same.mpr,
      either.elim same.mp (fun removed => removed), balanced⟩
  · rintro ⟨inserted, _, balanced⟩
    obtain ⟨operation, member, rfl⟩ := mentioned.mpr (.inl inserted)
    exact ⟨operation, ⟨member, balanced⟩, rfl⟩

theorem string_of_mem_cancelled {operations : List ListOperation} {value : GraphQLValue}
    (member : value ∈ cancelled operations) : ∃ id, value = .string id := by
  obtain ⟨operation, _, same⟩ := List.mem_map.mp member
  exact ⟨operation.target, same.symm⟩

/-- A list written above operations that only remove: compacting both and undoing
the removes of linked entries shows what the upper operations and the removes
that are left show. -/
theorem undone_covers {upper lower : List ListOperation} (linked : List GraphQLValue)
    (removesOnly : ∀ operation ∈ lower, ∃ removed, operation = .remove removed ∧
      ¬ Inserts upper removed)
    (unlinked : ∀ removed, Removes upper removed → .string removed ∉ linked)
    (settles : ∀ id, Inserts upper id → Removes upper id →
      Layer.netOperations upper id < 0 ∨ Layer.netOperations upper id = 0) :
    ListPatch.Covers (cancelled upper) (patch (upper ++ undone linked lower))
      (patch (undone linked (Layer.compactOperations (upper ++ lower)))) := by
  have noInserts (id : String) : ¬ Inserts lower id := by
    rintro ⟨location, member⟩
    obtain ⟨removed, same, _⟩ := removesOnly _ member
    cases same
  have apart (id : String) (removed : Removes lower id) : ¬ Inserts upper id := by
    obtain ⟨other, same, absent⟩ := removesOnly _ removed
    cases same
    exact absent
  have lowerNet (id : String) : Layer.netOperations lower id ≤ 0 := by
    rw [netOperations_of_not_inserts (noInserts id)]
    omega
  refine patch_covers ?_ ?_ ?_ ?_
  · -- an entry that is not removed any more was either inserted or removed, not both
    let test : ListOperation → Bool := fun operation =>
      !(upper ++ undone linked lower).contains (.remove operation.target)
    have passes (operation : ListOperation) : test operation = true ↔
        ¬ Removes upper operation.target ∧ ¬ Removes (undone linked lower) operation.target := by
      simp [test, Removes]
    change (undone linked _).filter test = (upper ++ undone linked lower).filter test
    have upperKept : upper.filter test = upper.filter fun operation =>
        test operation && (!operation.isRemove || !linked.contains (.string operation.target)) := by
      refine List.filter_congr fun operation member => ?_
      cases operation with
      | insert location id => simp [isRemove]
      | remove id => simp [isRemove, target, unlinked id member]
    rw [undone, List.filter_filter, compactOperations_filter]
    · rw [List.filter_append, List.filter_append, upperKept, undone, List.filter_filter]
    · intro operation passed both
      rw [Bool.and_eq_true, passes] at passed
      obtain ⟨⟨keptUpper, keptLower⟩, _⟩ := passed
      rw [inserts_append, removes_append] at both
      obtain ⟨inserted, removed⟩ := both
      have removedLower := removed.resolve_left keptUpper
      exact apart _ removedLower (inserted.resolve_right (noInserts _))
  · intro id removed
    obtain ⟨compacted, absent⟩ := removes_undone.mp removed
    refine removes_append.mpr ((removes_append.mp (Layer.compactOperations_subset compacted)).imp
      (fun inUpper => inUpper) fun inLower => removes_undone.mpr ⟨inLower, absent⟩)
  · intro id removed
    rw [removes_undone]
    have net := Layer.netOperations_append upper lower id
    have below := lowerNet id
    rcases removes_append.mp removed with inUpper | inLower
    · have absent := unlinked id inUpper
      by_cases inserted : Inserts upper id
      · rcases settles id inserted inUpper with negative | balanced
        · exact .inl ⟨removes_compact (by omega), absent⟩
        · exact .inr (mem_cancelled.mpr ⟨inserted, inUpper, balanced⟩)
      · have negative := netOperations_of_not_inserts inserted
        have count := removes_iff.mp inUpper
        exact .inl ⟨removes_compact (by omega), absent⟩
    · obtain ⟨stillRemoved, absent⟩ := removes_undone.mp inLower
      have upperNet := netOperations_of_not_inserts (apart id stillRemoved)
      have lowerNet := netOperations_of_not_inserts (noInserts id)
      have count := removes_iff.mp stillRemoved
      exact .inl ⟨removes_compact (by omega), absent⟩
  · intro id member
    obtain ⟨_, _, balanced⟩ := mem_cancelled.mp member
    have net := Layer.netOperations_append upper lower id
    have below := lowerNet id
    rw [inserts_undone]
    exact not_inserts_compact (by omega)

end ListOperation

section Merging

variable {storage : InMemoryStorage} {below lowers above : List Layer}
  {bottom upper lower merged : Layer}

/-- Nothing above shows the entry, and the merged layer only removes it. -/
structure Inert (storage : InMemoryStorage) (above : List Layer) (merged : Layer)
    (target id field entry : String) : Prop where
  absent : storage.Absent above target field entry
  omits : merged.Omits id field entry

/-- The merged layer's operations on a list do what the open operations of the
layers it was merged from do, up to inert entries. -/
structure Tracks (storage : InMemoryStorage) (lowers above : List Layer) (merged : Layer)
    (target id field : String) : Prop where
  inserts : ∀ entry, ListOperation.Inserts (merged.listOperations id field) entry →
    ListOperation.Inserts (Layer.openOperations id field lowers) entry
  removes : ∀ entry, ListOperation.Removes (merged.listOperations id field) entry →
    ListOperation.Removes (Layer.openOperations id field lowers) entry ∨
      Inert storage above merged target id field entry
  net : ∀ entry, Layer.netOperations (merged.listOperations id field) entry =
      Layer.netOperations (Layer.openOperations id field lowers) entry ∨
    Inert storage above merged target id field entry

def Uncovered (storage : InMemoryStorage) (below : List Layer) (target : String) : Prop :=
  ∀ field, ({ storage with data := below }.get target field).value = .undefined

structure MergedFrom (storage : InMemoryStorage) (below lowers above : List Layer)
    (base merged : Layer) : Prop where
  base_mem : base ∈ lowers
  storedField : ∀ id field, merged.storedField id field = .undefined ∨
    ∃ lower ∈ lowers, merged.storedField id field = lower.storedField id field
  storedLink : ∀ id field, merged.storedLink id field = .undefined ∨
    ∃ lower ∈ lowers, merged.storedLink id field = lower.storedLink id field
  value : ∀ id field, merged.value id field = .undefined ∨
    ∃ lower ∈ lowers, merged.value id field = lower.value id field
  deletes : ∀ id, merged.deletes id = base.deletes id
  undoneFields : ∀ id, merged.undoneFields id = base.undoneFields id
  writable : ∀ id, base.Writable id → merged.Writable id
  deletedIDs : ∀ id, id ∈ merged.deletedIDs ↔ ∃ lower ∈ lowers, id ∈ lower.deletedIDs
  hiddenIDs : ∀ field entry, entry ∈ merged.hiddenIDs storage.idMaps field ↔
    ∃ lower ∈ lowers, entry ∈ lower.hiddenIDs storage.idMaps field
  operations : ∀ id field, ∀ operation ∈ merged.listOperations id field,
    ∃ lower ∈ lowers, operation ∈ lower.listOperations id field
  tracked : ∀ target id field, id ∈ storage.recordIDs target → base.deletes id = false →
    merged.value id field = .undefined ∧ Uncovered storage below target ∨
      (merged.value id field = .undefined ∨ (merged.value id field).isArray = true →
        Tracks storage lowers above merged target id field)

theorem MergedFrom.base (storage : InMemoryStorage) (below above : List Layer) (base : Layer) :
    MergedFrom storage below [base] above base base where
  base_mem := List.mem_singleton_self base
  storedField := fun _ _ => .inr ⟨base, List.mem_singleton_self base, rfl⟩
  storedLink := fun _ _ => .inr ⟨base, List.mem_singleton_self base, rfl⟩
  value := fun _ _ => .inr ⟨base, List.mem_singleton_self base, rfl⟩
  deletes := fun _ => rfl
  undoneFields := fun _ => rfl
  writable := fun _ writable => writable
  deletedIDs := fun _ => by simp
  hiddenIDs := fun _ _ => by simp
  operations := fun _ _ operation member => ⟨base, List.mem_singleton_self base, member⟩
  tracked := by
    intro target id field _ _
    refine .inr fun _ => ?_
    have openBase := base.openOperations_singleton id field
    exact {
      inserts := fun entry inserted => openBase ▸ inserted
      removes := fun entry removed => .inl (openBase ▸ removed)
      net := fun entry => .inl (by rw [openBase]) }

theorem MergedFrom.isDeleted (mergedFrom : MergedFrom storage below lowers above bottom lower)
    {value : GraphQLValue} (present : ∀ layer ∈ lowers, layer.isDeleted value = false) :
    lower.isDeleted value = false := by
  have inBase := present bottom mergedFrom.base_mem
  have sameDeletes := mergedFrom.deletes value.propertyKey
  unfold Layer.deletes at sameDeletes
  unfold Layer.isDeleted at inBase ⊢
  rw [Bool.or_eq_false_iff] at inBase ⊢
  refine ⟨sameDeletes.trans inBase.1, ?_⟩
  cases value with
  | string id =>
      have absent : id ∉ lower.deletedIDs := by
        intro member
        obtain ⟨layer, inLowers, deleted⟩ := (mergedFrom.deletedIDs id).mp member
        have shown := present layer inLowers
        simp [Layer.isDeleted, deleted] at shown
      simpa using absent
  | _ => rfl

theorem FaithfulMerge.writeLayer
    (faithful : storage.FaithfulMerge below lowers above bottom upper)
    (mergedFrom : MergedFrom storage below lowers (upper :: above) bottom lower)
    (distinct : upper.id ≠ lower.id) :
    ∃ merged, lower.writeLayer upper = .ok () merged ∧ Layer.Merged lower upper merged :=
  Layer.writeLayer_merged distinct
    (fun id field linked => mergedFrom.writable id (faithful.writable id field linked))
    fun id field value linked => mergedFrom.isDeleted fun layer member =>
      faithful.relinked layer member id field value linked

private theorem storedLink_of_deletes (merge : Layer.Merged lower upper merged) {id : String}
    (deleted : upper.deletes id = true) (field : String) :
    merged.storedLink id field = upper.storedLink id field := by
  unfold Layer.storedLink
  rw [merge.links, deleted]
  cases upper.links.getIn? id field <;> rfl

private theorem storedField_of_deletes (merge : Layer.Merged lower upper merged) {id : String}
    (deleted : upper.deletes id = true) (field : String) :
    merged.storedField id field = upper.storedField id field := by
  unfold Layer.storedField
  rw [merge.fields, deleted]
  cases upper.fields.getIn? id field <;> rfl

private theorem storedLink_of_kept
    (faithful : storage.FaithfulMerge below lowers above bottom upper)
    (mergedFrom : MergedFrom storage below lowers (upper :: above) bottom lower)
    (merge : Layer.Merged lower upper merged) {id : String}
    (kept : upper.deletes id = false) (field : String) :
    merged.storedLink id field =
      if upper.storedLink id field = .undefined then lower.storedLink id field
      else upper.storedLink id field := by
  cases found : upper.links.getIn? id field with
  | none => simp [Layer.storedLink, merge.links, kept, found]
  | some value =>
      by_cases unset : value = .undefined
      · subst unset
        rcases mergedFrom.storedLink id field with missing | ⟨layer, member, same⟩
        · simp [Layer.storedLink, merge.links, found] at missing ⊢
          exact missing.symm
        · rw [faithful.unsetLinks layer member id field kept found] at same
          simp [Layer.storedLink, merge.links, found] at same ⊢
          exact same.symm
      · simp [Layer.storedLink, merge.links, found, unset]

private theorem storedField_of_kept
    (faithful : storage.FaithfulMerge below lowers above bottom upper)
    (mergedFrom : MergedFrom storage below lowers (upper :: above) bottom lower)
    (merge : Layer.Merged lower upper merged) {id : String}
    (kept : upper.deletes id = false) (field : String) :
    merged.storedField id field =
      if upper.storedField id field = .undefined then lower.storedField id field
      else upper.storedField id field := by
  cases found : upper.fields.getIn? id field with
  | none => simp [Layer.storedField, merge.fields, kept, found]
  | some value =>
      by_cases unset : value = .undefined
      · subst unset
        rcases mergedFrom.storedField id field with missing | ⟨layer, member, same⟩
        · simp [Layer.storedField, merge.fields, found] at missing ⊢
          exact missing.symm
        · rw [faithful.unsetFields layer member id field kept found] at same
          simp [Layer.storedField, merge.fields, found] at same ⊢
          exact same.symm
      · simp [Layer.storedField, merge.fields, found, unset]

/-- The merged layer stores what the upper layer stores, and below it, unless
the record is deleted above, what the lower layer stores. -/
theorem merged_value
    (faithful : storage.FaithfulMerge below lowers above bottom upper)
    (mergedFrom : MergedFrom storage below lowers (upper :: above) bottom lower)
    (merge : Layer.Merged lower upper merged) (id field : String) :
    merged.value id field =
      if upper.value id field = .undefined then
        if upper.deletes id then .undefined else lower.value id field
      else upper.value id field := by
  cases deleted : upper.deletes id with
  | true =>
      rw [Layer.value_eq, storedLink_of_deletes merge deleted,
        storedField_of_deletes merge deleted, ← Layer.value_eq]
      simp +contextual
  | false =>
      have link := storedLink_of_kept faithful mergedFrom merge deleted field
      have plain := storedField_of_kept faithful mergedFrom merge deleted field
      rw [Layer.value_eq merged, Layer.value_eq upper, Layer.value_eq lower, link, plain]
      by_cases noLink : upper.storedLink id field = .undefined
      · by_cases noField : upper.storedField id field = .undefined
        · simp [noLink, noField]
        · have lowerLink : lower.storedLink id field = .undefined := by
            rcases mergedFrom.storedLink id field with missing | ⟨layer, member, same⟩
            · exact missing
            · rw [same]
              exact faithful.kinds layer member id field deleted noField noLink
          simp [noLink, noField, lowerLink]
      · simp [noLink]

private theorem undoesDelete_eq {layer other : Layer} {id : String}
    (same : layer.undoneFields id = other.undoneFields id) (field : String) :
    layer.undoesDelete id field = other.undoesDelete id field :=
  congrArg (fun undone : Option (List String) => (undone.getD []).contains field) same

private theorem mem_hiddenIDs {layer : Layer} {idMaps : OrderedMap String String}
    {field entry : String} :
    entry ∈ layer.hiddenIDs idMaps field ↔
      ∃ id ∈ layer.deletedIDs, layer.undoesDelete id field = false ∧
        entry ∈ id :: (idMaps.get? id).toList.filter (· != "") := by
  unfold Layer.hiddenIDs
  rw [List.mem_flatMap]
  refine exists_congr fun id => and_congr_right fun _ => ?_
  cases layer.undoesDelete id field <;> simp

theorem merged_hiddenIDs
    (faithful : storage.FaithfulMerge below lowers above bottom upper)
    (mergedFrom : MergedFrom storage below lowers (upper :: above) bottom lower)
    (merge : Layer.Merged lower upper merged) (field entry : String) :
    entry ∈ merged.hiddenIDs storage.idMaps field ↔
      entry ∈ upper.hiddenIDs storage.idMaps field ∨
        entry ∈ lower.hiddenIDs storage.idMaps field := by
  have sameLower (id : String) : merged.undoesDelete id field = lower.undoesDelete id field :=
    undoesDelete_eq (merge.undoneFields id) field
  have sameBase (id : String) : merged.undoesDelete id field = bottom.undoesDelete id field :=
    undoesDelete_eq ((merge.undoneFields id).trans (mergedFrom.undoneFields id)) field
  simp only [mem_hiddenIDs, merge.deletedIDs]
  constructor
  · rintro ⟨id, inLower | inUpper, kept, hides⟩
    · exact .inr ⟨id, inLower, (sameLower id).symm.trans kept, hides⟩
    · exact .inl ⟨id, inUpper, (faithful.undone id inUpper field).2, hides⟩
  · rintro (⟨id, inUpper, _, hides⟩ | ⟨id, inLower, kept, hides⟩)
    · exact ⟨id, .inr inUpper, (sameBase id).trans (faithful.undone id inUpper field).1, hides⟩
    · exact ⟨id, .inl inLower, (sameLower id).trans kept, hides⟩

theorem merged_operation (merge : Layer.Merged lower upper merged) {id field : String}
    {operation : ListOperation} (member : operation ∈ merged.listOperations id field) :
    operation ∈ upper.listOperations id field ∨ operation ∈ lower.listOperations id field := by
  rw [merge.listOperations] at member
  have kept := ListOperation.undone_subset member
  split at kept
  · exact List.mem_append.mp (Layer.compactOperations_subset kept)
  · exact .inr kept

private theorem netOperations_undone {linked : List GraphQLValue}
    {operations : List ListOperation} {entry : String}
    (unlinked : ListOperation.Removes operations entry → .string entry ∉ linked) :
    Layer.netOperations (ListOperation.undone linked operations) entry =
      Layer.netOperations operations entry := by
  unfold Layer.netOperations ListOperation.undone
  rw [List.countP_filter, List.countP_filter]
  congr 2
  · refine List.countP_congr fun operation _ => ?_
    cases operation <;> simp [ListOperation.inserts, ListOperation.isInsert,
      ListOperation.isRemove]
  · refine List.countP_congr fun operation member => ?_
    cases operation with
    | insert location id => simp [ListOperation.removes, ListOperation.isRemove]
    | remove id =>
        simp only [ListOperation.removes, ListOperation.isRemove, ListOperation.target,
          Bool.true_and, Bool.and_eq_true, beq_iff_eq, Bool.not_true, Bool.false_or]
        constructor
        · exact fun both => both.1
        · rintro rfl
          exact ⟨rfl, by simpa using unlinked member⟩

theorem linked_eq_nil {layer : Layer} {id field : String}
    (unset : layer.value id field = .undefined) : layer.linked id field = [] := by
  have noLink : layer.storedLink id field = .undefined := by
    rw [Layer.value_eq] at unset
    by_contra stored
    rw [if_neg stored] at unset
    exact stored unset
  change (layer.storedLink id field).flattenLinks = []
  rw [noLink]
  simp [GraphQLValue.flattenLinks, GraphQLValue.flatten, GraphQLValue.flattenEntry,
    GraphQLValue.truthy]

theorem listOperations_of_none {layer : Layer} {id : String}
    (missing : (layer.operations.get? id).isSome = false) (field : String) :
    layer.listOperations id field = [] := by
  rw [Option.isSome_eq_false_iff, Option.isNone_iff_eq_none] at missing
  simp [Layer.listOperations, missing]

private theorem merged_net (merge : Layer.Merged lower upper merged) {id field : String}
    (unset : upper.value id field = .undefined) (entry : String) :
    Layer.netOperations (merged.listOperations id field) entry =
      Layer.netOperations (upper.listOperations id field) entry +
        Layer.netOperations (lower.listOperations id field) entry := by
  rw [merge.listOperations, linked_eq_nil unset, ListOperation.undone_nil]
  cases held : (upper.operations.get? id).isSome with
  | true =>
      rw [if_pos rfl, Layer.netOperations_compactOperations, Layer.netOperations_append]
  | false =>
      rw [if_neg (by decide), listOperations_of_none held]
      simp [Layer.netOperations]

private theorem Tracks.of_unset {target id field : String}
    (named : id ∈ storage.recordIDs target)
    (tracks : Tracks storage lowers (upper :: above) lower target id field)
    (merge : Layer.Merged lower upper merged) (unset : upper.value id field = .undefined)
    (sameValue : merged.value id field = lower.value id field) :
    Tracks storage (upper :: lowers) above merged target id field := by
  have opened : Layer.openOperations id field (upper :: lowers) =
      upper.listOperations id field ++ Layer.openOperations id field lowers := by
    simp [Layer.openOperations, unset, GraphQLValue.isArray]
  have stillInert {entry : String}
      (inert : Inert storage (upper :: above) lower target id field entry) :
      Inert storage above merged target id field entry := by
    refine ⟨fun layer member => inert.absent layer (List.mem_cons_of_mem _ member), ?_, ?_⟩
    · rw [sameValue]
      exact inert.omits.stored
    · rintro ⟨location, member⟩
      rcases merged_operation merge member with inUpper | inLower
      · exact (inert.absent upper List.mem_cons_self id named).inserted ⟨location, inUpper⟩
      · exact inert.omits.inserted ⟨location, inLower⟩
  exact {
    inserts := by
      rintro entry ⟨location, member⟩
      rw [opened, ListOperation.inserts_append]
      exact (merged_operation merge member).imp (fun inUpper => ⟨location, inUpper⟩)
        fun inLower => tracks.inserts entry ⟨location, inLower⟩
    removes := by
      intro entry member
      rw [opened, ListOperation.removes_append, or_assoc]
      exact (merged_operation merge member).imp (fun inUpper => inUpper)
        fun inLower => (tracks.removes entry inLower).imp (fun removed => removed) stillInert
    net := by
      intro entry
      rw [opened, Layer.netOperations_append, merged_net merge unset]
      rcases tracks.net entry with same | inert
      · exact .inl (by rw [same])
      · exact .inr (stillInert inert) }

theorem FaithfulList.removesOnly {target id field : String}
    (named : id ∈ storage.recordIDs target)
    (faithful : storage.FaithfulList lowers above upper target id field)
    (mergedFrom : MergedFrom storage below lowers (upper :: above) bottom lower) :
    ∀ operation ∈ lower.listOperations id field, ∃ removed, operation = .remove removed ∧
      ¬ ListOperation.Inserts (upper.listOperations id field) removed ∧
      (.string removed ∈ upper.linked id field ∨
        storage.Absent (upper :: above) target field removed) := by
  intro operation member
  obtain ⟨layer, inLowers, held⟩ := mergedFrom.operations id field operation member
  obtain ⟨removed, same, linked | absent⟩ := faithful.operations layer inLowers operation held
  · exact ⟨removed, same, linked.2, .inl linked.1⟩
  · exact ⟨removed, same, (absent upper List.mem_cons_self id named).inserted, .inr absent⟩

private theorem Tracks.of_list {target id field : String}
    (named : id ∈ storage.recordIDs target)
    (faithful : storage.FaithfulList lowers above upper target id field)
    (mergedFrom : MergedFrom storage below lowers (upper :: above) bottom lower)
    (merge : Layer.Merged lower upper merged)
    (stored : (upper.value id field).isArray = true)
    (sameValue : merged.value id field = upper.value id field) :
    Tracks storage (upper :: lowers) above merged target id field := by
  have opened : Layer.openOperations id field (upper :: lowers) =
      upper.listOperations id field := by
    simp [Layer.openOperations, stored]
  have removesOnly := FaithfulList.removesOnly named faithful mergedFrom
  have noInserts (entry : String) :
      ¬ ListOperation.Inserts (lower.listOperations id field) entry := by
    rintro ⟨location, member⟩
    obtain ⟨removed, same, _⟩ := removesOnly _ member
    cases same
  have inertBelow {entry : String}
      (removed : ListOperation.Removes (lower.listOperations id field) entry)
      (unlinked : .string entry ∉ upper.linked id field) :
      Inert storage above merged target id field entry := by
    obtain ⟨other, same, _, linked | absent⟩ := removesOnly _ removed
    · cases same
      exact absurd linked unlinked
    · cases same
      refine ⟨fun layer member => absent layer (List.mem_cons_of_mem _ member), ?_, ?_⟩
      · rw [sameValue]
        exact (absent upper List.mem_cons_self id named).stored
      · rintro ⟨location, member⟩
        rcases merged_operation merge member with inUpper | inLower
        · exact (absent upper List.mem_cons_self id named).inserted ⟨location, inUpper⟩
        · exact noInserts entry ⟨location, inLower⟩
  exact {
    inserts := by
      rintro entry ⟨location, member⟩
      rw [opened]
      exact (merged_operation merge member).elim (fun inUpper => ⟨location, inUpper⟩)
        fun inLower => absurd ⟨location, inLower⟩ (noInserts entry)
    removes := by
      intro entry member
      rw [opened]
      rw [merge.listOperations, ListOperation.removes_undone] at member
      obtain ⟨kept, unlinked⟩ := member
      split at kept
      · exact (ListOperation.removes_append.mp (Layer.compactOperations_subset kept)).imp
          (fun inUpper => inUpper) fun inLower => inertBelow inLower unlinked
      · exact .inr (inertBelow kept unlinked)
    net := by
      intro entry
      rw [opened]
      by_cases removed : ListOperation.Removes (lower.listOperations id field) entry
      · by_cases linked : .string entry ∈ upper.linked id field
        · -- the remove is undone, and nothing else mentions the entry
          obtain ⟨other, same, notInserted, _⟩ := removesOnly _ removed
          cases same
          have notRemoved : ¬ ListOperation.Removes (upper.listOperations id field) entry :=
            fun inUpper => faithful.removes entry inUpper linked
          have mergedInserts : ¬ ListOperation.Inserts (merged.listOperations id field) entry := by
            rintro ⟨location, member⟩
            exact (merged_operation merge member).elim
              (fun inUpper => notInserted ⟨location, inUpper⟩)
              fun inLower => noInserts entry ⟨location, inLower⟩
          have mergedRemoves : ¬ ListOperation.Removes (merged.listOperations id field) entry := by
            rw [merge.listOperations, ListOperation.removes_undone]
            exact fun both => both.2 linked
          rw [ListOperation.inserts_iff] at notInserted mergedInserts
          rw [ListOperation.removes_iff] at notRemoved mergedRemoves
          unfold Layer.netOperations
          omega
        · exact .inr (inertBelow removed linked)
      · have lowerNet : Layer.netOperations (lower.listOperations id field) entry = 0 := by
          have inserts := noInserts entry
          rw [ListOperation.inserts_iff] at inserts
          rw [ListOperation.removes_iff] at removed
          unfold Layer.netOperations
          omega
        rw [merge.listOperations]
        refine .inl ?_
        cases held : (upper.operations.get? id).isSome with
        | true =>
            rw [if_pos rfl, netOperations_undone, Layer.netOperations_compactOperations,
              Layer.netOperations_append, lowerNet, Int.add_zero]
            intro kept
            have inUpper := (ListOperation.removes_append.mp
              (Layer.compactOperations_subset kept)).resolve_right removed
            exact faithful.removes entry inUpper
        | false =>
            rw [if_neg (by decide), netOperations_undone fun kept => absurd kept removed,
              lowerNet, listOperations_of_none held]
            rfl }

theorem MergedFrom.merge
    (faithful : storage.FaithfulMerge below lowers above bottom upper)
    (mergedFrom : MergedFrom storage below lowers (upper :: above) bottom lower)
    (merge : Layer.Merged lower upper merged) :
    MergedFrom storage below (upper :: lowers) above bottom merged where
  base_mem := List.mem_cons_of_mem _ mergedFrom.base_mem
  storedField := by
    intro id field
    cases deleted : upper.deletes id with
    | true => exact .inr ⟨upper, List.mem_cons_self, storedField_of_deletes merge deleted field⟩
    | false =>
        rw [storedField_of_kept faithful mergedFrom merge deleted]
        split
        · exact (mergedFrom.storedField id field).imp_right fun ⟨layer, member, same⟩ =>
            ⟨layer, List.mem_cons_of_mem _ member, same⟩
        · exact .inr ⟨upper, List.mem_cons_self, rfl⟩
  storedLink := by
    intro id field
    cases deleted : upper.deletes id with
    | true => exact .inr ⟨upper, List.mem_cons_self, storedLink_of_deletes merge deleted field⟩
    | false =>
        rw [storedLink_of_kept faithful mergedFrom merge deleted]
        split
        · exact (mergedFrom.storedLink id field).imp_right fun ⟨layer, member, same⟩ =>
            ⟨layer, List.mem_cons_of_mem _ member, same⟩
        · exact .inr ⟨upper, List.mem_cons_self, rfl⟩
  value := by
    intro id field
    rw [merged_value faithful mergedFrom merge]
    split
    · split
      · exact .inl rfl
      · exact (mergedFrom.value id field).imp_right fun ⟨layer, member, same⟩ =>
          ⟨layer, List.mem_cons_of_mem _ member, same⟩
    · exact .inr ⟨upper, List.mem_cons_self, rfl⟩
  deletes := fun id => (merge.deletes id).trans (mergedFrom.deletes id)
  undoneFields := fun id => (merge.undoneFields id).trans (mergedFrom.undoneFields id)
  writable := fun id writable => merge.writable id (mergedFrom.writable id writable)
  deletedIDs := by
    intro id
    rw [merge.deletedIDs, mergedFrom.deletedIDs, List.exists_mem_cons_iff, or_comm]
  hiddenIDs := by
    intro field entry
    rw [merged_hiddenIDs faithful mergedFrom merge, mergedFrom.hiddenIDs,
      List.exists_mem_cons_iff]
  operations := by
    intro id field operation member
    rw [List.exists_mem_cons_iff]
    exact (merged_operation merge member).imp_right fun inLower =>
      mergedFrom.operations id field operation inLower
  tracked := by
    intro target id field named baseKept
    have value := merged_value faithful mergedFrom merge id field
    cases deleted : upper.deletes id with
    | true =>
        rw [deleted] at value
        have notList := faithful.deletedLists id field (by rw [baseKept, deleted]; decide)
        by_cases unset : upper.value id field = .undefined
        · refine .inl ⟨by simpa [unset] using value, ?_⟩
          exact faithful.deletedRecords target id named deleted baseKept
        · refine .inr fun impossible => ?_
          rw [value, if_neg unset, notList] at impossible
          exact absurd impossible (by simp [unset])
    | false =>
        rw [deleted] at value
        by_cases unset : upper.value id field = .undefined
        · have sameValue : merged.value id field = lower.value id field := by
            simpa [unset] using value
          rw [sameValue]
          exact (mergedFrom.tracked target id field named baseKept).imp_right fun tracks kind =>
            (tracks kind).of_unset named merge unset sameValue
        · have sameValue : merged.value id field = upper.value id field := by
            rw [value, if_neg unset]
          refine .inr fun kind => ?_
          rw [sameValue] at kind
          have stored := kind.resolve_left unset
          exact Tracks.of_list named
            (faithful.lists target id field named baseKept deleted stored) mergedFrom merge stored
            sameValue

end Merging

end Houdini.Runtime.Cache
