import Houdini.Runtime.Cache.CompactionProperties

/-! What merging one layer into another leaves behind, component by component. -/

set_option autoImplicit false

namespace Houdini.Runtime.Cache

namespace ListOperation

/-- The operations left when a link to these values is written: their removes
are undone. -/
def undone (linked : List GraphQLValue) (operations : List ListOperation) :
    List ListOperation :=
  operations.filter fun operation =>
    !operation.isRemove || !linked.contains (.string operation.target)

theorem undone_nil (operations : List ListOperation) : undone [] operations = operations := by
  simp [undone]

theorem undone_undone (first second : List GraphQLValue) (operations : List ListOperation) :
    undone second (undone first operations) = undone (first ++ second) operations := by
  rw [undone, undone, undone, List.filter_filter]
  refine List.filter_congr fun operation _ => ?_
  cases operation.isRemove <;> simp [Bool.and_comm]

theorem undone_congr {linked other : List GraphQLValue} (operations : List ListOperation)
    (same : ∀ value, value ∈ linked ↔ value ∈ other) :
    undone linked operations = undone other operations := by
  refine List.filter_congr fun operation _ => ?_
  simp [List.contains_eq_mem, same]

theorem undone_subset {linked : List GraphQLValue} {operations : List ListOperation}
    {operation : ListOperation} (member : operation ∈ undone linked operations) :
    operation ∈ operations :=
  (List.mem_filter.mp member).1

theorem removes_undone {linked : List GraphQLValue} {operations : List ListOperation}
    {id : String} :
    Removes (undone linked operations) id ↔ Removes operations id ∧ .string id ∉ linked := by
  simp [Removes, undone, isRemove, target]

theorem inserts_undone {linked : List GraphQLValue} {operations : List ListOperation}
    {id : String} : Inserts (undone linked operations) id ↔ Inserts operations id := by
  simp [Inserts, undone, isRemove]

end ListOperation

namespace Layer

/-- The entry of the record, if there is one, can hold list operations. -/
def Writable (layer : Layer) (id : String) : Prop :=
  ∀ operations, layer.operations.get? id = some operations → operations.fields.isSome = true

def undoneFields (layer : Layer) (id : String) : Option (List String) :=
  (layer.operations.get? id).bind (·.undoDeletesInList)

def linked (layer : Layer) (id field : String) : List GraphQLValue :=
  ((layer.links.getIn? id field).getD .undefined).flattenLinks

private def fieldList (operations : Option RecordOperations) (field : String) :
    List ListOperation :=
  ((operations.bind (·.fields)).bind (·.get? field)).getD []

private theorem listOperations_eq (layer : Layer) (id field : String) :
    layer.listOperations id field = fieldList (layer.operations.get? id) field := rfl

private theorem get?_append_fields (fields map : OrderedMap String (List ListOperation))
    (field : String) :
    ((map.entries.foldl (fun fields entry =>
      fields.set entry.1 ((fields.get? entry.1).getD [] ++ entry.2)) fields).get? field).getD [] =
        (fields.get? field).getD [] ++ (map.get? field).getD [] := by
  have observed := OrderedMap.observe_foldl_entries
    (fun field (fields : OrderedMap String (List ListOperation)) => (fields.get? field).getD [])
    (fun fields entry => fields.set entry.1 ((fields.get? entry.1).getD [] ++ entry.2))
    (fun _ operations current => current ++ operations)
    (fun fields field operations => by simp)
    (fun fields entry field different => by simp [different])
    map fields field
  rw [observed]
  cases map.get? field <;> simp

private theorem fieldList_eq (operations : Option RecordOperations) (field : String) :
    fieldList operations field =
      ((((operations.bind (·.fields)).getD ∅).get? field).getD []) := by
  unfold fieldList
  cases operations.bind (·.fields) <;> simp

theorem get?_mergeFieldOperations (upper lower : Option RecordOperations) (field : String) :
    ((mergeFieldOperations upper lower).get? field).getD [] =
      fieldList upper field ++ fieldList lower field := by
  rw [mergeFieldOperations, List.foldl_append, get?_append_fields, get?_append_fields,
    fieldList_eq, fieldList_eq]
  simp

/-- The entry that a record ends up with when another entry is merged into it. -/
private def mergeEntry (upper : RecordOperations) (lower : Option RecordOperations) :
    Option RecordOperations :=
  let fields := (mergeFieldOperations (some upper) lower).mapValues fun _ operations =>
    compactOperations operations
  if fields.isEmpty then lower else some { (lower.getD {}) with fields := some fields }

private theorem get?_mergeOperations_self (layer : Layer) (id : String)
    (upper : RecordOperations) :
    (layer.mergeOperations (id, upper)).operations.get? id =
      mergeEntry upper (layer.operations.get? id) := by
  unfold mergeOperations mergeEntry
  dsimp only
  split <;> split <;> simp_all

private theorem get?_mergeOperations_of_ne (layer : Layer) (entry : String × RecordOperations)
    (id : String) (different : id ≠ entry.1) :
    (layer.mergeOperations entry).operations.get? id = layer.operations.get? id := by
  unfold mergeOperations
  dsimp only
  split <;> split <;> simp [different]

private theorem fields_mergeOperations (layer : Layer) (entry : String × RecordOperations) :
    (layer.mergeOperations entry).fields =
      if entry.2.deleted then layer.fields.erase entry.1 else layer.fields := by
  unfold mergeOperations
  dsimp only
  split <;> split <;> rfl

private theorem links_mergeOperations (layer : Layer) (entry : String × RecordOperations) :
    (layer.mergeOperations entry).links =
      if entry.2.deleted then layer.links.erase entry.1 else layer.links := by
  unfold mergeOperations
  dsimp only
  split <;> split <;> rfl

private theorem fieldList_mergeEntry (upper : RecordOperations)
    (lower : Option RecordOperations) (field : String) :
    fieldList (mergeEntry upper lower) field =
      compactOperations (fieldList (some upper) field ++ fieldList lower field) := by
  have merged := get?_mergeFieldOperations (some upper) lower field
  unfold mergeEntry
  dsimp only
  split
  · rename_i empty
    have noEntries : (mergeFieldOperations (some upper) lower).get? field = none := by
      simp only [OrderedMap.isEmpty, OrderedMap.mapValues, List.isEmpty_iff,
        List.map_eq_nil_iff] at empty
      simp [OrderedMap.get?, empty]
    rw [noEntries, Option.getD_none, eq_comm, List.append_eq_nil_iff] at merged
    rw [merged.1, merged.2]
    rfl
  · rw [← merged]
    simp only [fieldList, Option.bind_some, OrderedMap.get?_mapValues]
    cases (mergeFieldOperations (some upper) lower).get? field <;> rfl

private theorem mergeEntry_deleted (upper : RecordOperations) (lower : Option RecordOperations) :
    ((mergeEntry upper lower).map (·.deleted)).getD false =
      (lower.map (·.deleted)).getD false := by
  unfold mergeEntry
  dsimp only
  split
  · rfl
  · cases lower <;> rfl

private theorem mergeEntry_undone (upper : RecordOperations) (lower : Option RecordOperations) :
    (mergeEntry upper lower).bind (·.undoDeletesInList) =
      lower.bind (·.undoDeletesInList) := by
  unfold mergeEntry
  dsimp only
  split
  · rfl
  · cases lower <;> rfl

/-- The first phase of `writeLayer`. -/
def mergeAllOperations (this layer : Layer) : Layer :=
  layer.operations.entries.foldl mergeOperations this

private theorem get?_mergeAllOperations (this layer : Layer) (id : String) :
    (this.mergeAllOperations layer).operations.get? id =
      match layer.operations.get? id with
      | none => this.operations.get? id
      | some upper => mergeEntry upper (this.operations.get? id) := by
  have observed := OrderedMap.observe_foldl_entries
    (fun id (layer : Layer) => layer.operations.get? id) mergeOperations
    (fun _ upper lower => mergeEntry upper lower)
    (fun layer id upper => get?_mergeOperations_self layer id upper)
    (fun layer entry id different => get?_mergeOperations_of_ne layer entry id different)
    layer.operations this id
  rw [mergeAllOperations, observed]
  cases layer.operations.get? id <;> rfl

theorem listOperations_mergeAllOperations (this layer : Layer) (id field : String) :
    (this.mergeAllOperations layer).listOperations id field =
      if (layer.operations.get? id).isSome then
        compactOperations (layer.listOperations id field ++ this.listOperations id field)
      else this.listOperations id field := by
  simp only [listOperations_eq, get?_mergeAllOperations]
  cases layer.operations.get? id with
  | none => rfl
  | some upper => exact fieldList_mergeEntry upper _ field

theorem deletes_mergeAllOperations (this layer : Layer) (id : String) :
    (this.mergeAllOperations layer).deletes id = this.deletes id := by
  simp only [deletes, get?_mergeAllOperations]
  cases layer.operations.get? id with
  | none => rfl
  | some upper => exact mergeEntry_deleted upper _

theorem undoneFields_mergeAllOperations (this layer : Layer) (id : String) :
    (this.mergeAllOperations layer).undoneFields id = this.undoneFields id := by
  simp only [undoneFields, get?_mergeAllOperations]
  cases layer.operations.get? id with
  | none => rfl
  | some upper => exact mergeEntry_undone upper _

theorem Writable.mergeAllOperations {this : Layer} {id : String} (writable : this.Writable id)
    (layer : Layer) : (this.mergeAllOperations layer).Writable id := by
  intro operations found
  rw [get?_mergeAllOperations] at found
  cases held : layer.operations.get? id with
  | none =>
      rw [held] at found
      exact writable operations found
  | some upper =>
      rw [held] at found
      unfold mergeEntry at found
      dsimp only at found
      split at found
      · exact writable operations found
      · simp only [Option.some.injEq] at found
        simp [← found]

theorem getIn?_fields_mergeAllOperations (this layer : Layer) (id field : String) :
    (this.mergeAllOperations layer).fields.getIn? id field =
      if layer.deletes id then none else this.fields.getIn? id field := by
  have observed := OrderedMap.observe_foldl_entries
    (fun id (layer : Layer) => layer.fields.get? id) mergeOperations
    (fun _ (upper : RecordOperations) current => if upper.deleted then none else current)
    (fun layer id upper => by rw [fields_mergeOperations]; split <;> simp)
    (fun layer entry id different => by rw [fields_mergeOperations]; split <;> simp [different])
    layer.operations this id
  rw [OrderedMap.getIn?, mergeAllOperations, observed, OrderedMap.getIn?]
  cases held : layer.operations.get? id with
  | none => simp [deletes, held]
  | some upper => cases deleted : upper.deleted <;> simp [deletes, held, deleted]

theorem getIn?_links_mergeAllOperations (this layer : Layer) (id field : String) :
    (this.mergeAllOperations layer).links.getIn? id field =
      if layer.deletes id then none else this.links.getIn? id field := by
  have observed := OrderedMap.observe_foldl_entries
    (fun id (layer : Layer) => layer.links.get? id) mergeOperations
    (fun _ (upper : RecordOperations) current => if upper.deleted then none else current)
    (fun layer id upper => by rw [links_mergeOperations]; split <;> simp)
    (fun layer entry id different => by rw [links_mergeOperations]; split <;> simp [different])
    layer.operations this id
  rw [OrderedMap.getIn?, mergeAllOperations, observed, OrderedMap.getIn?]
  cases held : layer.operations.get? id with
  | none => simp [deletes, held]
  | some upper => cases deleted : upper.deleted <;> simp [deletes, held, deleted]

private theorem unchanged_mergeOperations (layer : Layer) (entry : String × RecordOperations) :
    (layer.mergeOperations entry).id = layer.id ∧
      (layer.mergeOperations entry).optimistic = layer.optimistic ∧
      (layer.mergeOperations entry).deletedIDs = layer.deletedIDs := by
  unfold mergeOperations
  dsimp only
  split <;> split <;> exact ⟨rfl, rfl, rfl⟩

theorem unchanged_mergeAllOperations (this layer : Layer) :
    (this.mergeAllOperations layer).id = this.id ∧
      (this.mergeAllOperations layer).optimistic = this.optimistic ∧
      (this.mergeAllOperations layer).deletedIDs = this.deletedIDs := by
  unfold mergeAllOperations
  generalize layer.operations.entries = entries
  induction entries generalizing this with
  | nil => exact ⟨rfl, rfl, rfl⟩
  | cons entry rest ih =>
      have step := unchanged_mergeOperations this entry
      have after := ih (this.mergeOperations entry)
      exact ⟨after.1.trans step.1, after.2.1.trans step.2.1, after.2.2.trans step.2.2⟩

/-- Apart from its links, a layer only lost the removes of the values that are
linked from each list. -/
structure Undeleted (layer written : Layer) (linked : String → String → List GraphQLValue) :
    Prop where
  id : written.id = layer.id
  optimistic : written.optimistic = layer.optimistic
  fields : written.fields = layer.fields
  deletedIDs : written.deletedIDs = layer.deletedIDs
  deletes : ∀ target, written.deletes target = layer.deletes target
  undoneFields : ∀ target, written.undoneFields target = layer.undoneFields target
  writable : ∀ target, layer.Writable target → written.Writable target
  listOperations : ∀ target field, written.listOperations target field =
    ListOperation.undone (linked target field) (layer.listOperations target field)

def linkedFrom (record list : String) (values : List GraphQLValue) (target field : String) :
    List GraphQLValue :=
  if target = record ∧ field = list then values else []

theorem Undeleted.isDeleted {layer written : Layer}
    {linked : String → String → List GraphQLValue} (undeleted : Undeleted layer written linked)
    (value : GraphQLValue) : written.isDeleted value = layer.isDeleted value := by
  have deletes := undeleted.deletes value.propertyKey
  unfold Layer.deletes at deletes
  unfold Layer.isDeleted
  rw [deletes, undeleted.deletedIDs]

theorem Undeleted.of_unchanged {layer : Layer} {linked : String → String → List GraphQLValue}
    (unchanged : ∀ target field,
      ListOperation.undone (linked target field) (layer.listOperations target field) =
        layer.listOperations target field) : Undeleted layer layer linked where
  id := rfl
  optimistic := rfl
  fields := rfl
  deletedIDs := rfl
  deletes := fun _ => rfl
  undoneFields := fun _ => rfl
  writable := fun _ writable => writable
  listOperations := fun target field => (unchanged target field).symm

theorem Undeleted.trans {layer middle written : Layer}
    {first second : String → String → List GraphQLValue} (upper : Undeleted layer middle first)
    (lower : Undeleted middle written second) :
    Undeleted layer written fun target field => first target field ++ second target field where
  id := lower.id.trans upper.id
  optimistic := lower.optimistic.trans upper.optimistic
  fields := lower.fields.trans upper.fields
  deletedIDs := lower.deletedIDs.trans upper.deletedIDs
  deletes := fun target => (lower.deletes target).trans (upper.deletes target)
  undoneFields := fun target => (lower.undoneFields target).trans (upper.undoneFields target)
  writable := fun target writable => lower.writable target (upper.writable target writable)
  listOperations := by
    intro target field
    rw [lower.listOperations, upper.listOperations, ListOperation.undone_undone]

theorem Undeleted.withLinks {layer written : Layer}
    {linked : String → String → List GraphQLValue} (undeleted : Undeleted layer written linked)
    (links : EntityMap GraphQLValue) : Undeleted layer { written with links } linked :=
  { undeleted with }

private theorem undone_linkedFrom_of_noRemoves {layer : Layer} {id field : String}
    {values : List GraphQLValue} (none : layer.listOperations id field = []) (target list : String) :
    ListOperation.undone (linkedFrom id field values target list)
      (layer.listOperations target list) = layer.listOperations target list := by
  unfold linkedFrom
  split
  · rename_i same
    rw [same.1, same.2, none]
    rfl
  · exact ListOperation.undone_nil _

private theorem undoRemove_undeleted {layer : Layer} {id field : String}
    {value : GraphQLValue} {entry : RecordOperations}
    {fields : OrderedMap String (List ListOperation)} {operations : List ListOperation}
    (found : layer.operations.get? id = some entry) (held : entry.fields = some fields)
    (listed : fields.get? field = some operations) :
    Undeleted layer (layer.undoRemove id field value operations)
      (linkedFrom id field [value]) where
  id := rfl
  optimistic := rfl
  fields := rfl
  deletedIDs := rfl
  deletes := by
    intro target
    by_cases same : target = id
    · subst same
      simp [deletes, undoRemove, found]
    · simp [deletes, undoRemove, same]
  undoneFields := by
    intro target
    by_cases same : target = id
    · subst same
      simp [undoneFields, undoRemove, found]
    · simp [undoneFields, undoRemove, same]
  writable := by
    intro target writable entry' found'
    by_cases same : target = id
    · subst same
      simp only [undoRemove, OrderedMap.get?_set_self, Option.some.injEq] at found'
      simp [← found']
    · simp only [undoRemove, OrderedMap.get?_set_of_ne _ _ same] at found'
      exact writable entry' found'
  listOperations := by
    intro target list
    have current : layer.listOperations id field = operations := by
      simp [Layer.listOperations, found, held, listed]
    unfold linkedFrom
    by_cases same : target = id
    · subst same
      by_cases sameList : list = field
      · subst sameList
        rw [if_pos ⟨rfl, rfl⟩, current]
        simp only [Layer.listOperations, undoRemove, OrderedMap.get?_set_self, Option.bind_some,
          Option.getD_some, ListOperation.undone]
        refine List.filter_congr fun operation _ => ?_
        rw [List.contains_eq_mem, Bool.eq_iff_iff]
        simp
      · rw [if_neg fun both => sameList both.2, ListOperation.undone_nil]
        simp [Layer.listOperations, undoRemove, found, held, sameList]
    · rw [if_neg fun both => same both.1, ListOperation.undone_nil]
      simp [Layer.listOperations, undoRemove, same]

theorem undelete_undeleted {layer : Layer} {id : String} (field : String) {value : GraphQLValue}
    (writable : layer.Writable id) (present : layer.isDeleted value = false) :
    ∃ written, layer.undelete id field value = .ok written ∧ written.links = layer.links ∧
      Undeleted layer written (linkedFrom id field [value]) := by
  unfold undelete
  cases found : layer.operations.get? id with
  | none =>
      refine ⟨layer, by simp [fieldOperations, found, present]; rfl, rfl, ?_⟩
      exact .of_unchanged (undone_linkedFrom_of_noRemoves (by simp [listOperations, found]))
  | some entry =>
      obtain ⟨fields, held⟩ := Option.isSome_iff_exists.mp (writable entry found)
      have looked : layer.fieldOperations id field = .ok (fields.get? field) := by
        simp [fieldOperations, found, held]
      rw [looked]
      cases listed : fields.get? field with
      | none =>
          refine ⟨layer, by simp [present, bind, Except.bind]; rfl, rfl, ?_⟩
          exact .of_unchanged
            (undone_linkedFrom_of_noRemoves (by simp [listOperations, found, held, listed]))
      | some operations =>
          cases operations with
          | nil =>
              refine ⟨layer, by simp [present, bind, Except.bind]; rfl, rfl, ?_⟩
              exact .of_unchanged
                (undone_linkedFrom_of_noRemoves (by simp [listOperations, found, held, listed]))
          | cons operation rest =>
              exact ⟨layer.undoRemove id field value (operation :: rest),
                by simp [present, bind, Except.bind]; rfl, rfl,
                undoRemove_undeleted found held listed⟩

private theorem linkedFrom_cons (id field : String) (element : GraphQLValue)
    (rest : List GraphQLValue) :
    linkedFrom id field (element :: rest) = fun target list =>
      linkedFrom id field [element] target list ++ linkedFrom id field rest target list := by
  funext target list
  unfold linkedFrom
  split <;> rfl

private theorem undeleteAll_undeleted {id field : String} (value : GraphQLValue)
    {linked : List GraphQLValue} {layer : Layer} (writable : linked ≠ [] → layer.Writable id)
    (present : ∀ element ∈ linked, layer.isDeleted element = false) :
    ∃ written, writeLink.undeleteAll id field value layer linked = .ok () written ∧
      written.links = layer.links.setIn id field value ∧
      Undeleted layer written (linkedFrom id field linked) := by
  induction linked generalizing layer with
  | nil =>
      refine ⟨_, rfl, rfl, Undeleted.withLinks (.of_unchanged fun target list => ?_) _⟩
      simp [linkedFrom, ListOperation.undone_nil]
  | cons element rest ih =>
      have writableHere := writable (List.cons_ne_nil _ _)
      obtain ⟨middle, first, sameLinks, upper⟩ :=
        undelete_undeleted field writableHere (present element List.mem_cons_self)
      obtain ⟨written, others, links, lower⟩ :=
        ih (fun _ => upper.writable id writableHere) fun other member => by
          rw [upper.isDeleted]
          exact present other (List.mem_cons_of_mem _ member)
      refine ⟨written, ?_, links.trans (by rw [sameLinks]), ?_⟩
      · rw [writeLink.undeleteAll, first]
        exact others
      · rw [linkedFrom_cons]
        exact upper.trans lower

theorem writeLink_undeleted {layer : Layer} {id field : String} {value : GraphQLValue}
    (writable : value.flattenLinks ≠ [] → layer.Writable id)
    (present : ∀ element ∈ value.flattenLinks, layer.isDeleted element = false) :
    ∃ written, layer.writeLink id field value = .ok () written ∧
      written.links = layer.links.setIn id field value ∧
      Undeleted layer written (linkedFrom id field value.flattenLinks) :=
  undeleteAll_undeleted value writable present

def linkedIn (entries : List (String × String × GraphQLValue)) (target field : String) :
    List GraphQLValue :=
  entries.flatMap fun entry => linkedFrom entry.1 entry.2.1 entry.2.2.flattenLinks target field

theorem mem_linkedIn_entriesIn (layer : Layer) (target field : String) (value : GraphQLValue) :
    value ∈ linkedIn layer.links.entriesIn target field ↔ value ∈ layer.linked target field := by
  simp only [linkedIn, linked, List.mem_flatMap, Prod.exists]
  constructor
  · rintro ⟨record, list, link, member, present⟩
    rw [OrderedMap.mem_entriesIn] at member
    unfold linkedFrom at present
    split at present
    · rename_i same
      obtain ⟨rfl, rfl⟩ := same
      rw [member]
      exact present
    · cases present
  · intro present
    cases found : layer.links.getIn? target field with
    | none =>
        rw [found] at present
        simp [GraphQLValue.flattenLinks, GraphQLValue.flatten, GraphQLValue.flattenEntry,
          GraphQLValue.truthy] at present
    | some link =>
        rw [found] at present
        refine ⟨target, field, link, OrderedMap.mem_entriesIn.mpr found, ?_⟩
        simpa [linkedFrom] using present

theorem writeLinks_undeleted (layer : Layer) (entries : List (String × String × GraphQLValue))
    (writable : ∀ id field value, (id, field, value) ∈ entries →
      value.flattenLinks ≠ [] → layer.Writable id)
    (present : ∀ id field value, (id, field, value) ∈ entries →
      ∀ element ∈ value.flattenLinks, layer.isDeleted element = false) :
    ∃ written, layer.writeLinks entries = .ok () written ∧
      written.links = layer.links.setAllIn entries ∧
      Undeleted layer written (linkedIn entries) := by
  induction entries generalizing layer with
  | nil =>
      exact ⟨layer, rfl, rfl, .of_unchanged fun _ _ => ListOperation.undone_nil _⟩
  | cons entry rest ih =>
      obtain ⟨id, field, value⟩ := entry
      obtain ⟨middle, first, middleLinks, upper⟩ :=
        writeLink_undeleted (writable id field value List.mem_cons_self)
          (present id field value List.mem_cons_self)
      obtain ⟨written, others, links, lower⟩ :=
        ih middle
          (fun id field value member linked => upper.writable id
            (writable id field value (List.mem_cons_of_mem _ member) linked))
          (fun id field value member element linked => by
            rw [upper.isDeleted]
            exact present id field value (List.mem_cons_of_mem _ member) element linked)
      refine ⟨written, ?_, links.trans (by rw [middleLinks]; rfl), upper.trans lower⟩
      rw [writeLinks, first]
      exact others

structure Merged (lower upper merged : Layer) : Prop where
  id : merged.id = lower.id
  optimistic : merged.optimistic = lower.optimistic
  fields : ∀ target field, merged.fields.getIn? target field =
    (upper.fields.getIn? target field).or
      (if upper.deletes target then none else lower.fields.getIn? target field)
  links : ∀ target field, merged.links.getIn? target field =
    (upper.links.getIn? target field).or
      (if upper.deletes target then none else lower.links.getIn? target field)
  deletes : ∀ target, merged.deletes target = lower.deletes target
  undoneFields : ∀ target, merged.undoneFields target = lower.undoneFields target
  deletedIDs : ∀ target, target ∈ merged.deletedIDs ↔
    target ∈ lower.deletedIDs ∨ target ∈ upper.deletedIDs
  writable : ∀ target, lower.Writable target → merged.Writable target
  listOperations : ∀ target field, merged.listOperations target field =
    ListOperation.undone (upper.linked target field)
      (if (upper.operations.get? target).isSome then
        compactOperations
          (upper.listOperations target field ++ lower.listOperations target field)
      else lower.listOperations target field)

private theorem mem_foldl_addDeletedID (ids : List String) (layer : Layer) (target : String) :
    target ∈ (ids.foldl addDeletedID layer).deletedIDs ↔
      target ∈ layer.deletedIDs ∨ target ∈ ids := by
  induction ids generalizing layer with
  | nil => simp
  | cons id rest ih =>
      rw [List.foldl_cons, ih, List.mem_cons]
      have step : target ∈ (layer.addDeletedID id).deletedIDs ↔
          target ∈ layer.deletedIDs ∨ target = id := by
        unfold addDeletedID
        dsimp only
        split
        · rename_i present
          have member : id ∈ layer.deletedIDs := by simpa using present
          exact ⟨.inl, fun either => either.elim (fun older => older) fun same => same ▸ member⟩
        · simp
      rw [step, or_assoc]

theorem foldl_addDeletedID (ids : List String) (layer : Layer) :
    ∃ deletedIDs, ids.foldl addDeletedID layer = { layer with deletedIDs } := by
  induction ids generalizing layer with
  | nil => exact ⟨layer.deletedIDs, rfl⟩
  | cons id rest ih =>
      obtain ⟨deletedIDs, result⟩ := ih (layer.addDeletedID id)
      exact ⟨deletedIDs, result⟩

theorem writeLayer_merged {lower upper : Layer} (distinct : upper.id ≠ lower.id)
    (writable : ∀ target field, upper.linked target field ≠ [] → lower.Writable target)
    (present : ∀ target field, ∀ value ∈ upper.linked target field,
      lower.isDeleted value = false) :
    ∃ merged, lower.writeLayer upper = .ok () merged ∧ Merged lower upper merged := by
  obtain ⟨sameID, sameOptimistic, sameDeleted⟩ := unchanged_mergeAllOperations lower upper
  let written : Layer :=
    { lower.mergeAllOperations upper with
      fields := (lower.mergeAllOperations upper).fields.setAllIn upper.fields.entriesIn }
  have linkedEntry : ∀ id field value, (id, field, value) ∈ upper.links.entriesIn →
      value.flattenLinks = upper.linked id field := by
    intro id field value member
    rw [linked, OrderedMap.mem_entriesIn.mp member]
    rfl
  have keptDeleted (value : GraphQLValue) : written.isDeleted value = lower.isDeleted value := by
    have deletes := deletes_mergeAllOperations lower upper value.propertyKey
    unfold Layer.deletes at deletes
    simp only [Layer.isDeleted, written, deletes, sameDeleted]
  obtain ⟨result, success, links, undeleted⟩ :=
    writeLinks_undeleted written upper.links.entriesIn
      (fun id field value member linked =>
        (writable id field (linkedEntry id field value member ▸ linked)).mergeAllOperations upper)
      (fun id field value member element linked => by
        rw [keptDeleted]
        exact present id field element (linkedEntry id field value member ▸ linked))
  refine ⟨upper.deletedIDs.foldl addDeletedID result, ?_, ?_⟩
  · rw [writeLayer, if_neg distinct]
    dsimp only
    dsimp only [written, mergeAllOperations] at success
    rw [success]
  · obtain ⟨deletedIDs, extended⟩ := foldl_addDeletedID upper.deletedIDs result
    have members := mem_foldl_addDeletedID upper.deletedIDs result
    rw [extended] at members ⊢
    exact {
      id := undeleted.id.trans sameID
      optimistic := undeleted.optimistic.trans sameOptimistic
      fields := by
        intro target field
        change result.fields.getIn? target field = _
        rw [undeleted.fields, ← getIn?_fields_mergeAllOperations]
        exact OrderedMap.getIn?_setAllIn_entriesIn _ _ target field
      links := by
        intro target field
        change result.links.getIn? target field = _
        rw [links, ← getIn?_links_mergeAllOperations]
        exact OrderedMap.getIn?_setAllIn_entriesIn _ _ target field
      deletes := fun target =>
        (undeleted.deletes target).trans (deletes_mergeAllOperations lower upper target)
      undoneFields := fun target =>
        (undeleted.undoneFields target).trans (undoneFields_mergeAllOperations lower upper target)
      deletedIDs := by
        intro target
        rw [members, undeleted.deletedIDs, ← sameDeleted]
      writable := fun target held =>
        undeleted.writable target (held.mergeAllOperations upper)
      listOperations := by
        intro target field
        refine (undeleted.listOperations target field).trans ?_
        rw [ListOperation.undone_congr _ fun value =>
          mem_linkedIn_entriesIn upper target field value]
        exact congrArg _ (listOperations_mergeAllOperations lower upper target field) }

end Layer

end Houdini.Runtime.Cache
