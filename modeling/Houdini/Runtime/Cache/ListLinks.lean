import Houdini.Runtime.Cache.FaithfulMerge
import Houdini.Runtime.Cache.StorageRuns

/-! What a layer shows for a field once a list of records is linked there, whatever operations
and deletes it holds. -/

set_option autoImplicit false

namespace Houdini.Runtime.Cache

theorem flattenLinks_strings {ids : List String} (named : ∀ id ∈ ids, id ≠ "") :
    (GraphQLValue.array (ids.map .string)).flattenLinks = ids.map .string := by
  change GraphQLValue.flatten (ids.map .string) = ids.map .string
  induction ids with
  | nil => rfl
  | cons id rest ih =>
      have truthy : (GraphQLValue.string id).truthy = true := by
        simp [GraphQLValue.truthy, named id List.mem_cons_self]
      have entry : GraphQLValue.flattenEntry (.string id) = [.string id] := by
        rw [GraphQLValue.flattenEntry, if_pos truthy]
        intro _ same
        cases same
      rw [List.map_cons, GraphQLValue.flatten, entry,
        ih fun other member => named other (List.mem_cons_of_mem _ member)]
      rfl

namespace Layer

/-- The records that the layer deletes are shown again in lists under this field, and the others
lose the operations that remove them from this list. -/
structure Relinked (layer written : Layer) (parent field : String) (ids : List String) :
    Prop where
  header : written.header = layer.header
  fields : written.fields = layer.fields
  deletedIDs : written.deletedIDs = layer.deletedIDs
  deletes : ∀ target, written.deletes target = layer.deletes target
  undoesDelete : ∀ target, written.undoesDelete target field =
    (layer.undoesDelete target field ||
      (ids.contains target && layer.isDeleted (.string target)))
  listOperations : ∀ target name, written.listOperations target name =
    ListOperation.undone (linkedFrom parent field
      ((ids.filter fun id => !layer.isDeleted (.string id)).map .string) target name)
      (layer.listOperations target name)

/-- The entry of the record can be read for every id but the first one, which can create it. -/
structure Linkable (layer : Layer) (parent : String) (ids : List String) : Prop where
  writable : layer.Writable parent
  created : layer.operations.get? parent = none → layer.isDeleted (.string parent) = true →
    parent ∉ ids.dropLast

theorem isDeleted_congr {layer written : Layer} {value : GraphQLValue}
    (deletes : ∀ target, written.deletes target = layer.deletes target)
    (deletedIDs : written.deletedIDs = layer.deletedIDs) :
    written.isDeleted value = layer.isDeleted value := by
  have same := deletes value.propertyKey
  unfold Layer.deletes at same
  unfold Layer.isDeleted
  rw [same, deletedIDs]

section Undelete

variable {layer written : Layer} {parent field : String}

theorem undelete_ok_iff {value : GraphQLValue} :
    (∃ written, layer.undelete parent field value = .ok written) ↔ layer.Writable parent := by
  unfold undelete Writable fieldOperations
  cases found : layer.operations.get? parent with
  | none =>
      simp only [bind, Except.bind, reduceCtorEq, false_implies, implies_true, iff_true]
      split <;> exact ⟨_, rfl⟩
  | some entry =>
      cases held : entry.fields with
      | none => simp [bind, Except.bind, held]
      | some fields =>
          simp only [bind, Except.bind, Option.some.injEq, forall_eq', held, Option.isSome_some,
            iff_true]
          split
          · exact ⟨_, rfl⟩
          · split <;> exact ⟨_, rfl⟩

theorem undoDelete_relinked {id : String} (deleted : layer.isDeleted (.string id) = true) :
    Relinked layer (layer.undoDelete parent field id) parent field [id] where
  header := rfl
  fields := rfl
  deletedIDs := rfl
  deletes := by
    intro target
    by_cases same : target = id
    · subst same
      cases found : layer.operations.get? target <;> simp [Layer.deletes, undoDelete, found]
    · simp [Layer.deletes, undoDelete, same]
  undoesDelete := by
    intro target
    by_cases same : target = id
    · subst same
      simp [Layer.undoesDelete, undoDelete, deleted]
    · simp [Layer.undoesDelete, undoDelete, same]
  listOperations := by
    intro target name
    have none : ([id].filter fun id => !layer.isDeleted (.string id)) = [] := by
      simp [deleted]
    have unlinked : linkedFrom parent field (([] : List String).map .string) target name = [] := by
      unfold linkedFrom
      split <;> rfl
    rw [none, unlinked, ListOperation.undone_nil]
    by_cases same : target = id
    · subst same
      cases found : layer.operations.get? target <;>
        simp [Layer.listOperations, undoDelete, found]
    · simp [Layer.listOperations, undoDelete, same]

theorem undelete_relinked {id : String}
    (success : layer.undelete parent field (.string id) = .ok written) :
    Relinked layer written parent field [id] := by
  have writable : layer.Writable parent := undelete_ok_iff.mp ⟨written, success⟩
  cases deleted : layer.isDeleted (.string id) with
  | true =>
      have same : written = layer.undoDelete parent field id := by
        unfold undelete at success
        cases looked : layer.fieldOperations parent field with
        | error error => simp [looked, bind, Except.bind] at success
        | ok operations =>
            simp only [looked, bind, Except.bind, deleted, if_true] at success
            exact (Except.ok.inj success).symm
      rw [same]
      exact undoDelete_relinked deleted
  | false =>
      obtain ⟨other, result, _, undeleted⟩ := undelete_undeleted field writable deleted
      have same : written = other := Except.ok.inj (success.symm.trans result)
      rw [same]
      have kept : ([id].filter fun id => !layer.isDeleted (.string id)) = [id] := by
        simp [deleted]
      exact
        { header := Prod.ext undeleted.id undeleted.optimistic
          fields := undeleted.fields
          deletedIDs := undeleted.deletedIDs
          deletes := undeleted.deletes
          undoesDelete := by
            intro target
            have unchanged : other.undoesDelete target field = layer.undoesDelete target field :=
              congrArg (fun undone : Option (List String) => (undone.getD []).contains field)
                (undeleted.undoneFields target)
            rw [unchanged]
            by_cases named : target = id
            · simp [named, deleted]
            · simp [named]
          listOperations := by
            intro target name
            rw [kept]
            exact undeleted.listOperations target name }

theorem undelete_links {value : GraphQLValue}
    (success : layer.undelete parent field value = .ok written) : written.links = layer.links := by
  unfold undelete at success
  cases looked : layer.fieldOperations parent field with
  | error error => simp [looked, bind, Except.bind] at success
  | ok operations =>
      simp only [looked, bind, Except.bind] at success
      split at success
      · rw [← Except.ok.inj success]
        rfl
      · split at success
        · rw [← Except.ok.inj success]
        · rw [← Except.ok.inj success]
        · rw [← Except.ok.inj success]
          rfl

theorem linkable_cons {id : String} {rest : List String} (more : rest ≠ [])
    (success : layer.undelete parent field (.string id) = .ok written) :
    Linkable written parent rest ↔ Linkable layer parent (id :: rest) := by
  have writable : layer.Writable parent := undelete_ok_iff.mp ⟨written, success⟩
  have relinked := undelete_relinked success
  have sameDeleted := @isDeleted_congr _ _ (.string parent) relinked.deletes relinked.deletedIDs
  have members : (id :: rest).dropLast = id :: rest.dropLast := List.dropLast_cons_of_ne_nil more
  cases deleted : layer.isDeleted (.string id) with
  | true =>
      have same : written = layer.undoDelete parent field id := by
        unfold undelete at success
        cases looked : layer.fieldOperations parent field with
        | error error => simp [looked, bind, Except.bind] at success
        | ok operations =>
            simp only [looked, bind, Except.bind, deleted, if_true] at success
            exact (Except.ok.inj success).symm
      by_cases own : parent = id
      · subst own
        cases found : layer.operations.get? parent with
        | none =>
            constructor
            · intro linkable
              have entry : written.operations.get? parent =
                  some { undoDeletesInList := some ([] ++ [field]) } := by
                rw [same]
                simp [undoDelete, found]
              exact absurd (linkable.writable _ entry) (by simp)
            · intro linkable
              refine absurd ?_ (linkable.created found deleted)
              rw [members]
              exact List.mem_cons_self
        | some entry =>
            have held := writable entry found
            have kept : ∃ other, written.operations.get? parent = some other ∧
                other.fields = entry.fields := by
              rw [same]
              simp [undoDelete, found]
            obtain ⟨other, present, sameFields⟩ := kept
            constructor
            · intro _
              exact ⟨writable, fun missing => by rw [found] at missing; cases missing⟩
            · intro _
              refine ⟨?_, fun missing => by rw [present] at missing; cases missing⟩
              intro current looked
              rw [present] at looked
              rw [← Option.some.inj looked, sameFields]
              exact held
      · have unchanged : written.operations.get? parent = layer.operations.get? parent := by
          rw [same]
          simp [undoDelete, own]
        constructor
        · intro linkable
          refine ⟨writable, fun missing gone => ?_⟩
          rw [members, List.mem_cons, not_or]
          exact ⟨own, linkable.created (unchanged.trans missing) (sameDeleted.trans gone)⟩
        · intro linkable
          refine ⟨?_, fun missing gone member => ?_⟩
          · intro entry found
            exact writable entry (unchanged.symm.trans found)
          · refine linkable.created (unchanged.symm.trans missing) (sameDeleted.symm.trans gone) ?_
            rw [members]
            exact List.mem_cons_of_mem _ member
  | false =>
      obtain ⟨other, result, _, undeleted⟩ := undelete_undeleted field writable deleted
      have same : written = other := Except.ok.inj (success.symm.trans result)
      have stillWritable : written.Writable parent := by
        rw [same]
        exact undeleted.writable parent writable
      cases found : layer.operations.get? parent with
      | none =>
          have unchanged : written = layer := by
            simp only [undelete, fieldOperations, found, bind, Except.bind, deleted,
              Bool.false_eq_true, if_false] at success
            exact (Except.ok.inj success).symm
          rw [unchanged]
          constructor
          · intro linkable
            refine ⟨writable, fun missing gone => ?_⟩
            rw [members, List.mem_cons, not_or]
            refine ⟨?_, linkable.created missing gone⟩
            intro own
            rw [own, deleted] at gone
            cases gone
          · intro linkable
            refine ⟨writable, fun missing gone member => ?_⟩
            refine linkable.created missing gone ?_
            rw [members]
            exact List.mem_cons_of_mem _ member
      | some entry =>
          have present : written.operations.get? parent ≠ none := by
            intro missing
            obtain ⟨fields, held⟩ := Option.isSome_iff_exists.mp (writable entry found)
            simp only [undelete, fieldOperations, found, held, bind, Except.bind, deleted,
              Bool.false_eq_true, if_false] at success
            split at success
            · rw [← Except.ok.inj success, found] at missing
              cases missing
            · rw [← Except.ok.inj success, found] at missing
              cases missing
            · rw [← Except.ok.inj success] at missing
              simp [undoRemove] at missing
          constructor
          · intro _
            exact ⟨writable, fun missing => by rw [found] at missing; cases missing⟩
          · intro _
            exact ⟨stillWritable, fun missing => absurd missing present⟩

end Undelete

theorem Relinked.trans {layer middle written : Layer} {parent field id : String}
    {rest : List String} (first : Relinked layer middle parent field [id])
    (others : Relinked middle written parent field rest) :
    Relinked layer written parent field (id :: rest) where
  header := others.header.trans first.header
  fields := others.fields.trans first.fields
  deletedIDs := others.deletedIDs.trans first.deletedIDs
  deletes := fun target => (others.deletes target).trans (first.deletes target)
  undoesDelete := by
    intro target
    rw [others.undoesDelete, first.undoesDelete,
      isDeleted_congr first.deletes first.deletedIDs, List.contains_cons, List.contains_cons,
      List.contains_nil, Bool.or_false, Bool.or_assoc, Bool.and_or_distrib_right]
  listOperations := by
    intro target name
    have same : (rest.filter fun id => !middle.isDeleted (.string id)) =
        rest.filter fun id => !layer.isDeleted (.string id) :=
      List.filter_congr fun id _ => by rw [isDeleted_congr first.deletes first.deletedIDs]
    rw [others.listOperations, first.listOperations, ListOperation.undone_undone, same]
    congr 1
    unfold linkedFrom
    split
    · rw [← List.map_append, ← List.filter_append, List.singleton_append]
    · rfl

theorem Relinked.withLinks {layer written : Layer} {parent field : String} {ids : List String}
    (relinked : Relinked layer written parent field ids) (links : EntityMap GraphQLValue) :
    Relinked layer { written with links } parent field ids :=
  { relinked with }

theorem Relinked.refl (layer : Layer) (parent field : String) :
    Relinked layer layer parent field [] where
  header := rfl
  fields := rfl
  deletedIDs := rfl
  deletes := fun _ => rfl
  undoesDelete := fun _ => by simp
  listOperations := by
    intro target name
    have unlinked : linkedFrom parent field ((([] : List String).filter fun id =>
        !layer.isDeleted (.string id)).map .string) target name = [] := by
      unfold linkedFrom
      split <;> rfl
    rw [unlinked, ListOperation.undone_nil]

theorem undeleteAll_cases {parent field : String} {value : GraphQLValue}
    (ids : List String) (layer : Layer) :
    (∀ written, writeLink.undeleteAll parent field value layer (ids.map .string) = .ok () written →
      Relinked layer written parent field ids ∧
        written.links = layer.links.setIn parent field value) ∧
    ((∃ written, writeLink.undeleteAll parent field value layer (ids.map .string) =
      .ok () written) ↔ ids = [] ∨ Linkable layer parent ids) := by
  induction ids generalizing layer with
  | nil =>
      refine ⟨?_, fun _ => .inl rfl, fun _ => ⟨_, rfl⟩⟩
      intro written success
      cases success
      exact ⟨(Relinked.refl layer parent field).withLinks _, rfl⟩
  | cons id rest ih =>
      rw [List.map_cons]
      unfold writeLink.undeleteAll
      cases first : layer.undelete parent field (.string id) with
      | error error =>
          refine ⟨fun _ success => (by cases success), fun success => (by cases success.choose_spec), ?_⟩
          intro linkable
          obtain empty | linkable := linkable
          · cases empty
          · obtain ⟨written, success⟩ := undelete_ok_iff.mpr linkable.writable
            rw [first] at success
            cases success
      | ok middle =>
          obtain ⟨relinked, linked⟩ := ih middle
          have links := undelete_links first
          have start := undelete_relinked first
          constructor
          · intro written success
            obtain ⟨others, set⟩ := relinked written success
            exact ⟨start.trans others, by rw [set, links]⟩
          · rw [linked]
            have writable : layer.Writable parent := undelete_ok_iff.mp ⟨middle, first⟩
            by_cases last : rest = []
            · subst last
              refine ⟨fun _ => .inr ⟨writable, fun _ _ member =>
                absurd member List.not_mem_nil⟩, fun _ => .inl rfl⟩
            · rw [linkable_cons last first]
              simp [last]

theorem writeLink_relinked {layer written : Layer} {parent field : String} {ids : List String}
    (named : ∀ id ∈ ids, id ≠ "")
    (success : layer.writeLink parent field (.array (ids.map .string)) = .ok () written) :
    Relinked layer written parent field ids ∧
      written.links = layer.links.setIn parent field (.array (ids.map .string)) := by
  unfold writeLink at success
  rw [flattenLinks_strings named] at success
  exact (undeleteAll_cases ids layer).1 written success

theorem writeLink_ok_iff {layer : Layer} {parent field : String} {ids : List String}
    (named : ∀ id ∈ ids, id ≠ "") :
    (∃ written, layer.writeLink parent field (.array (ids.map .string)) = .ok () written) ↔
      ids = [] ∨ layer.Linkable parent ids := by
  unfold writeLink
  rw [flattenLinks_strings named]
  exact (undeleteAll_cases ids layer).2

/-- The ids that the deletes of the layer hide from lists under the field, but for the deletes of
the linked records. -/
def hiddenBeside (layer : Layer) (idMaps : OrderedMap String String) (field : String)
    (ids : List String) : List String :=
  { layer with deletedIDs := layer.deletedIDs.filter fun id => !ids.contains id }.hiddenIDs
    idMaps field

/-- The names of the record have one list in the layer, and no operation and no delete changes
it: a removed record is neither linked nor deleted, or is linked and not deleted, and an inserted
one is not shown. -/
structure ShowsLinked (layer : Layer) (idMaps : OrderedMap String String) (names : List String)
    (parent field : String) (ids : List String) : Prop where
  present : ∀ name ∈ names, layer.deletes name = false
  alone : ∀ name ∈ names, name ≠ parent → layer.value name field = .undefined
  visible : ∀ id ∈ ids, id ∉ layer.hiddenBeside idMaps field ids
  unremoved : ∀ id ∈ ids, ∀ name ∈ names,
    ListOperation.Removes (layer.listOperations name field) id →
      name = parent ∧ layer.isDeleted (.string id) = false
  inserted : ∀ name ∈ names, ∀ id, ListOperation.Inserts (layer.listOperations name field) id →
    id ∉ ids ∧ (id ∈ layer.hiddenBeside idMaps field ids ∨
      ∃ other ∈ names, ListOperation.Removes (layer.listOperations other field) id)

/-- Another name of the record has a list in the layer that comes to the same. -/
structure ShowsNamed (layer : Layer) (idMaps : OrderedMap String String) (name field : String)
    (ids : List String) : Prop where
  present : layer.deletes name = false
  same : ∃ shown, layer.value name field = .array shown ∧
    (ListPatch.comp { removed := (layer.hiddenBeside idMaps field ids).map .string }
      (ListOperation.patch (layer.listOperations name field))).apply shown = ids.map .string

section Reading

variable {layer written : Layer} {parent field : String} {ids : List String}

theorem Relinked.hiddenIDs (relinked : Relinked layer written parent field ids)
    (idMaps : OrderedMap String String) :
    written.hiddenIDs idMaps field = layer.hiddenBeside idMaps field ids := by
  have known (id : String) (member : id ∈ layer.deletedIDs) :
      layer.isDeleted (.string id) = true := by
    simp [isDeleted, member]
  change written.deletedIDs.flatMap (fun id =>
      if written.undoesDelete id field then []
      else id :: (idMaps.get? id).toList.filter (· != "")) =
    (layer.deletedIDs.filter fun id => !ids.contains id).flatMap fun id =>
      if layer.undoesDelete id field then []
      else id :: (idMaps.get? id).toList.filter (· != "")
  rw [relinked.deletedIDs]
  generalize layer.deletedIDs = deletedIDs at known
  induction deletedIDs with
  | nil => rfl
  | cons id rest ih =>
      have others := ih fun other member => known other (List.mem_cons_of_mem _ member)
      rw [List.flatMap_cons, others, relinked.undoesDelete, known id List.mem_cons_self,
        Bool.and_true, List.filter_cons]
      cases ids.contains id with
      | true => rw [Bool.or_true, if_pos rfl, if_neg (by decide), List.nil_append]
      | false =>
          have kept : (!false) = true := rfl
          rw [Bool.or_false, if_pos kept, List.flatMap_cons]

theorem Relinked.value (relinked : Relinked layer written parent field ids)
    (links : written.links = layer.links.setIn parent field (.array (ids.map .string)))
    (name : String) :
    written.value name field =
      if name = parent then .array (ids.map .string) else layer.value name field := by
  unfold Layer.value Layer.get
  rw [links, relinked.fields]
  by_cases same : name = parent
  · simp [same, OrderedMap.getIn?_setIn, GraphQLValue.isDefined]
  · simp [same, OrderedMap.getIn?_setIn]

private def remaining (layer : Layer) (parent field : String) (ids : List String)
    (name : String) : List ListOperation :=
  ListOperation.undone (linkedFrom parent field
    ((ids.filter fun id => !layer.isDeleted (.string id)).map .string) name field)
    (layer.listOperations name field)

private theorem inserts_remaining {name id : String} :
    ListOperation.Inserts (layer.remaining parent field ids name) id ↔
      ListOperation.Inserts (layer.listOperations name field) id :=
  ListOperation.inserts_undone

private theorem removes_remaining {name id : String} :
    ListOperation.Removes (layer.remaining parent field ids name) id ↔
      ListOperation.Removes (layer.listOperations name field) id ∧
        ¬ (name = parent ∧ id ∈ ids ∧ layer.isDeleted (.string id) = false) := by
  unfold remaining
  rw [ListOperation.removes_undone]
  refine and_congr_right fun _ => not_congr ?_
  unfold linkedFrom
  by_cases same : name = parent
  · simp [same]
  · simp [same]

/-- What is left of the operations for a name, after what the deletes hide. -/
private def remainingPatch (layer : Layer) (idMaps : OrderedMap String String)
    (parent field : String) (ids : List String) (name : String) : ListPatch GraphQLValue :=
  ListPatch.comp { removed := (layer.hiddenBeside idMaps field ids).map .string }
    (ListOperation.patch (layer.remaining parent field ids name))

private theorem Relinked.view (relinked : Relinked layer written parent field ids)
    (links : written.links = layer.links.setIn parent field (.array (ids.map .string)))
    (idMaps : OrderedMap String String) (name : String) :
    written.view idMaps name field =
      { stored := if name = parent then .list (ids.map .string)
          else storedCell (layer.value name field)
        deletes := layer.deletes name
        patch := layer.remainingPatch idMaps parent field ids name } := by
  unfold Layer.view hidden remainingPatch remaining
  rw [relinked.value links, relinked.deletes, relinked.hiddenIDs, relinked.listOperations]
  by_cases same : name = parent
  · simp [same, storedCell]
  · simp [same]

private theorem mem_removed_remainingPatch {idMaps : OrderedMap String String} {name : String}
    {value : GraphQLValue} :
    value ∈ (layer.remainingPatch idMaps parent field ids name).removed ↔
      ∃ id, value = .string id ∧ (id ∈ layer.hiddenBeside idMaps field ids ∨
        ListOperation.Removes (layer.remaining parent field ids name) id) := by
  unfold remainingPatch
  rw [ListPatch.comp_removed, List.mem_append, ListOperation.mem_patch_removed, List.mem_map]
  constructor
  · intro either
    obtain ⟨id, hides, same⟩ | ⟨id, same, removes⟩ := either
    · exact ⟨id, same.symm, .inl hides⟩
    · exact ⟨id, same, .inr removes⟩
  · intro found
    obtain ⟨id, same, hides | removes⟩ := found
    · exact .inl ⟨id, hides, same.symm⟩
    · exact .inr ⟨id, same, removes⟩

private theorem mem_inserted_remainingPatch {idMaps : OrderedMap String String} {name : String}
    {value : GraphQLValue} :
    value ∈ (layer.remainingPatch idMaps parent field ids name).insertStart ∨
        value ∈ (layer.remainingPatch idMaps parent field ids name).insertEnd ↔
      ∃ id, value = .string id ∧ ListOperation.Inserts (layer.listOperations name field) id := by
  unfold remainingPatch
  rw [ListPatch.comp_insertStart, ListPatch.comp_insertEnd, List.nil_append, List.append_nil,
    ListOperation.mem_patch_inserted]
  simp only [inserts_remaining]

private theorem idle_iff {idMaps : OrderedMap String String} {names : List String}
    {patch : ListPatch GraphQLValue}
    (removed : ∀ value, value ∈ patch.removed ↔
      ∃ name ∈ names, value ∈ (layer.remainingPatch idMaps parent field ids name).removed)
    (inserted : ∀ value, value ∈ patch.insertStart ∨ value ∈ patch.insertEnd ↔
      ∃ name ∈ names,
        value ∈ (layer.remainingPatch idMaps parent field ids name).insertStart ∨
          value ∈ (layer.remainingPatch idMaps parent field ids name).insertEnd)
    (own : parent ∈ names) (present : ∀ name ∈ names, layer.deletes name = false)
    (alone : ∀ name ∈ names, name ≠ parent → layer.value name field = .undefined) :
    patch.Idle (ids.map .string) ↔ layer.ShowsLinked idMaps names parent field ids := by
  constructor
  · intro idle
    have kept (id : String) (member : id ∈ ids) (name : String) (named : name ∈ names) :
        ¬ (id ∈ layer.hiddenBeside idMaps field ids ∨
          ListOperation.Removes (layer.remaining parent field ids name) id) := by
      intro gone
      refine idle.kept (.string id) (List.mem_map_of_mem member) ((removed _).mpr ?_)
      exact ⟨name, named, mem_removed_remainingPatch.mpr ⟨id, rfl, gone⟩⟩
    refine ⟨present, alone, ?_, ?_, ?_⟩
    · intro id member hides
      exact kept id member parent own (.inl hides)
    · intro id member name named removes
      by_contra elsewhere
      refine kept id member name named (.inr (removes_remaining.mpr ⟨removes, ?_⟩))
      intro undone
      exact elsewhere ⟨undone.1, undone.2.2⟩
    · intro name named id inserts
      have gone : GraphQLValue.string id ∈ patch.removed := by
        have either := (inserted (.string id)).mpr
          ⟨name, named, mem_inserted_remainingPatch.mpr ⟨id, rfl, inserts⟩⟩
        exact either.elim (idle.insertStart _) (idle.insertEnd _)
      obtain ⟨other, otherNamed, inOther⟩ := (removed _).mp gone
      obtain ⟨same, equal, hides⟩ := mem_removed_remainingPatch.mp inOther
      cases equal
      refine ⟨fun member => kept id member other otherNamed hides, ?_⟩
      exact hides.imp_right fun removes => ⟨other, otherNamed, (removes_remaining.mp removes).1⟩
  · intro shows
    have gone (id : String) (name : String) (named : name ∈ names)
        (inserts : ListOperation.Inserts (layer.listOperations name field) id) :
        GraphQLValue.string id ∈ patch.removed := by
      obtain ⟨absent, hides | ⟨other, otherNamed, removes⟩⟩ := shows.inserted name named id inserts
      · exact (removed _).mpr
          ⟨name, named, mem_removed_remainingPatch.mpr ⟨id, rfl, .inl hides⟩⟩
      · refine (removed _).mpr ⟨other, otherNamed, mem_removed_remainingPatch.mpr ⟨id, rfl, .inr ?_⟩⟩
        exact removes_remaining.mpr ⟨removes, fun undone => absent undone.2.1⟩
    have both (value : GraphQLValue)
        (member : value ∈ patch.insertStart ∨ value ∈ patch.insertEnd) : value ∈ patch.removed := by
      obtain ⟨name, named, either⟩ := (inserted value).mp member
      obtain ⟨id, same, inserts⟩ := mem_inserted_remainingPatch.mp either
      rw [same]
      exact gone id name named inserts
    refine ⟨?_, fun value member => both value (.inl member), fun value member =>
      both value (.inr member)⟩
    intro value member present
    obtain ⟨id, linked, rfl⟩ := List.mem_map.mp member
    obtain ⟨name, named, inName⟩ := (removed _).mp present
    obtain ⟨same, equal, hides | removes⟩ := mem_removed_remainingPatch.mp inName
    · cases equal
      exact shows.visible id linked hides
    · cases equal
      have undone := shows.unremoved id linked name named (removes_remaining.mp removes).1
      exact (removes_remaining.mp removes).2 ⟨undone.1, linked, undone.2⟩

private theorem remainingPatch_of_ne {idMaps : OrderedMap String String} {name : String}
    (different : name ≠ parent) :
    layer.remainingPatch idMaps parent field ids name =
      ListPatch.comp { removed := (layer.hiddenBeside idMaps field ids).map .string }
        (ListOperation.patch (layer.listOperations name field)) := by
  unfold remainingPatch remaining linkedFrom
  rw [if_neg fun same => different same.1, ListOperation.undone_nil]

private theorem other_name {idMaps : OrderedMap String String} {mapped : String}
    (different : mapped ≠ parent) :
    (∃ name ∈ [mapped, parent], name ≠ parent ∧ layer.ShowsNamed idMaps name field ids) ↔
      layer.ShowsNamed idMaps mapped field ids := by
  constructor
  · intro found
    obtain ⟨name, named, other, shows⟩ := found
    obtain rfl | last := List.mem_cons.mp named
    · exact shows
    · exact absurd (List.mem_singleton.mp last) other
  · intro shows
    exact ⟨mapped, List.mem_cons_self, different, shows⟩

private theorem read_below {mapped : String} (own : mapped ≠ parent)
    (stored : layer.value mapped field = .undefined)
    (relinked : Relinked layer written parent field ids)
    (links : written.links = layer.links.setIn parent field (.array (ids.map .string)))
    (idMaps : OrderedMap String String) (rest : List (PatchView GraphQLValue GraphQLValue)) :
    cellValue (PatchView.read {}
        (written.view idMaps mapped field :: written.view idMaps parent field :: rest)) =
          .array (ids.map .string) ↔ layer.ShowsLinked idMaps [mapped, parent] parent field ids := by
  have view := relinked.view links idMaps
  rw [view mapped, view parent, if_neg own, if_pos rfl, stored]
  cases deleted : layer.deletes mapped with
  | true =>
      simp only [PatchView.read, storedCell, if_true, cellValue, reduceCtorEq, false_iff]
      intro shows
      have present := shows.present mapped List.mem_cons_self
      rw [deleted] at present
      cases present
  | false =>
      rw [PatchView.read_nothing rfl rfl, ListPatch.empty_comp]
      cases gone : layer.deletes parent with
      | true =>
          simp only [PatchView.read, if_true, cellValue, reduceCtorEq, false_iff]
          intro shows
          have present := shows.present parent (List.mem_cons_of_mem _ List.mem_cons_self)
          rw [gone] at present
          cases present
      | false =>
          rw [PatchView.read_list rfl rfl]
          simp only [cellValue, GraphQLValue.array.injEq]
          rw [ListPatch.apply_eq_self_iff]
          refine idle_iff ?_ ?_ (List.mem_cons_of_mem _ List.mem_cons_self) ?_ ?_
          · simp
          · intro value
            simp only [ListPatch.comp_insertStart, ListPatch.comp_insertEnd, List.mem_append,
              List.mem_cons, List.not_mem_nil, or_false, exists_eq_or_imp, exists_eq_left]
            tauto
          · simp [deleted, gone]
          · simp [stored]

/-- A read of the parent shows the linked list just if the layer shows it under one of the names
of the parent. -/
theorem Relinked.shows_iff (relinked : Relinked layer written parent field ids)
    (links : written.links = layer.links.setIn parent field (.array (ids.map .string)))
    (idMaps : OrderedMap String String) {names : List String}
    (known : names = [parent] ∨ ∃ mapped, names = [mapped, parent])
    (rest : List (PatchView GraphQLValue GraphQLValue)) :
    cellValue (PatchView.read {}
        (names.map (fun name => written.view idMaps name field) ++ rest)) =
          .array (ids.map .string) ↔
      layer.ShowsLinked idMaps names parent field ids ∨
        ∃ name ∈ names, name ≠ parent ∧ layer.ShowsNamed idMaps name field ids := by
  have view := relinked.view links idMaps
  -- a single view that stores the list
  have single (below : List (PatchView GraphQLValue GraphQLValue)) :
      cellValue (PatchView.read {} (written.view idMaps parent field :: below)) =
        .array (ids.map .string) ↔ layer.ShowsLinked idMaps [parent] parent field ids := by
    rw [view parent, if_pos rfl]
    cases deleted : layer.deletes parent with
    | true =>
        simp only [PatchView.read, if_true, cellValue, reduceCtorEq, false_iff]
        intro shows
        have present := shows.present parent List.mem_cons_self
        rw [deleted] at present
        cases present
    | false =>
        rw [PatchView.read_list rfl rfl, ListPatch.empty_comp]
        simp only [cellValue, GraphQLValue.array.injEq]
        rw [ListPatch.apply_eq_self_iff]
        refine idle_iff ?_ ?_ List.mem_cons_self ?_ ?_
        · simp
        · simp
        · intro name named
          rw [List.mem_singleton.mp named]
          exact deleted
        · intro name named different
          exact absurd (List.mem_singleton.mp named) different
  obtain rfl | ⟨mapped, rfl⟩ := known
  · rw [List.map_singleton, List.singleton_append, single]
    constructor
    · exact .inl
    · intro either
      obtain shows | ⟨name, named, different, _⟩ := either
      · exact shows
      · exact absurd (List.mem_singleton.mp named) different
  · rw [List.map_cons, List.map_singleton, List.cons_append, List.singleton_append]
    by_cases own : mapped = parent
    · subst own
      rw [single]
      have sameNames : layer.ShowsLinked idMaps [mapped] mapped field ids ↔
          layer.ShowsLinked idMaps [mapped, mapped] mapped field ids := by
        constructor <;> intro shows
        · exact
            { present := by simpa using shows.present
              alone := by simp
              visible := shows.visible
              unremoved := by simpa using shows.unremoved
              inserted := by simpa using shows.inserted }
        · exact
            { present := by simpa using shows.present
              alone := by simp
              visible := shows.visible
              unremoved := by simpa using shows.unremoved
              inserted := by simpa using shows.inserted }
      rw [sameNames]
      constructor
      · exact .inl
      · intro either
        obtain shows | ⟨name, named, different, _⟩ := either
        · exact shows
        · exact absurd (by simpa using named) different
    · rw [other_name own]
      cases stored : layer.value mapped field with
      | undefined =>
          have unnamed : ¬ layer.ShowsNamed idMaps mapped field ids := by
            intro shows
            obtain ⟨shown, held, _⟩ := shows.same
            rw [stored] at held
            cases held
          simp only [unnamed, or_false]
          exact read_below own stored relinked links idMaps rest
      | array shown =>
          have unlinked : ¬ layer.ShowsLinked idMaps [mapped, parent] parent field ids := by
            intro shows
            have missing := shows.alone mapped List.mem_cons_self own
            rw [stored] at missing
            cases missing
          rw [view mapped, if_neg own, stored]
          simp only [unlinked, false_or]
          cases deleted : layer.deletes mapped with
          | true =>
              simp only [PatchView.read, storedCell, if_true, cellValue, reduceCtorEq, false_iff]
              intro shows
              have present := shows.present
              rw [deleted] at present
              cases present
          | false =>
              rw [PatchView.read_list rfl rfl, ListPatch.empty_comp, remainingPatch_of_ne own]
              simp only [cellValue, GraphQLValue.array.injEq]
              constructor
              · intro same
                exact ⟨deleted, shown, stored, same⟩
              · intro shows
                obtain ⟨other, held, same⟩ := shows.same
                rw [stored] at held
                cases held
                exact same
      | null | boolean _ | number _ | string _ | object _ | component _ _ _ _ _ =>
          rw [view mapped, if_neg own, stored]
          simp only [storedCell, PatchView.read, cellValue, reduceCtorEq, false_iff, not_or]
          constructor
          · intro shows
            have missing := shows.alone mapped List.mem_cons_self own
            rw [stored] at missing
            cases missing
          · intro shows
            obtain ⟨shown, held, _⟩ := shows.same
            rw [stored] at held
            cases held

end Reading

end Layer

end Houdini.Runtime.Cache
