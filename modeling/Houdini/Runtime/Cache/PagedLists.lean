import Houdini.Data.TwoEnds
import Houdini.Runtime.Cache.PageWrites

/-! Pages that are written to an optimistic layer, and pages that are written to the topmost
layer: when the list shows the same. -/

set_option autoImplicit false

namespace Houdini.Runtime.Cache

open InMemoryStorage

/-- A list of distinct records shows. The layer that is safe to write to deletes none of them,
and undid no delete for the list. -/
structure ListShown (storage : InMemoryStorage) (parent key : String) (ids : List String) :
    Prop where
  reachable : storage.Reachable
  alone : storage.recordIDs parent = [parent]
  value : storage.value parent key = .array (ids.map .string)
  nodup : ids.Nodup
  named : ∀ id ∈ ids, id ≠ ""
  kept : ∀ id ∈ ids, storage.topLayer.1.isDeleted (.string id) = false
  undone : storage.topLayer.1.NoneUndone key

section Pages

variable {parent key : String}

def pagedIDs (pages : List (PageWrite parent key)) : List String :=
  pages.flatMap (·.page.ids)

def pagesAt (location : OperationLocation) (pages : List (PageWrite parent key)) :
    List (List GraphQLValue) :=
  (pages.filter fun page => page.page.location = location ∧ page.page.ids ≠ []).map
    (·.page.entries)

theorem pagesAt_cons (location : OperationLocation) (page : PageWrite parent key)
    (rest : List (PageWrite parent key)) :
    (pagesAt location (page :: rest)).flatten =
      (if page.page.location = location then page.page.entries else []) ++
        (pagesAt location rest).flatten := by
  unfold pagesAt
  by_cases here : page.page.location = location
  · by_cases empty : page.page.ids = []
    · simp [here, empty, ListPage.entries]
    · simp [here, empty]
  · simp [here]

theorem pagesAt_reverse_cons (location : OperationLocation) (page : PageWrite parent key)
    (rest : List (PageWrite parent key)) :
    (pagesAt location (page :: rest)).reverse.flatten =
      (pagesAt location rest).reverse.flatten ++
        if page.page.location = location then page.page.entries else [] := by
  unfold pagesAt
  by_cases here : page.page.location = location
  · by_cases empty : page.page.ids = []
    · simp [here, empty, ListPage.entries]
    · simp [here, empty]
  · simp [here]

def joinPages (pages : List (PageWrite parent key)) (ids : List String) : List String :=
  pages.foldl (fun ids page => page.page.location.join page.page.ids ids) ids

theorem joinPages_eq (pages : List (PageWrite parent key)) (ids : List String) :
    (joinPages pages ids).map GraphQLValue.string =
      (pagesAt .start pages).reverse.flatten ++ ids.map .string ++
        (pagesAt .end pages).flatten := by
  induction pages generalizing ids with
  | nil => simp [joinPages, pagesAt]
  | cons page rest ih =>
      change (joinPages rest _).map GraphQLValue.string = _
      rw [ih, pagesAt_cons, pagesAt_reverse_cons, OperationLocation.map_join]
      change _ ++ page.page.location.join page.page.entries _ ++ _ = _
      unfold OperationLocation.join
      cases page.page.location <;> simp

theorem pagesAt_sublist (location : OperationLocation) (pages : List (PageWrite parent key)) :
    (pagesAt location pages).flatten.Sublist ((pagedIDs pages).map .string) := by
  induction pages with
  | nil => exact .slnil
  | cons page rest ih =>
      rw [pagesAt_cons]
      change List.Sublist _ ((page.page.ids ++ pagedIDs rest).map GraphQLValue.string)
      rw [List.map_append]
      refine List.Sublist.append ?_ ih
      split
      · exact .refl _
      · exact List.nil_sublist _

theorem mem_pagesAt {pages : List (PageWrite parent key)} {id : String}
    (member : id ∈ pagedIDs pages) :
    ∃ location, .string id ∈ (pagesAt location pages).flatten := by
  induction pages with
  | nil => cases member
  | cons page rest ih =>
      rcases List.mem_append.mp member with here | later
      · refine ⟨page.page.location, ?_⟩
        rw [pagesAt_cons, if_pos rfl]
        exact List.mem_append_left _ (List.mem_map_of_mem here)
      · obtain ⟨location, listed⟩ := ih later
        refine ⟨location, ?_⟩
        rw [pagesAt_cons]
        exact List.mem_append_right _ listed

theorem mem_pagedIDs_of_mem {location : OperationLocation} {pages : List (PageWrite parent key)}
    {entry : GraphQLValue} (member : entry ∈ (pagesAt location pages).flatten) :
    ∃ id ∈ pagedIDs pages, .string id = entry :=
  List.mem_map.mp ((pagesAt_sublist location pages).subset member)

/-- No page has records, and those that are written anyway do not link the list again. -/
def Idle (pages : List (PageWrite parent key)) (counted : List String) : Prop :=
  (∀ page ∈ pages, page.page.ids = []) ∧ (pages = [] ∨ counted ≠ [])

structure NewPages (storage : InMemoryStorage) (ids : List String)
    (pages : List (PageWrite parent key)) : Prop where
  nodup : (pagedIDs pages).Nodup
  unshown : ∀ id ∈ pagedIDs pages, id ∉ ids
  unlisted : ∀ id ∈ pagedIDs pages, hasListOperation storage key (.string id) = false
  kept : ∀ id ∈ pagedIDs pages, ∀ layer ∈ storage.data,
    layer.isDeleted (.string id) = false ∧ id ∉ layer.hiddenIDs storage.idMaps key

theorem unnamed_of_unlisted {storage : InMemoryStorage} {id : String}
    (unlisted : hasListOperation storage key (.string id) = false) {layer : Layer}
    (member : layer ∈ storage.data) (record : String) :
    ∀ operation ∈ layer.listOperations record key, operation.target ≠ id := by
  intro operation recorded named
  refine absurd unlisted (Bool.not_eq_false _ ▸ hasListOperation_iff.mpr ?_)
  exact ⟨layer, member, record, operation, recorded, congrArg _ named⟩

theorem not_removed_of_unnamed {layer : Layer} {idMaps : OrderedMap String String} {id : String}
    (unnamed : ∀ operation ∈ layer.listOperations parent key, operation.target ≠ id)
    (unhidden : id ∉ layer.hiddenIDs idMaps key) :
    .string id ∉ (layer.view idMaps parent key).patch.removed := by
  intro removed
  change .string id ∈ ((layer.hidden idMaps key).comp _).removed at removed
  rw [ListPatch.comp_removed] at removed
  rcases List.mem_append.mp removed with hidden | operated
  · obtain ⟨other, member, same⟩ := List.mem_map.mp hidden
    exact unhidden (GraphQLValue.string.inj same ▸ member)
  · obtain ⟨operation, member, named⟩ := List.mem_filterMap.mp operated
    cases operation with
    | insert location other => cases named
    | remove other =>
        exact unnamed _ member (GraphQLValue.string.inj (Option.some.inj named))

theorem NewPages.unremoved {storage : InMemoryStorage} {ids : List String}
    {pages : List (PageWrite parent key)} (new : NewPages storage ids pages) :
    ∀ id ∈ pagedIDs pages, ∀ layer ∈ storage.data,
      .string id ∉ (layer.view storage.idMaps parent key).patch.removed := by
  intro id member layer present
  exact not_removed_of_unnamed (unnamed_of_unlisted (new.unlisted id member) present parent)
    (new.kept id member layer present).2

end Pages

section Pending

variable {parent key : String} {storage : InMemoryStorage}

private theorem quietAt_inserting (distinct : storage.DistinctLayers)
    (operations : List ListOperation) :
    (stack storage.data (Layer.inserting storage.idCount parent key operations)
      storage.idMaps).QuietAt storage.idCount key where
  distinct := by
    have ids : (stack storage.data (Layer.inserting storage.idCount parent key operations)
        storage.idMaps).data.map (·.id) = storage.data.map (·.id) ++ [storage.idCount] := by
      simp [stack, Layer.inserting, Layer.withOperations]
    rw [headers_fst, ids, List.nodup_append]
    refine ⟨distinct.nodup, List.nodup_singleton _, ?_⟩
    intro id member other same
    obtain ⟨layer, present, rfl⟩ := List.mem_map.mp member
    rw [List.mem_singleton.mp same]
    exact Nat.ne_of_lt (distinct.fresh layer present)
  undone := by
    intro current member target id
    rcases List.mem_append.mp member with below | top
    · exact absurd target (Nat.ne_of_lt (distinct.fresh current below))
    · rw [List.mem_singleton.mp top, Layer.inserting, Layer.undoesDelete_withOperations]
      rfl

private theorem patch_operations (page : ListPage) :
    ListOperation.patch page.operations =
      { insertStart := if page.location = .start then page.entries else []
        insertEnd := (if page.location = .end then page.entries else []).reverse } := by
  unfold ListOperation.patch ListPage.operations ListPage.entries
  cases page.location with
  | start =>
      simp [List.filterMap_map, Function.comp_def, ListOperation.startTarget?,
        ListOperation.endTarget?, ListOperation.removeTarget?]
  | «end» =>
      simp [List.filterMap_map, Function.comp_def, ListOperation.startTarget?,
        ListOperation.endTarget?, ListOperation.removeTarget?]

private theorem patch_pages (pages : List (PageWrite parent key)) :
    ListOperation.patch (pages.flatMap (·.page.operations)) =
      { insertStart := (pagesAt .start pages).flatten
        insertEnd := (pagesAt .end pages).flatten.reverse } := by
  induction pages with
  | nil => rfl
  | cons page rest ih =>
      rw [List.flatMap_cons, ListOperation.patch_append, ih, patch_operations, pagesAt_cons,
        pagesAt_cons]
      unfold ListPatch.comp
      rw [List.reverse_append]
      rfl

private theorem value_inserting {ids : List String} (alone : storage.recordIDs parent = [parent])
    (shown : storage.value parent key = .array (ids.map .string)) (id : LayerID)
    (pages : List (PageWrite parent key))
    (unremoved : ∀ target ∈ pagedIDs pages, ∀ layer ∈ storage.data,
      .string target ∉ (layer.view storage.idMaps parent key).patch.removed) :
    (stack storage.data (Layer.inserting id parent key (pages.flatMap (·.page.operations)))
        storage.idMaps).value parent key =
      .array ((pagesAt .start pages).flatten ++ ids.map .string ++
        (pagesAt .end pages).flatten.reverse) := by
  have alone' : (stack storage.data (Layer.inserting id parent key
      (pages.flatMap (·.page.operations))) storage.idMaps).recordIDs parent = [parent] := alone
  have patch : ((Layer.inserting id parent key (pages.flatMap (·.page.operations))).view
      storage.idMaps parent key).patch = ListOperation.patch (pages.flatMap (·.page.operations)) := by
    change ListPatch.comp {} (ListOperation.patch _) = _
    rw [ListPatch.empty_comp, Layer.inserting, Layer.listOperations_withOperations, if_pos rfl]
  have blank : ((Layer.inserting id parent key (pages.flatMap (·.page.operations))).view
      storage.idMaps parent key).deletes = false :=
    Layer.deletes_withOperations _ _
  have before := get_value_eq_array_iff.mp shown
  rw [views_alone alone] at before
  have fresh : ∀ entry ∈ (pagesAt .start pages).flatten ++ (pagesAt .end pages).flatten.reverse,
      ∀ view ∈ storage.data.reverse.map fun layer => layer.view storage.idMaps parent key,
        entry ∉ view.patch.removed := by
    intro entry member view known
    obtain ⟨layer, present, rfl⟩ := List.mem_map.mp known
    have paged : ∃ target ∈ pagedIDs pages, .string target = entry := by
      rcases List.mem_append.mp member with start | finish
      · exact mem_pagedIDs_of_mem start
      · exact mem_pagedIDs_of_mem (List.mem_reverse.mp finish)
    obtain ⟨target, listed, rfl⟩ := paged
    exact unremoved target listed layer (List.mem_reverse.mp present)
  have inserted : PatchView.read (ListPatch.comp { insertStart := (pagesAt .start pages).flatten
                                                   insertEnd := (pagesAt .end pages).flatten.reverse }
        {}) (storage.data.reverse.map fun layer => layer.view storage.idMaps parent key) =
      .list ((pagesAt .start pages).flatten ++ ids.map .string ++
        (pagesAt .end pages).flatten.reverse) :=
    PatchView.read_insert rfl (fun entry member => ⟨List.not_mem_nil, fresh entry member⟩) before
  have noPatch (patch : ListPatch GraphQLValue) : patch.comp {} = patch := by
    simp [ListPatch.comp]
  rw [noPatch] at inserted
  refine get_value_eq_array_iff.mpr ?_
  rw [views_stack alone', PatchView.read_nothing rfl blank, patch, patch_pages,
    ListPatch.empty_comp]
  exact inserted

private theorem kept_insertAll {below : List Layer} {idMaps : OrderedMap String String}
    {layer : LayerID} {page : ListPage} {operations : List ListOperation}
    {current final : InMemoryStorage}
    (quiet : ∀ operations, (stack below (Layer.inserting layer parent key operations)
      idMaps).QuietAt layer key)
    (kept : (stack below (Layer.inserting layer parent key operations) idMaps).KeepsList parent
      key current) {linked : List GraphQLValue}
    (success : addPage parent key layer page linked true current = .ok () final) :
    (stack below (Layer.inserting layer parent key (operations ++ page.operations))
      idMaps).KeepsList parent key final := by
  unfold addPage ListPage.operations at *
  rw [if_pos rfl] at success
  generalize page.ids = ids at success ⊢
  induction ids generalizing operations current with
  | nil =>
      cases success
      simpa using kept
  | cons id rest ih =>
      obtain ⟨_, middle, first, others⟩ := EStateM.bind_eq_ok success
      obtain ⟨top, _, found, same, write⟩ := kept.top (quiet operations).distinct
      change current.data.find? (·.id == layer) = some top at found
      change insertInto layer parent key page.location id current = _ at first
      unfold insertInto at first
      rw [found] at first
      dsimp only at first
      cases inserted : top.insert parent key page.location id with
      | error error =>
          rw [inserted] at first
          cases first
      | ok written =>
          rw [inserted] at first
          cases first
          have keptTop := same.insert inserted
          have target : written.id = layer := congrArg Prod.fst keptTop.header
          have rest := ih (write _ written target keptTop) others
          rwa [List.append_assoc] at rest

private theorem addTo_ne {page : ListPage} {shown others counted : List GraphQLValue}
    (part : ∀ entry ∈ counted, entry ∈ shown) (unshown : ∀ id ∈ page.ids, .string id ∉ shown)
    (filled : page.ids ≠ []) : page.addTo others ≠ counted := by
  intro same
  obtain ⟨id, member⟩ := List.exists_mem_of_ne_nil _ filled
  have added : GraphQLValue.string id ∈ page.addTo others :=
    OperationLocation.mem_join.mpr (.inl (List.mem_map_of_mem member))
  exact unshown id member (part _ (same ▸ added))

private theorem shown_after {ids : List String} {pages : List (PageWrite parent key)} {id : String}
    (member : .string id ∈ (pagesAt .start pages).flatten ++ ids.map GraphQLValue.string ++
      (pagesAt .end pages).flatten.reverse) : id ∈ ids ∨ id ∈ pagedIDs pages := by
  have paged {location : OperationLocation}
      (here : .string id ∈ (pagesAt location pages).flatten) : id ∈ pagedIDs pages := by
    obtain ⟨other, listed, same⟩ := mem_pagedIDs_of_mem here
    rwa [← GraphQLValue.string.inj same]
  rcases List.mem_append.mp member with member | finish
  · rcases List.mem_append.mp member with start | between
    · exact .inr (paged start)
    · obtain ⟨other, listed, same⟩ := List.mem_map.mp between
      rw [← GraphQLValue.string.inj same]
      exact .inl listed
  · exact .inr (paged (List.mem_reverse.mp finish))

private theorem kept_write_inserting {ids : List String} (shown : ListShown storage parent key ids)
    {done : List (PageWrite parent key)} {page : PageWrite parent key}
    (unremoved : ∀ target ∈ pagedIDs done, ∀ layer ∈ storage.data,
      .string target ∉ (layer.view storage.idMaps parent key).patch.removed)
    (unshown : ∀ id ∈ page.page.ids, id ∉ ids ∧ id ∉ pagedIDs done)
    {current final : InMemoryStorage}
    (kept : (stack storage.data (Layer.inserting storage.idCount parent key
      (done.flatMap (·.page.operations))) storage.idMaps).KeepsList parent key current)
    (success : page.write (some storage.idCount) current = .ok () final) :
    (stack storage.data (Layer.inserting storage.idCount parent key
      ((done ++ [page]).flatMap (·.page.operations))) storage.idMaps).KeepsList parent key final := by
  have quiet := @quietAt_inserting parent key _ shown.reachable.distinctLayers
  have alone : (stack storage.data (Layer.inserting storage.idCount parent key
      (done.flatMap (·.page.operations))) storage.idMaps).recordIDs parent = [parent] := shown.alone
  obtain ⟨top, _, found, same, _⟩ := kept.top (quiet _).distinct
  change current.data.find? (·.id == storage.idCount) = some top at found
  have targeted : writeLayer (some storage.idCount) current = .ok storage.idCount current := by
    have named : Option.filter (fun id => id != 0) (some storage.idCount) =
        some storage.idCount := by
      simp [Option.filter, Nat.ne_of_gt shown.reachable.idCount_pos]
    have sameID : top.id = storage.idCount := congrArg Prod.fst same.header
    unfold writeLayer getLayer
    rw [named]
    dsimp only
    rw [found]
    simp only [sameID]
  have listed := value_inserting shown.alone shown.value storage.idCount done unremoved
  rw [← kept.value alone] at listed
  have aloneNow : current.recordIDs parent = [parent] := (kept.recordIDs parent).trans alone
  obtain ⟨_, _, prepared, middle, _, keptPrepared, added, rest⟩ :=
    page.write_ok targeted (kept.quietAt (quiet _)) aloneNow listed success
  have optimistic : isOptimistic storage.idCount current = true := by
    unfold isOptimistic
    rw [found]
    exact congrArg Prod.snd same.header
  rw [optimistic] at added
  have keptAdded : (stack storage.data (Layer.inserting storage.idCount parent key
      ((done ++ [page]).flatMap (·.page.operations))) storage.idMaps).KeepsList parent key
        middle := by
    rw [List.flatMap_append, List.flatMap_singleton]
    by_cases filled : page.page.ids = []
    · have none : page.page.operations = [] := by simp [ListPage.operations, filled]
      have unchanged : middle = prepared := by
        split at added
        · unfold addPage at added
          rw [none] at added
          exact (EStateM.pure_eq_ok added).2
        · exact (EStateM.pure_eq_ok added).2
      rw [none, List.append_nil, unchanged]
      exact kept.trans keptPrepared
    · have unlisted : ∀ id ∈ page.page.ids, GraphQLValue.string id ∉
          (pagesAt .start done).flatten ++ ids.map .string ++
            (pagesAt .end done).flatten.reverse := by
        intro id member before
        rcases shown_after before with known | paged
        · exact (unshown id member).1 known
        · exact (unshown id member).2 paged
      rw [if_pos (.inl (addTo_ne (fun _ => List.mem_of_mem_filter) unlisted filled))] at added
      exact kept_insertAll quiet (kept.trans keptPrepared) added
  exact keptAdded.trans (rest (keptAdded.quietAt (quiet _)))

private theorem kept_writePages_inserting {ids : List String}
    (shown : ListShown storage parent key ids) {done rest : List (PageWrite parent key)}
    (new : NewPages storage ids (done ++ rest)) {current final : InMemoryStorage}
    (kept : (stack storage.data (Layer.inserting storage.idCount parent key
      (done.flatMap (·.page.operations))) storage.idMaps).KeepsList parent key current)
    (success : writePages rest (some storage.idCount) current = .ok () final) :
    (stack storage.data (Layer.inserting storage.idCount parent key
      ((done ++ rest).flatMap (·.page.operations))) storage.idMaps).KeepsList parent key final := by
  induction rest generalizing done current with
  | nil =>
      cases success
      rwa [List.append_nil]
  | cons page rest ih =>
      have regrouped : done ++ page :: rest = (done ++ [page]) ++ rest := by simp
      obtain ⟨_, middle, first, others⟩ := EStateM.bind_eq_ok success
      have all : pagedIDs (done ++ page :: rest) =
          pagedIDs done ++ (page.page.ids ++ pagedIDs rest) := by
        simp [pagedIDs]
      have unremoved := new.unremoved
      have nodup := new.nodup
      have unshown := new.unshown
      rw [all] at unremoved nodup unshown
      have next := kept_write_inserting shown
        (fun id member => unremoved id (List.mem_append_left _ member))
        (fun id member => ⟨unshown id (List.mem_append_right _ (List.mem_append_left _ member)),
          fun before => (List.nodup_append.mp nodup).2.2 id before id
            (List.mem_append_left _ member) rfl⟩) kept first
      rw [regrouped] at new ⊢
      exact ih new next others

/-- On an optimistic layer, the records at the start stand in the order of the pages, and those
at the end are reversed. -/
theorem value_writePages_optimistic {ids : List String} (shown : ListShown storage parent key ids)
    {pages : List (PageWrite parent key)} (new : NewPages storage ids pages)
    {final : InMemoryStorage}
    (success : writePages pages (some (storage.createLayer true).1.id) (storage.createLayer true).2 =
      .ok () final) :
    final.value parent key = .array ((pagesAt .start pages).flatten ++ ids.map .string ++
      (pagesAt .end pages).flatten.reverse) := by
  have opened : (stack storage.data (Layer.inserting storage.idCount parent key
      (([] : List (PageWrite parent key)).flatMap (·.page.operations)))
        storage.idMaps).KeepsList parent key (storage.createLayer true).2 :=
    ⟨List.rel_append (List.forall₂_same.mpr fun layer _ => .refl layer)
      (.cons Layer.keepsList_inserting_nil .nil), rfl⟩
  have all : NewPages storage ids ([] ++ pages) := new
  have kept := kept_writePages_inserting shown all opened success
  rw [List.nil_append] at kept
  rw [kept.value shown.alone]
  exact value_inserting shown.alone shown.value storage.idCount pages new.unremoved

end Pending

section Nodes

variable {parent key : String}

def PageWrite.NodesApart (page : PageWrite parent key) (storage : InMemoryStorage) : Prop :=
  ∀ found extracted, page.writeRecords none storage = .ok found extracted →
    filterIDs extracted page.page.entries
        (countedIDs storage key (storage.value parent key).items) =
      countedIDs storage key (storage.value parent key).items

def NodesApart : List (PageWrite parent key) → InMemoryStorage → Prop
  | [], _ => True
  | page :: rest, storage => page.NodesApart storage ∧
      ∀ final, page.write none storage = .ok () final → NodesApart rest final

end Nodes

def Layer.shownAt (layer : Layer) (idMaps : OrderedMap String String) (parent key : String) :
    OperationLocation → List GraphQLValue
  | .start => (layer.view idMaps parent key).patch.insertStart.filter
      (layer.view idMaps parent key).patch.keeps
  | .end => (layer.view idMaps parent key).patch.insertEnd.filter
      (layer.view idMaps parent key).patch.keeps

def Layer.relinked (layer : Layer) (parent key : String) :
    Option (List GraphQLValue) → Layer
  | none => layer
  | some entries => layer.linking parent key entries

section Settled

variable {parent key : String} {storage : InMemoryStorage}

/-- Records that the layer that is safe to write to can link to, and shows then. -/
structure Linkable (storage : InMemoryStorage) (parent key : String) (known : List String) :
    Prop where
  named : ∀ id ∈ known, id ≠ ""
  undeleted : ∀ id ∈ known, storage.topLayer.1.isDeleted (.string id) = false
  unlisted : ∀ id ∈ known, hasListOperation storage key (.string id) = false
  unremoved : ∀ id ∈ known,
    .string id ∉ (storage.topLayer.1.view storage.idMaps parent key).patch.removed

private theorem Linkable.mono {known fewer : List String}
    (linkable : Linkable storage parent key known) (part : ∀ id ∈ fewer, id ∈ known) :
    Linkable storage parent key fewer where
  named := fun id member => linkable.named id (part id member)
  undeleted := fun id member => linkable.undeleted id (part id member)
  unlisted := fun id member => linkable.unlisted id (part id member)
  unremoved := fun id member => linkable.unremoved id (part id member)

private theorem topLayer_cases (storage : InMemoryStorage) :
    (storage.topLayer.1 ∈ storage.data ∧ storage.topLayer.2 = storage) ∨
      storage.topLayer = storage.createLayer false := by
  unfold topLayer
  split
  · exact .inr rfl
  · rename_i layer last
    split
    · exact .inr rfl
    · exact .inl ⟨List.mem_of_getLast? last, rfl⟩

private theorem hasListOperation_topLayer (id : GraphQLValue) :
    hasListOperation storage.topLayer.2 key id = hasListOperation storage key id := by
  rcases topLayer_cases storage with ⟨_, same⟩ | created
  · rw [same]
  · rw [created]
    unfold hasListOperation createLayer
    rw [List.any_append]
    exact Bool.or_false _

private theorem quietAt_topLayer {ids : List String} (shown : ListShown storage parent key ids) :
    storage.topLayer.2.QuietAt storage.topLayer.1.id key where
  distinct := by
    rw [headers_fst]
    exact shown.reachable.distinctLayers.topLayer.nodup
  undone := by
    intro current member target
    have equal := List.inj_on_of_nodup_map shown.reachable.distinctLayers.topLayer.nodup member
      storage.topLayer_mem target
    rw [equal]
    exact shown.undone

private theorem view_topLayer {ids : List String} (shown : ListShown storage parent key ids) :
    storage.topLayer.1.deletes parent = false ∧ ∀ id ∈ ids,
      .string id ∉ (storage.topLayer.1.view storage.idMaps parent key).patch.removed := by
  have listed := (storage.value_topLayer parent key).trans shown.value
  have alone : storage.topLayer.2.recordIDs parent = [parent] := by
    unfold recordIDs
    rw [storage.topLayer_idMaps]
    exact shown.alone
  obtain ⟨below, split⟩ := List.getLast?_eq_some_iff.mp storage.topLayer_getLast?
  have read := get_value_eq_array_iff.mp listed
  rw [views_alone alone, storage.topLayer_idMaps, split, List.reverse_append] at read
  change PatchView.read {} (storage.topLayer.1.view storage.idMaps parent key ::
    below.reverse.map fun layer => layer.view storage.idMaps parent key) = _ at read
  constructor
  · refine Bool.eq_false_iff.mpr fun deletes => ?_
    cases stored : (storage.topLayer.1.view storage.idMaps parent key).stored with
    | scalar value =>
        rw [PatchView.read_scalar stored] at read
        cases read
    | nothing | list entries =>
        rw [PatchView.read_deletes (by simp [stored]) deletes] at read
        cases read
  · intro id member
    exact PatchView.not_removed_of_read_cons read (List.mem_map_of_mem member)

private theorem value_linking {below : List Layer} {top : Layer}
    {idMaps : OrderedMap String String} {entries : List GraphQLValue}
    (alone : (stack below (top.linking parent key entries) idMaps).recordIDs parent = [parent])
    (kept : top.deletes parent = false)
    (unremoved : ∀ entry ∈ entries, entry ∉ (top.view idMaps parent key).patch.removed) :
    (stack below (top.linking parent key entries) idMaps).value parent key =
      .array (top.shownAt idMaps parent key .start ++ entries ++
        top.shownAt idMaps parent key .end) := by
  have stored : ((top.linking parent key entries).view idMaps parent key).stored =
      .list entries := by
    refine storedCell_eq_list.mpr ?_
    unfold Layer.value Layer.get Layer.linking
    simp [OrderedMap.getIn?_setIn, GraphQLValue.isDefined]
  have all : entries.filter (top.view idMaps parent key).patch.keeps = entries :=
    List.filter_eq_self.mpr fun entry member => ListPatch.keeps_iff.mpr (unremoved entry member)
  refine get_value_eq_array_iff.mpr ?_
  rw [views_stack alone, PatchView.read_list stored kept, ListPatch.empty_comp]
  change StoredCell.list ((top.view idMaps parent key).patch.apply entries) = _
  rw [ListPatch.apply, List.filter_append, List.filter_append, all]
  rfl

private theorem operation_of_shownAt {layer : Layer} {idMaps : OrderedMap String String}
    {location : OperationLocation} {entry : GraphQLValue}
    (shown : entry ∈ layer.shownAt idMaps parent key location) :
    ∃ operation ∈ layer.listOperations parent key, GraphQLValue.string operation.target = entry := by
  cases location with
  | start =>
      have inserted := List.mem_of_mem_filter shown
      change entry ∈ (layer.listOperations parent key).filterMap ListOperation.startTarget? at inserted
      obtain ⟨operation, member, same⟩ := List.mem_filterMap.mp inserted
      refine ⟨operation, member, ?_⟩
      unfold ListOperation.startTarget? at same
      split at same
      · exact Option.some.inj same
      · cases same
  | «end» =>
      have inserted := List.mem_of_mem_filter shown
      change entry ∈ ((layer.listOperations parent key).filterMap
        ListOperation.endTarget?).reverse ++ [] at inserted
      rw [List.append_nil] at inserted
      obtain ⟨operation, member, same⟩ := List.mem_filterMap.mp (List.mem_reverse.mp inserted)
      refine ⟨operation, member, ?_⟩
      unfold ListOperation.endTarget? at same
      split at same
      · exact Option.some.inj same
      · cases same

private theorem hasListOperation_relinked {below : List Layer} {top : Layer}
    {idMaps : OrderedMap String String} (linked : Option (List GraphQLValue))
    (split : storage.data = below ++ [top]) (id : GraphQLValue) :
    hasListOperation (stack below (top.relinked parent key linked) idMaps) key id =
      hasListOperation storage key id := by
  unfold hasListOperation stack
  rw [split]
  cases linked with
  | none => rfl
  | some entries =>
      simp only [List.any_append]
      rfl

private theorem quietAt_relinked {ids : List String} (shown : ListShown storage parent key ids)
    {below : List Layer} (split : storage.topLayer.2.data = below ++ [storage.topLayer.1])
    (linked : Option (List GraphQLValue)) :
    (stack below (storage.topLayer.1.relinked parent key linked) storage.idMaps).QuietAt
      storage.topLayer.1.id key where
  distinct := by
    have same : (stack below (storage.topLayer.1.relinked parent key linked)
        storage.idMaps).headers = storage.topLayer.2.headers := by
      unfold headers stack
      rw [split]
      cases linked <;> simp [Layer.relinked, Layer.linking, Layer.header]
    rw [same]
    exact (quietAt_topLayer shown).distinct
  undone := by
    have undone := (quietAt_topLayer shown).undone
    rw [split] at undone
    intro current member target
    rcases List.mem_append.mp member with lower | top
    · exact undone current (List.mem_append_left _ lower) target
    · rw [List.mem_singleton.mp top]
      have before := shown.undone
      cases linked <;> exact before

/-- The topmost layer in the course of the writes: it links to nothing new yet, or to the
records that are counted. -/
private structure SettledAt (storage : InMemoryStorage) (parent key : String)
    (ids counted : List String) (linked : Option (List GraphQLValue))
    (current : InMemoryStorage) : Prop where
  kept : ∃ below, storage.topLayer.2.data = below ++ [storage.topLayer.1] ∧
    (stack below (storage.topLayer.1.relinked parent key linked) storage.idMaps).KeepsList parent
      key current
  consistent : (linked = none ∧
      counted.map .string = countedIDs storage key (ids.map .string)) ∨
    linked = some (counted.map .string)

private theorem SettledAt.sameOperations {ids counted : List String}
    {linked : Option (List GraphQLValue)} {current : InMemoryStorage}
    (settled : SettledAt storage parent key ids counted linked current) (id : GraphQLValue) :
    hasListOperation current key id = hasListOperation storage key id := by
  obtain ⟨below, split, kept⟩ := settled.kept
  rw [kept.hasListOperation, hasListOperation_relinked linked split, hasListOperation_topLayer]

/-- What the layer that is safe to write to itself puts at an end of the list. -/
def shownAt (storage : InMemoryStorage) (parent key : String) (location : OperationLocation) :
    List GraphQLValue :=
  storage.topLayer.1.shownAt storage.idMaps parent key location

private theorem hasListOperation_shownAt {location : OperationLocation} {entry : GraphQLValue}
    (member : entry ∈ shownAt storage parent key location) :
    hasListOperation storage key entry = true := by
  obtain ⟨operation, recorded, same⟩ := operation_of_shownAt member
  rw [← hasListOperation_topLayer]
  exact hasListOperation_iff.mpr ⟨_, storage.topLayer_mem, parent, operation, recorded, same⟩

private theorem SettledAt.value {ids counted : List String} {linked : Option (List GraphQLValue)}
    {current : InMemoryStorage} (shown : ListShown storage parent key ids)
    (linkable : Linkable storage parent key counted)
    (settled : SettledAt storage parent key ids counted linked current) :
    current.value parent key = .array (linked.elim (ids.map .string) fun _ =>
      shownAt storage parent key .start ++ counted.map .string ++
        shownAt storage parent key .end) := by
  obtain ⟨below, split, kept⟩ := settled.kept
  have alone : (stack below (storage.topLayer.1.relinked parent key linked)
      storage.idMaps).recordIDs parent = [parent] := shown.alone
  rw [kept.value alone]
  rcases settled.consistent with ⟨rfl, _⟩ | rfl
  · refine Eq.trans (value_of_views ?_) ((storage.value_topLayer parent key).trans shown.value)
    have aloneBase : storage.topLayer.2.recordIDs parent = [parent] := by
      unfold recordIDs
      rw [storage.topLayer_idMaps]
      exact shown.alone
    rw [views_alone alone, views_alone aloneBase, split, storage.topLayer_idMaps]
    rfl
  · refine value_linking alone (view_topLayer shown).1 fun entry member => ?_
    obtain ⟨id, listed, rfl⟩ := List.mem_map.mp member
    exact linkable.unremoved id listed

private theorem SettledAt.listed {ids counted : List String}
    {linked : Option (List GraphQLValue)} {current : InMemoryStorage}
    (shown : ListShown storage parent key ids) (linkable : Linkable storage parent key counted)
    (settled : SettledAt storage parent key ids counted linked current) :
    ∃ now, current.value parent key = .array now ∧
      countedIDs current key now = counted.map .string ∧
      ∀ id, .string id ∈ now → id ∈ ids ∨ id ∈ counted ∨
        hasListOperation storage key (.string id) = true := by
  have counts : countedIDs current key = countedIDs storage key := by
    funext now
    unfold countedIDs
    simp only [settled.sameOperations]
  rw [counts]
  refine ⟨_, settled.value shown linkable, ?_⟩
  rcases settled.consistent with ⟨rfl, before⟩ | rfl
  · refine ⟨before.symm, fun id member => ?_⟩
    obtain ⟨other, listed, same⟩ := List.mem_map.mp member
    exact .inl (GraphQLValue.string.inj same ▸ listed)
  · constructor
    · unfold countedIDs
      rw [Option.elim_some, List.filter_append, List.filter_append]
      have none {location : OperationLocation} :
          (shownAt storage parent key location).filter
            (fun id => !hasListOperation storage key id) = [] := by
        refine List.filter_eq_nil_iff.mpr fun entry member => ?_
        simp [hasListOperation_shownAt member]
      have all : (counted.map GraphQLValue.string).filter
          (fun id => !hasListOperation storage key id) = counted.map .string := by
        refine List.filter_eq_self.mpr fun entry member => ?_
        obtain ⟨id, listed, rfl⟩ := List.mem_map.mp member
        simp [linkable.unlisted id listed]
      rw [none, none, all, List.nil_append, List.append_nil]
    · intro id member
      rcases List.mem_append.mp member with member | finish
      · rcases List.mem_append.mp member with start | between
        · exact .inr (.inr (hasListOperation_shownAt start))
        · obtain ⟨other, listed, same⟩ := List.mem_map.mp between
          exact .inr (.inl (GraphQLValue.string.inj same ▸ listed))
      · exact .inr (.inr (hasListOperation_shownAt finish))

private theorem filterIDs_nil (storage : InMemoryStorage) (ids : List GraphQLValue) :
    filterIDs storage [] ids = ids := by
  unfold filterIDs
  refine List.filter_eq_self.mpr fun id _ => ?_
  cases edgeNodeID storage id <;> simp

private theorem writeLayer_none {current : InMemoryStorage} {top : Layer}
    (last : current.data.getLast? = some top) (resolved : top.optimistic = false) :
    writeLayer none current = .ok top.id current := by
  have safe : current.topLayer = (top, current) := by
    unfold InMemoryStorage.topLayer
    rw [last]
    simp [resolved]
  unfold writeLayer
  simp [safe]

private theorem kept_writeLinkTo {ids linkedIDs : List String} {below : List Layer}
    {linked : Option (List GraphQLValue)} {current final : InMemoryStorage}
    (shown : ListShown storage parent key ids) (linkable : Linkable storage parent key linkedIDs)
    (split : storage.topLayer.2.data = below ++ [storage.topLayer.1])
    (kept : (stack below (storage.topLayer.1.relinked parent key linked)
      storage.idMaps).KeepsList parent key current)
    (success : writeLinkTo storage.topLayer.1.id parent key (.array (linkedIDs.map .string))
      current = .ok () final) :
    (stack below (storage.topLayer.1.linking parent key (linkedIDs.map .string))
      storage.idMaps).KeepsList parent key final := by
  obtain ⟨top, _, found, same, write⟩ := kept.top (quietAt_relinked shown split linked).distinct
  have target : (storage.topLayer.1.relinked parent key linked).id = storage.topLayer.1.id := by
    cases linked <;> rfl
  rw [target] at found write
  unfold writeLinkTo changeLayer at success
  rw [found] at success
  dsimp only at success
  cases linking : top.writeLink parent key (.array (linkedIDs.map .string)) with
  | error error written =>
      rw [linking] at success
      cases success
  | ok _ written =>
      rw [linking] at success
      cases success
      have unnamed : ∀ id ∈ linkedIDs, ∀ operation ∈
          storage.topLayer.1.listOperations parent key, operation.target ≠ id := by
        intro id member
        refine unnamed_of_unlisted ?_ storage.topLayer_mem parent
        rw [hasListOperation_topLayer]
        exact linkable.unlisted id member
      have keptTop : (storage.topLayer.1.linking parent key (linkedIDs.map .string)).KeepsList
          parent key written := by
        cases linked with
        | none => exact same.writeLink linkable.named linkable.undeleted unnamed linking
        | some before =>
            exact (Layer.keepsList_linking_twice before _).trans
              (Layer.KeepsList.writeLink same linkable.named linkable.undeleted unnamed linking)
      exact write _ written (congrArg Prod.fst keptTop.header) keptTop

private theorem SettledAt.write {ids counted : List String} {linked : Option (List GraphQLValue)}
    {current final : InMemoryStorage} {page : PageWrite parent key}
    (shown : ListShown storage parent key ids)
    (linkable : Linkable storage parent key (counted ++ page.page.ids))
    (settled : SettledAt storage parent key ids counted linked current)
    (unshown : ∀ id ∈ page.page.ids, id ∉ ids ∧ id ∉ counted)
    (success : page.write none current = .ok () final) :
    ∃ left : List String, left.Sublist counted ∧ (page.NodesApart current ↔ left = counted) ∧
      (page.page.ids = [] → left = counted) ∧
      SettledAt storage parent key ids (page.page.location.join page.page.ids left)
        (if page.page.ids = [] ∧ counted ≠ [] then linked
          else some ((page.page.location.join page.page.ids left).map .string)) final := by
  obtain ⟨now, listed, counts, onlyKnown⟩ := settled.listed shown
    (linkable.mono fun _ => List.mem_append_left _)
  obtain ⟨below, split, kept⟩ := settled.kept
  have alone : (stack below (storage.topLayer.1.relinked parent key linked)
      storage.idMaps).recordIDs parent = [parent] := shown.alone
  have quiet := quietAt_relinked shown split linked
  obtain ⟨top, last, found, same, write⟩ := kept.top quiet.distinct
  have header : top.header = storage.topLayer.1.header := by
    refine same.header.trans ?_
    cases linked <;> rfl
  have sameID : top.id = storage.topLayer.1.id := congrArg Prod.fst header
  have resolved : top.optimistic = false :=
    (congrArg Prod.snd header).trans storage.topLayer_optimistic
  have targeted := writeLayer_none last resolved
  rw [sameID] at targeted
  obtain ⟨extractedIDs, extracted, prepared, middle, records, keptPrepared, added, rest⟩ :=
    page.write_ok targeted (kept.quietAt quiet) ((kept.recordIDs parent).trans alone) listed success
  have concrete : isOptimistic storage.topLayer.1.id current = false := by
    have target : (storage.topLayer.1.relinked parent key linked).id = storage.topLayer.1.id := by
      cases linked <;> rfl
    rw [target] at found
    unfold isOptimistic
    rw [found]
    exact resolved
  have part : ∀ entry ∈ counted.map GraphQLValue.string, entry ∈ now := by
    intro entry member
    rw [← counts] at member
    exact List.mem_of_mem_filter member
  have apartIff : page.NodesApart current ↔
      filterIDs extracted page.page.entries (counted.map .string) = counted.map .string := by
    unfold PageWrite.NodesApart
    rw [listed]
    change (∀ found extracted, _ → filterIDs extracted _ (countedIDs current key now) =
      countedIDs current key now) ↔ _
    rw [counts, records]
    constructor
    · intro all
      exact all _ _ rfl
    · intro same _ _ success
      cases success
      exact same
  have fewer : (filterIDs extracted page.page.entries (counted.map .string)).Sublist
      (counted.map .string) := List.filter_sublist
  obtain ⟨left, sublist, filtered⟩ := List.sublist_map_iff.mp fewer
  have injective : Function.Injective (List.map GraphQLValue.string) :=
    List.map_injective_iff.mpr fun _ _ => GraphQLValue.string.inj
  rw [counts, concrete, filtered] at added
  rw [filtered] at apartIff
  have untouched : page.page.ids = [] → left = counted := by
    intro empty
    rw [ListPage.entries, empty, List.map_nil, filterIDs_nil] at filtered
    exact (injective filtered).symm
  refine ⟨left, sublist, apartIff.trans injective.eq_iff, untouched, ?_⟩
  have joined : page.page.addTo (left.map .string) =
      (page.page.location.join page.page.ids left).map .string :=
    (OperationLocation.map_join _ _ _ _).symm
  rw [joined] at added
  by_cases idle : page.page.ids = [] ∧ counted ≠ []
  · have unchanged : page.page.location.join page.page.ids left = counted := by
      rw [untouched idle.1, idle.1, OperationLocation.join_nil]
    rw [unchanged] at added ⊢
    rw [if_pos idle]
    have ended : middle = prepared := by
      rw [if_neg (by simp [idle.2])] at added
      exact (EStateM.pure_eq_ok added).2
    rw [ended] at rest
    have keptLast := (kept.trans keptPrepared).trans
      (rest ((kept.trans keptPrepared).quietAt quiet))
    exact ⟨⟨below, split, keptLast⟩, settled.consistent⟩
  · rw [if_neg idle]
    refine ⟨⟨below, split, ?_⟩, .inr rfl⟩
    have changes : (page.page.location.join page.page.ids left).map .string ≠
        counted.map GraphQLValue.string ∨
          (counted.map GraphQLValue.string = [] ∧ page.page.ids = []) := by
      by_cases filled : page.page.ids = []
      · refine .inr ⟨?_, filled⟩
        simpa [filled] using idle
      · rw [← joined]
        refine .inl (addTo_ne part (fun id member before => ?_) filled)
        rcases onlyKnown id before with known | counting | operated
        · exact (unshown id member).1 known
        · exact (unshown id member).2 counting
        · rw [linkable.unlisted id (List.mem_append_right _ member)] at operated
          cases operated
    rw [if_pos changes] at added
    have keptMiddle : (stack below (storage.topLayer.1.linking parent key
        ((page.page.location.join page.page.ids left).map .string)) storage.idMaps).KeepsList parent
          key middle := by
      have known : ∀ id ∈ page.page.location.join page.page.ids left,
          id ∈ counted ++ page.page.ids := by
        intro id member
        rcases OperationLocation.mem_join.mp member with paged | before
        · exact List.mem_append_right _ paged
        · exact List.mem_append_left _ (sublist.subset before)
      exact kept_writeLinkTo shown (linkable.mono known) split (kept.trans keptPrepared) added
    exact keptMiddle.trans (rest (keptMiddle.quietAt (quietAt_relinked shown split (some _))))

private theorem SettledAt.writePages {ids : List String} (shown : ListShown storage parent key ids)
    {rest : List (PageWrite parent key)} {counted : List String}
    {linked : Option (List GraphQLValue)} {current final : InMemoryStorage}
    (linkable : Linkable storage parent key (counted ++ pagedIDs rest))
    (nodup : (counted ++ pagedIDs rest).Nodup) (unshown : ∀ id ∈ pagedIDs rest, id ∉ ids)
    (settled : SettledAt storage parent key ids counted linked current)
    (success : writePages rest none current = .ok () final) :
    ∃ left linkedNow, SettledAt storage parent key ids left linkedNow final ∧
      (Idle rest counted → left = counted ∧ linkedNow = linked) ∧
      (¬ Idle rest counted → linkedNow = some (left.map .string)) ∧
      (∀ id ∈ left, id ∈ counted ++ pagedIDs rest) ∧
      (NodesApart rest current → left = joinPages rest counted) ∧
      (¬ NodesApart rest current → ∃ id ∈ counted ++ pagedIDs rest, id ∉ left) := by
  induction rest generalizing counted linked current with
  | nil =>
      cases success
      have idle : Idle ([] : List (PageWrite parent key)) counted :=
        ⟨List.forall_mem_nil _, .inl rfl⟩
      exact ⟨counted, linked, settled, fun _ => ⟨rfl, rfl⟩, fun busy => absurd idle busy,
        fun _ => List.mem_append_left _, fun _ => rfl, fun meets => absurd trivial meets⟩
  | cons page rest ih =>
      obtain ⟨_, middle, first, others⟩ := EStateM.bind_eq_ok success
      have all : pagedIDs (page :: rest) = page.page.ids ++ pagedIDs rest := rfl
      rw [all] at linkable nodup unshown ⊢
      have disjoint := List.nodup_append.mp nodup
      obtain ⟨left, sublist, apartIff, untouched, next⟩ := settled.write shown
        (linkable.mono fun id member => by
          rcases List.mem_append.mp member with before | paged
          · exact List.mem_append_left _ before
          · exact List.mem_append_right _ (List.mem_append_left _ paged))
        (fun id member => ⟨unshown id (List.mem_append_left _ member), fun before =>
          disjoint.2.2 id before id (List.mem_append_left _ member) rfl⟩) first
      have known : ∀ id ∈ page.page.location.join page.page.ids left ++ pagedIDs rest,
          id ∈ counted ++ (page.page.ids ++ pagedIDs rest) := by
        intro id member
        rcases List.mem_append.mp member with joined | later
        · rcases OperationLocation.mem_join.mp joined with paged | before
          · exact List.mem_append_right _ (List.mem_append_left _ paged)
          · exact List.mem_append_left _ (sublist.subset before)
        · exact List.mem_append_right _ (List.mem_append_right _ later)
      have nodupNext : (page.page.location.join page.page.ids left ++ pagedIDs rest).Nodup := by
        have apart := nodup.sublist (sublist.append_right (page.page.ids ++ pagedIDs rest))
        rw [← List.append_assoc] at apart
        have order : (page.page.location.join page.page.ids left).Perm (left ++ page.page.ids) := by
          unfold OperationLocation.join
          cases page.page.location with
          | start => exact List.perm_append_comm
          | «end» => exact .refl _
        exact (order.append_right _).nodup_iff.mpr apart
      obtain ⟨last, linkedNow, settledLast, idle, busy, within, apart, meets⟩ :=
        ih (linkable.mono known) nodupNext
          (fun id member => unshown id (List.mem_append_right _ member)) next others
      refine ⟨last, linkedNow, settledLast, fun idleAll => ?_, fun busyAll => ?_,
        fun id member => known id (within id member), fun apartAll => ?_, fun meetsAll => ?_⟩
      · have idlePage : page.page.ids = [] ∧ counted ≠ [] :=
          ⟨idleAll.1 page List.mem_cons_self, idleAll.2.resolve_left (List.cons_ne_nil _ _)⟩
        have unchanged : page.page.location.join page.page.ids left = counted := by
          rw [untouched idlePage.1, idlePage.1, OperationLocation.join_nil]
        rw [unchanged, if_pos idlePage] at idle
        exact idle ⟨fun other member => idleAll.1 other (List.mem_cons_of_mem _ member),
          .inr idlePage.2⟩
      · by_cases idleRest : Idle rest (page.page.location.join page.page.ids left)
        · obtain ⟨same, sameLink⟩ := idle idleRest
          have busyPage : ¬ (page.page.ids = [] ∧ counted ≠ []) := by
            intro idlePage
            refine busyAll ⟨?_, .inr idlePage.2⟩
            intro other member
            rcases List.mem_cons.mp member with rfl | later
            · exact idlePage.1
            · exact idleRest.1 other later
          rw [sameLink, if_neg busyPage, same]
        · exact busy idleRest
      · rw [apart (apartAll.2 middle first), apartIff.mp apartAll.1]
        rfl
      · by_cases apartPage : page.NodesApart current
        · have meetsRest : ¬ NodesApart rest middle := by
            intro apartRest
            refine meetsAll ⟨apartPage, fun other ran => ?_⟩
            cases first.symm.trans ran
            exact apartRest
          obtain ⟨id, member, lost⟩ := meets meetsRest
          exact ⟨id, known id member, lost⟩
        · have fewer : ∃ id ∈ counted, id ∉ left := by
            by_contra all
            push Not at all
            exact apartPage (apartIff.mpr
              (sublist.eq_of_length_le (disjoint.1.length_le_of_subset all)))
          obtain ⟨id, before, lost⟩ := fewer
          refine ⟨id, List.mem_append_left _ before, fun member => ?_⟩
          rcases List.mem_append.mp (within id member) with joined | later
          · rcases OperationLocation.mem_join.mp joined with paged | kept
            · exact disjoint.2.2 id before id (List.mem_append_left _ paged) rfl
            · exact lost kept
          · exact disjoint.2.2 id before id (List.mem_append_right _ later) rfl

def storedIDs (storage : InMemoryStorage) (key : String) (ids : List String) : List String :=
  ids.filter fun id => !hasListOperation storage key (.string id)

/-- The list shows the records that no operation put there, between those that the layer that is
safe to write to inserts itself. At most one page goes to the start and at most one record to the
end, where that layer must not insert any. -/
structure ShownInOrder (storage : InMemoryStorage) (ids : List String)
    (pages : List (PageWrite parent key)) : Prop where
  around : ids.map GraphQLValue.string = shownAt storage parent key .start ++
    (storedIDs storage key ids).map .string ++ shownAt storage parent key .end
  startFree : pagesAt .start pages ≠ [] → shownAt storage parent key .start = []
  endFree : (pagesAt .end pages).flatten ≠ [] → shownAt storage parent key .end = []
  oneStart : (pagesAt .start pages).length ≤ 1
  oneEnd : (pagesAt .end pages).flatten.length ≤ 1
  apart : NodesApart pages storage

private theorem write_topLayer (page : PageWrite parent key) :
    page.write none storage = page.write none storage.topLayer.2 ∧
      page.writeRecords none storage = page.writeRecords none storage.topLayer.2 := by
  have again : storage.topLayer.2.topLayer = storage.topLayer := by
    have last := storage.topLayer_getLast?
    have resolved := storage.topLayer_optimistic
    generalize storage.topLayer = top at last resolved
    unfold InMemoryStorage.topLayer
    rw [last]
    simp [resolved]
  have same : writeLayer none storage = writeLayer none storage.topLayer.2 := by
    unfold writeLayer
    change EStateM.Result.ok storage.topLayer.1.id storage.topLayer.2 =
      .ok storage.topLayer.2.topLayer.1.id storage.topLayer.2.topLayer.2
    rw [again]
  unfold PageWrite.write PageWrite.writeRecords Cache.write
  rw [EStateM.bind_apply, EStateM.bind_apply, EStateM.bind_apply, EStateM.bind_apply, same]
  exact ⟨rfl, rfl⟩

private theorem nodesApart_topLayer (pages : List (PageWrite parent key)) :
    NodesApart pages storage ↔ NodesApart pages storage.topLayer.2 := by
  cases pages with
  | nil => exact Iff.rfl
  | cons page rest =>
      have counts : countedIDs storage key = countedIDs storage.topLayer.2 key := by
        funext now
        unfold countedIDs
        simp only [hasListOperation_topLayer]
      unfold NodesApart PageWrite.NodesApart
      rw [(write_topLayer page).1, (write_topLayer page).2, counts, storage.value_topLayer]

private theorem linkable_pages {ids : List String} {pages : List (PageWrite parent key)}
    (shown : ListShown storage parent key ids) (new : NewPages storage ids pages) :
    Linkable storage parent key (storedIDs storage key ids ++ pagedIDs pages) where
  named := by
    intro id member
    rcases List.mem_append.mp member with stored | paged
    · exact shown.named id (List.mem_of_mem_filter stored)
    · obtain ⟨page, _, listed⟩ := List.mem_flatMap.mp paged
      exact named_of_records page.path.list.records id listed
  undeleted := by
    intro id member
    rcases List.mem_append.mp member with stored | paged
    · exact shown.kept id (List.mem_of_mem_filter stored)
    · rcases topLayer_cases storage with ⟨present, _⟩ | created
      · exact (new.kept id paged _ present).1
      · rw [created]
        rfl
  unlisted := by
    intro id member
    rcases List.mem_append.mp member with stored | paged
    · simpa using (List.mem_filter.mp stored).2
    · exact new.unlisted id paged
  unremoved := by
    intro id member
    rcases List.mem_append.mp member with stored | paged
    · exact (view_topLayer shown).2 id (List.mem_of_mem_filter stored)
    · rcases topLayer_cases storage with ⟨present, _⟩ | created
      · exact new.unremoved id paged _ present
      · rw [created]
        exact List.not_mem_nil

/-- What the topmost layer shows after the pages, up to records that are dropped for the sake of
their nodes. -/
private theorem value_writePages_topLayer {ids : List String} {pages : List (PageWrite parent key)}
    (shown : ListShown storage parent key ids) (new : NewPages storage ids pages)
    {final : InMemoryStorage} (success : writePages pages none storage = .ok () final) :
    (Idle pages (storedIDs storage key ids) ∧
        final.value parent key = .array (ids.map .string)) ∨
      ¬ Idle pages (storedIDs storage key ids) ∧ ∃ left : List String,
        final.value parent key = .array (shownAt storage parent key .start ++
          left.map .string ++ shownAt storage parent key .end) ∧
        (NodesApart pages storage → left = joinPages pages (storedIDs storage key ids)) ∧
        (¬ NodesApart pages storage →
          ∃ id ∈ storedIDs storage key ids ++ pagedIDs pages, id ∉ left) := by
  obtain ⟨below, split⟩ := List.getLast?_eq_some_iff.mp storage.topLayer_getLast?
  have opened : SettledAt storage parent key ids (storedIDs storage key ids) none
      storage.topLayer.2 :=
    { kept := ⟨below, split, by
        change List.Forall₂ _ (below ++ [storage.topLayer.1]) _
        rw [← split]
        exact List.forall₂_same.mpr fun layer _ => .refl layer, storage.topLayer_idMaps⟩
      consistent := .inl ⟨rfl, by
        unfold storedIDs countedIDs
        rw [List.filter_map]
        rfl⟩ }
  have linkable := linkable_pages shown new
  have nodup : (storedIDs storage key ids ++ pagedIDs pages).Nodup := by
    refine List.nodup_append.mpr ⟨shown.nodup.sublist List.filter_sublist, new.nodup, ?_⟩
    intro id stored other paged same
    exact new.unshown other paged (same ▸ List.mem_of_mem_filter stored)
  have fromTop : pages = [] ∨ writePages pages none storage.topLayer.2 = .ok () final := by
    cases pages with
    | nil => exact .inl rfl
    | cons page rest =>
        refine .inr (Eq.trans ?_ success)
        change (page.write none >>= fun _ => _) _ = (page.write none >>= fun _ => _) _
        have same := (@write_topLayer _ _ storage page).1
        rw [EStateM.bind_apply, EStateM.bind_apply, ← same]
  rcases fromTop with rfl | success
  · cases success
    exact .inl ⟨⟨List.forall_mem_nil _, .inl rfl⟩, shown.value⟩
  · obtain ⟨left, linked, settled, idle, busy, within, apart, meets⟩ :=
      opened.writePages shown linkable nodup new.unshown success
    rw [← nodesApart_topLayer] at apart meets
    have value := settled.value shown (linkable.mono within)
    by_cases idleAll : Idle pages (storedIDs storage key ids)
    · obtain ⟨rfl, rfl⟩ := idle idleAll
      exact .inl ⟨idleAll, value⟩
    · rw [busy idleAll] at value
      exact .inr ⟨idleAll, left, value, apart, meets⟩

private theorem order_iff {ids : List String} {pages : List (PageWrite parent key)}
    (new : NewPages storage ids pages) :
    (pagesAt .start pages).flatten ++ ids.map .string ++ (pagesAt .end pages).flatten.reverse =
        shownAt storage parent key .start ++
            (joinPages pages (storedIDs storage key ids)).map .string ++
          shownAt storage parent key .end ↔
      ids.map GraphQLValue.string = shownAt storage parent key .start ++
          (storedIDs storage key ids).map .string ++ shownAt storage parent key .end ∧
        (pagesAt .start pages ≠ [] → shownAt storage parent key .start = []) ∧
        ((pagesAt .end pages).flatten ≠ [] → shownAt storage parent key .end = []) ∧
        (pagesAt .start pages).length ≤ 1 ∧ (pagesAt .end pages).flatten.length ≤ 1 := by
  have nodup : ((pagedIDs pages).map GraphQLValue.string).Nodup :=
    new.nodup.map fun _ _ => GraphQLValue.string.inj
  have apart {location : OperationLocation} :
      ∀ entry ∈ (pagesAt location pages).flatten, entry ∉ shownAt storage parent key location := by
    intro entry paged operated
    obtain ⟨id, member, rfl⟩ := mem_pagedIDs_of_mem paged
    have named := hasListOperation_shownAt operated
    rw [new.unlisted id member] at named
    cases named
  have filled : ∀ chunk ∈ pagesAt .start pages, chunk ≠ [] := by
    intro chunk member
    obtain ⟨page, kept, rfl⟩ := List.mem_map.mp member
    have nonempty := (List.mem_filter.mp kept).2
    simp only [ne_eq, Bool.decide_and, Bool.and_eq_true, decide_eq_true_eq] at nonempty
    simpa [ListPage.entries] using nonempty.2
  rw [joinPages_eq]
  exact List.ends_eq_iff filled (nodup.sublist (pagesAt_sublist _ _))
    (nodup.sublist (pagesAt_sublist _ _)) apart apart

/-- The pages show alike just if there are none to speak of, or nothing is out of order. -/
theorem writePages_alike_iff {ids : List String} {pages : List (PageWrite parent key)}
    (shown : ListShown storage parent key ids) (new : NewPages storage ids pages)
    {optimistic settled : InMemoryStorage}
    (pending : writePages pages (some (storage.createLayer true).1.id)
      (storage.createLayer true).2 = .ok () optimistic)
    (written : writePages pages none storage = .ok () settled) :
    optimistic.value parent key = settled.value parent key ↔
      Idle pages (storedIDs storage key ids) ∨ ShownInOrder storage ids pages := by
  rw [value_writePages_optimistic shown new pending]
  have order := order_iff new
  rcases value_writePages_topLayer shown new written with ⟨idle, value⟩ |
    ⟨busy, left, value, apart, meets⟩
  · have none (location : OperationLocation) : pagesAt location pages = [] := by
      unfold pagesAt
      rw [List.map_eq_nil_iff, List.filter_eq_nil_iff]
      intro page member
      simp [idle.1 page member]
    rw [value, none, none]
    simp [idle]
  · rw [value, GraphQLValue.array.injEq]
    constructor
    · intro same
      have nodes : NodesApart pages storage := by
        by_contra clash
        obtain ⟨id, known, lost⟩ := meets clash
        have before : .string id ∈ (pagesAt .start pages).flatten ++
            ids.map GraphQLValue.string ++ (pagesAt .end pages).flatten.reverse := by
          rcases List.mem_append.mp known with stored | paged
          · have listed : id ∈ ids := List.mem_of_mem_filter stored
            exact List.mem_append_left _ (List.mem_append_right _ (List.mem_map_of_mem listed))
          · obtain ⟨location, member⟩ := mem_pagesAt paged
            cases location with
            | start => exact List.mem_append_left _ (List.mem_append_left _ member)
            | «end» => exact List.mem_append_right _ (List.mem_reverse.mpr member)
        have unlisted := (linkable_pages shown new).unlisted id known
        have operated {location : OperationLocation}
            (member : .string id ∈ shownAt storage parent key location) : False := by
          rw [hasListOperation_shownAt member] at unlisted
          cases unlisted
        rw [same] at before
        rcases List.mem_append.mp before with before | finish
        · rcases List.mem_append.mp before with start | between
          · exact operated start
          · obtain ⟨other, member, sameID⟩ := List.mem_map.mp between
            exact lost (GraphQLValue.string.inj sameID ▸ member)
        · exact operated finish
      rw [apart nodes] at same
      obtain ⟨around, startFree, endFree, oneStart, oneEnd⟩ := order.mp same
      exact .inr ⟨around, startFree, endFree, oneStart, oneEnd, nodes⟩
    · intro condition
      have inOrder := condition.resolve_left busy
      rw [apart inOrder.apart]
      exact order.mpr ⟨inOrder.around, inOrder.startFree, inOrder.endFree, inOrder.oneStart,
        inOrder.oneEnd⟩

end Settled

private def pagedField : SelectionField where
  type := "User"
  keyRaw := "users"
  updates := some ["append", "prepend"]
  selection := some { fields := [("id", { type := "ID", keyRaw := "id" })] }

private theorem id_otherKey : OtherKey "_ROOT_" "users" "id" := by
  refine ⟨by decide, fun field _ => Bool.eq_false_iff.mpr fun owned => ?_⟩
  have bracket : '[' ∈ (field.parent ++ "." ++ field.key ++ "[").toList := by simp
  have inside := (List.isPrefixOf_iff_prefix.mp owned).subset bracket
  exact absurd inside (by decide)

private theorem user_keysAllowed :
    KeysAllowed [] (OtherKey "_ROOT_" "users")
      { fields := [("id", { type := "ID", keyRaw := "id" })] } := by
  have only {typename : Option String} {fields : FieldSelections}
      (typed : getFieldsForType { fields := [("id", { type := "ID", keyRaw := "id" })] } typename =
        some fields) : fields = [("id", { type := "ID", keyRaw := "id" })] :=
    (Option.some.inj typed).symm
  refine .intro (fun typename fields typed entry member => ?_)
    fun typename fields typed entry member inner nested => ?_
  · rw [only typed, List.mem_singleton] at member
    rw [member]
    exact id_otherKey
  · rw [only typed, List.mem_singleton] at member
    rw [member] at nested
    cases nested

private def user (number : String) : GraphQLValue := .object [("id", .string number)]

def usersPage (location : OperationLocation) (numbers ids : List String)
    (records : (numbers.map user).map (LinkedField.recordOf
      { parent := "_ROOT_", key := "users", linkedType := "User", abstract := false } {}) =
        ids.map some) : PageWrite "_ROOT_" "users" where
  context := { applyUpdates := some [location.update] }
  enabled := rfl
  page := { location, ids }
  update := rfl
  selection := { fields := [("users", pagedField)] }
  plain := rfl
  root := rootID
  data := [("users", .array (numbers.map user))]
  path := .here [] [("users", pagedField)]
    { field := pagedField
      keyed := rfl
      accepted := by cases location <;> simp [pagedField, OperationLocation.update]
      inner := { fields := [("id", { type := "ID", keyRaw := "id" })] }
      linked := rfl
      entries := numbers.map user
      records
      apart := user_keysAllowed }
    rfl rfl (List.forall_mem_nil _)

private def listedUser : Layer where
  id := 1
  links := (∅ : EntityMap GraphQLValue).setIn "_ROOT_" "users" (.array [.string "User:1"])

def firstUser : InMemoryStorage where
  data := [listedUser]
  idCount := 2

private theorem firstUser_shown : ListShown firstUser "_ROOT_" "users" ["User:1"] where
  reachable := by
    have created : Relation.ReflTransGen InMemoryStorage.Step {} _ :=
      .tail .refl (.createLayer {} false)
    exact created.tail (.layer (.head _) (.writeLink { id := 1 } "_ROOT_" "users"
      (.array [.string "User:1"])))
  alone := by decide
  value := by decide
  nodup := by decide
  named := by decide
  kept := by decide
  undone := fun _ => rfl

private def twoUsers : PageWrite "_ROOT_" "users" :=
  usersPage .end ["2", "3"] ["User:2", "User:3"] (by decide)

private def oneUser : PageWrite "_ROOT_" "users" := usersPage .end ["2"] ["User:2"] (by decide)

private theorem oneUser_new : NewPages firstUser ["User:1"] [oneUser] where
  nodup := by decide
  unshown := by decide
  unlisted := by decide
  kept := by decide

private theorem oneUser_inOrder :
    ShownInOrder firstUser ["User:1"] [oneUser] where
  around := by decide
  startFree := by decide
  endFree := by decide
  oneStart := by decide
  oneEnd := by decide
  apart := by
    refine ⟨fun found extracted ran => ?_, fun _ _ => trivial⟩
    cases ran
    decide +kernel

theorem writePages_alike_oneUser :
    ∃ optimistic settled,
      writePages [oneUser] (some (firstUser.createLayer true).1.id) (firstUser.createLayer true).2 =
        .ok () optimistic ∧
      writePages [oneUser] none firstUser = .ok () settled ∧
      optimistic.value "_ROOT_" "users" = settled.value "_ROOT_" "users" :=
  ⟨_, _, rfl, rfl,
    (writePages_alike_iff firstUser_shown oneUser_new rfl rfl).mpr (.inr oneUser_inOrder)⟩

/-- Two users that are appended at once stand in the other order on an optimistic layer. -/
theorem writePages_reverses_twoUsers :
    ListShown firstUser "_ROOT_" "users" ["User:1"] ∧
      NewPages firstUser ["User:1"] [twoUsers] ∧
      ∃ optimistic settled,
        writePages [twoUsers] (some (firstUser.createLayer true).1.id)
          (firstUser.createLayer true).2 = .ok () optimistic ∧
        writePages [twoUsers] none firstUser = .ok () settled ∧
        optimistic.value "_ROOT_" "users" =
          .array [.string "User:1", .string "User:3", .string "User:2"] ∧
        settled.value "_ROOT_" "users" =
          .array [.string "User:1", .string "User:2", .string "User:3"] :=
  ⟨firstUser_shown, ⟨by decide, by decide, by decide, by decide⟩, _, _, rfl, rfl,
    by decide +kernel, by decide +kernel⟩

end Houdini.Runtime.Cache
