import Houdini.Runtime.Cache.FaithfulMerge
import Houdini.Runtime.Cache.StorageRuns

/-! Resolving a layer preserves what the cache displays, as long as every merge
of the resolved run is faithful. -/

set_option autoImplicit false

namespace Houdini.Runtime.Cache

section Reading

variable {storage : InMemoryStorage} {below lowers above : List Layer}
  {bottom upper lower merged : Layer}

private theorem hidden_same
    (faithful : storage.FaithfulMerge below lowers above bottom upper)
    (mergedFrom : MergedFrom storage below lowers (upper :: above) bottom lower)
    (merge : Layer.Merged lower upper merged) (field : String) (value : GraphQLValue) :
    value ∈ (merged.hidden storage.idMaps field).removed ↔
      value ∈ (upper.hidden storage.idMaps field).removed ∨
        value ∈ (lower.hidden storage.idMaps field).removed := by
  simp only [Layer.mem_hidden, merged_hiddenIDs faithful mergedFrom merge, and_or_left, exists_or]

/-- The patches of two layers, one above the other, and the patch of the merged
layer show the same lists when nothing is stored on top. -/
private theorem merged_covers
    (faithful : storage.FaithfulMerge below lowers above bottom upper)
    (mergedFrom : MergedFrom storage below lowers (upper :: above) bottom lower)
    (merge : Layer.Merged lower upper merged) {target id field : String}
    (named : id ∈ storage.recordIDs target) (baseKept : bottom.deletes id = false)
    (upperKept : upper.deletes id = false) (unset : upper.value id field = .undefined)
    (tracks : Tracks storage lowers (upper :: above) lower target id field) :
    ∃ cancelled : List GraphQLValue,
      ListPatch.Covers cancelled
        ((upper.view storage.idMaps id field).patch.comp (lower.view storage.idMaps id field).patch)
        (merged.view storage.idMaps id field).patch ∧
      ∀ value ∈ cancelled, ∃ entry, value = .string entry ∧
        storage.Absent (below ++ above) target field entry ∧
        ∀ layer ∈ lowers, .string entry ∉ (layer.value id field).items := by
  let upperOperations := upper.listOperations id field
  let lowerOperations := lower.listOperations id field
  have opened : Layer.openOperations id field (upper :: lowers) =
      upperOperations ++ Layer.openOperations id field lowers := by
    simp [Layer.openOperations, unset, GraphQLValue.isArray, upperOperations]
  have rearranged :
      ListPatch.Same
        (((upper.hidden storage.idMaps field).comp (ListOperation.patch upperOperations)).comp
          ((lower.hidden storage.idMaps field).comp (ListOperation.patch lowerOperations)))
        ((merged.hidden storage.idMaps field).comp
          (ListOperation.patch (upperOperations ++ lowerOperations))) := by
    rw [ListOperation.patch_append]
    refine ⟨by simp [Layer.hidden], by simp [Layer.hidden], fun value => ?_⟩
    simp only [ListPatch.comp_removed, List.mem_append, hidden_same faithful mergedFrom merge]
    tauto
  have toggled (entry : String)
      (inserted : ListOperation.Inserts (upperOperations ++ lowerOperations) entry)
      (removed : ListOperation.Removes (upperOperations ++ lowerOperations) entry) :
      ListOperation.Inserts (Layer.openOperations id field (upper :: lowers)) entry ∧
        ListOperation.Removes (Layer.openOperations id field (upper :: lowers)) entry ∧
        Layer.netOperations (upperOperations ++ lowerOperations) entry =
          Layer.netOperations (Layer.openOperations id field (upper :: lowers)) entry := by
    have notInert : ¬ Inert storage (upper :: above) lower target id field entry := by
      intro inert
      rcases ListOperation.inserts_append.mp inserted with inUpper | inLower
      · exact (inert.absent upper List.mem_cons_self id named).inserted inUpper
      · exact inert.omits.inserted inLower
    rw [opened, ListOperation.inserts_append, ListOperation.removes_append,
      Layer.netOperations_append, Layer.netOperations_append]
    refine ⟨(ListOperation.inserts_append.mp inserted).imp_right (tracks.inserts entry),
      (ListOperation.removes_append.mp removed).imp_right fun inLower =>
        (tracks.removes entry inLower).resolve_right notInert, ?_⟩
    rw [(tracks.net entry).resolve_right notInert]
  have mergedOperations := merge.listOperations id field
  rw [linked_eq_nil unset, ListOperation.undone_nil] at mergedOperations
  cases held : (upper.operations.get? id).isSome with
  | false =>
      rw [held, if_neg (by decide)] at mergedOperations
      have none := listOperations_of_none held field
      refine ⟨[], ?_, fun _ member => absurd member List.not_mem_nil⟩
      refine (ListPatch.Covers.refl _).of_same ?_
      simpa only [Layer.view, mergedOperations, upperOperations, lowerOperations, none,
        List.nil_append] using rearranged
  | true =>
      rw [held, if_pos rfl] at mergedOperations
      refine ⟨ListOperation.cancelled (upperOperations ++ lowerOperations), ?_, ?_⟩
      · have compacted := ListOperation.compactOperations_covers
          (upperOperations ++ lowerOperations)
          (ListOperation.cancelled (upperOperations ++ lowerOperations))
          (fun entry inserted removed => by
            obtain ⟨openInserted, openRemoved, sameNet⟩ := toggled entry inserted removed
            rw [ListOperation.mem_cancelled, sameNet]
            exact (faithful.toggles target id field named baseKept upperKept held entry
              openInserted openRemoved).imp_right fun balanced =>
                ⟨inserted, removed, balanced.1⟩)
          (fun entry member => by
            have balanced := (ListOperation.mem_cancelled.mp member).2.2
            omega)
        have underHidden := compacted.comp_left (merged.hidden storage.idMaps field)
          (merged.hidden_avoids storage.idMaps field _)
        simp only [Layer.view, mergedOperations]
        exact underHidden.of_same rearranged
      · intro value member
        obtain ⟨entry, rfl⟩ := ListOperation.string_of_mem_cancelled member
        obtain ⟨inserted, removed, balanced⟩ := ListOperation.mem_cancelled.mp member
        obtain ⟨openInserted, openRemoved, sameNet⟩ := toggled entry inserted removed
        have settled := faithful.toggles target id field named baseKept upperKept held entry
          openInserted openRemoved
        rw [← sameNet] at settled
        obtain ⟨_, absent, unstored⟩ := settled.resolve_left (by omega)
        exact ⟨entry, rfl, absent, fun layer inLowers =>
          unstored layer (List.mem_cons_of_mem _ inLowers)⟩

private theorem merged_list
    (faithful : storage.FaithfulMerge below lowers above bottom upper)
    (mergedFrom : MergedFrom storage below lowers (upper :: above) bottom lower)
    (merge : Layer.Merged lower upper merged) {target id field : String}
    (named : id ∈ storage.recordIDs target) (baseKept : bottom.deletes id = false)
    (upperKept : upper.deletes id = false) {entries : List GraphQLValue}
    (stored : upper.value id field = .array entries) {pending : ListPatch GraphQLValue}
    (pendingAvoids : ∀ entry, storage.Absent above target field entry →
      pending.Avoids [.string entry])
    (shown : (storage.get target field).value =
      .array ((pending.comp (upper.view storage.idMaps id field).patch).apply entries)) :
    (pending.comp (upper.view storage.idMaps id field).patch).apply entries =
      (pending.comp (merged.view storage.idMaps id field).patch).apply entries := by
  let upperOperations := upper.listOperations id field
  let lowerOperations := lower.listOperations id field
  let linked := upper.linked id field
  let left := ListOperation.undone linked lowerOperations
  have isList : (upper.value id field).isArray = true := by rw [stored]; rfl
  have list := faithful.lists target id field named baseKept upperKept isList
  have removesOnly := FaithfulList.removesOnly named list mergedFrom
  -- the merged layer without compaction: more removed entries, none of them displayed
  let full := pending.comp
    ((merged.hidden storage.idMaps field).comp (ListOperation.patch (upperOperations ++ left)))
  have leftInserts (operation : ListOperation) (member : operation ∈ left) :
      ∃ removed, operation = .remove removed ∧ .string removed ∉ linked ∧
        storage.Absent (upper :: above) target field removed := by
    have held := ListOperation.undone_subset member
    obtain ⟨removed, rfl, _, inLinked | absent⟩ := removesOnly operation held
    · exact absurd inLinked (ListOperation.removes_undone.mp member).2
    · exact ⟨removed, rfl, (ListOperation.removes_undone.mp member).2, absent⟩
  have noStart : left.filterMap ListOperation.startTarget? = [] := by
    rw [List.filterMap_eq_nil_iff]
    intro operation member
    obtain ⟨removed, rfl, _⟩ := leftInserts operation member
    rfl
  have noEnd : left.filterMap ListOperation.endTarget? = [] := by
    rw [List.filterMap_eq_nil_iff]
    intro operation member
    obtain ⟨removed, rfl, _⟩ := leftInserts operation member
    rfl
  have widened : full.apply entries =
      (pending.comp (upper.view storage.idMaps id field).patch).apply entries := by
    refine ListPatch.apply_eq_of_removed ?_ ?_ ?_ ?_
    · simp [full, Layer.view, Layer.hidden, ListOperation.patch, noStart, upperOperations]
    · simp [full, Layer.view, Layer.hidden, ListOperation.patch, noEnd, upperOperations]
    · intro value member
      simp only [Layer.view, ListPatch.comp_removed, List.mem_append] at member
      simp only [full, ListPatch.comp_removed, List.mem_append,
        hidden_same faithful mergedFrom merge, ListOperation.patch_append]
      tauto
    · intro value member displayed
      have kept := (ListPatch.mem_apply.mp displayed).2
      simp only [Layer.view, ListPatch.comp_removed, List.mem_append, not_or] at kept
      simp only [full, ListPatch.comp_removed, List.mem_append,
        hidden_same faithful mergedFrom merge, ListOperation.patch_append] at member
      rcases member with inPending | (inUpper | inLower) | inOperations | inLeft
      · exact kept.1 inPending
      · exact kept.2.1 inUpper
      · obtain ⟨entry, rfl, hides⟩ := Layer.mem_hidden.mp inLower
        obtain ⟨layer, inLowers, hidesBelow⟩ := (mergedFrom.hiddenIDs field entry).mp hides
        refine list.hidden layer inLowers entry hidesBelow ?_
        rw [shown]
        exact displayed
      · exact kept.2.2 inOperations
      · -- a remove left from below is of an entry that nothing shows
        obtain ⟨entry, rfl, removed⟩ := ListOperation.mem_patch_removed.mp inLeft
        obtain ⟨other, same, _, absent⟩ := leftInserts _ removed
        cases same
        have omitted := absent upper List.mem_cons_self id named
        have fromPending := pendingAvoids entry
          (fun layer member => absent layer (List.mem_cons_of_mem _ member)) (.string entry)
          List.mem_cons_self
        have fromView := Layer.view_avoids storage.idMaps
          [.string entry] (fun other member => by
            simp only [List.mem_singleton, GraphQLValue.string.injEq] at member
            exact member ▸ omitted.inserted) (.string entry) List.mem_cons_self
        have unstored := omitted.stored
        rw [stored] at unstored
        rcases (ListPatch.mem_apply.mp displayed).1 with inStart | inEntries | inEnd
        · exact (List.mem_append.mp inStart).elim fromPending.1 fromView.1
        · exact unstored inEntries
        · exact (List.mem_append.mp inEnd).elim fromView.2 fromPending.2
  rw [← widened]
  have mergedOperations := merge.listOperations id field
  cases held : (upper.operations.get? id).isSome with
  | false =>
      rw [held, if_neg (by decide)] at mergedOperations
      have none : upperOperations = [] := listOperations_of_none held field
      simp only [full, Layer.view, mergedOperations, none, List.nil_append, left,
        lowerOperations, linked]
  | true =>
      rw [held, if_pos rfl] at mergedOperations
      have settles (entry : String) (inserted : ListOperation.Inserts upperOperations entry)
          (removed : ListOperation.Removes upperOperations entry) :
          Layer.netOperations upperOperations entry < 0 ∨
            Layer.netOperations upperOperations entry = 0 ∧
            storage.Absent (below ++ above) target field entry ∧
            ∀ layer ∈ upper :: lowers, .string entry ∉ (layer.value id field).items := by
        have opened : Layer.openOperations id field (upper :: lowers) = upperOperations := by
          simp [Layer.openOperations, isList, upperOperations]
        have settled := faithful.toggles target id field named baseKept upperKept held entry
        rw [opened] at settled
        exact settled inserted removed
      have covers := ListOperation.undone_covers linked
        (fun operation member => by
          obtain ⟨removed, same, notInserted, _⟩ := removesOnly operation member
          exact ⟨removed, same, notInserted⟩)
        list.removes
        (fun entry inserted removed =>
          (settles entry inserted removed).imp_right fun balanced => balanced.1)
      have balancedOnly (value : GraphQLValue)
          (member : value ∈ ListOperation.cancelled upperOperations) :
          ∃ entry, value = .string entry ∧
            storage.Absent (below ++ above) target field entry ∧
            .string entry ∉ entries := by
        obtain ⟨entry, rfl⟩ := ListOperation.string_of_mem_cancelled member
        obtain ⟨inserted, removed, balanced⟩ := ListOperation.mem_cancelled.mp member
        obtain ⟨_, absent, unstored⟩ :=
          (settles entry inserted removed).resolve_left (by omega)
        have notHere := unstored upper List.mem_cons_self
        rw [stored] at notHere
        exact ⟨entry, rfl, absent, notHere⟩
      have underPending :=
        (covers.comp_left _ (merged.hidden_avoids storage.idMaps field _)).comp_left
          pending (fun value member => by
            obtain ⟨entry, rfl, absent, _⟩ := balancedOnly value member
            exact pendingAvoids entry
              (fun layer inAbove => absent layer (List.mem_append_right _ inAbove)) _
              List.mem_cons_self)
      simp only [Layer.view, mergedOperations]
      exact underPending.apply_eq fun value member => by
        obtain ⟨entry, rfl, _, unstored⟩ := balancedOnly value member
        exact unstored

/-- Reading two layers, one above the other, and reading the merged layer in their
place shows the same. -/
private theorem read_merged
    (faithful : storage.FaithfulMerge below lowers above bottom upper)
    (mergedFrom : MergedFrom storage below lowers (upper :: above) bottom lower)
    (merge : Layer.Merged lower upper merged) {target id field : String}
    (named : id ∈ storage.recordIDs target) {pending : ListPatch GraphQLValue}
    (pendingAvoids : ∀ entry, storage.Absent above target field entry →
      pending.Avoids [.string entry])
    (shown : (storage.get target field).value =
      cellValue (PatchView.read pending (upper.view storage.idMaps id field ::
        lower.view storage.idMaps id field ::
          ({ storage with data := below }.views target field)))) :
    PatchView.read pending (upper.view storage.idMaps id field ::
        lower.view storage.idMaps id field ::
          ({ storage with data := below }.views target field)) =
      PatchView.read pending (merged.view storage.idMaps id field ::
        ({ storage with data := below }.views target field)) := by
  have belowRead : ∀ view ∈ ({ storage with data := below }.views target field), ∀ entry,
      storage.Absent (below ++ above) target field entry →
        ¬ view.Contributes (.string entry) := by
    intro view member entry absent
    obtain ⟨layer, inBelow, inLayer⟩ := List.mem_flatMap.mp member
    obtain ⟨other, otherNamed, rfl⟩ := List.mem_map.mp inLayer
    have omits := absent layer (List.mem_append_left _ (List.mem_reverse.mp inBelow)) other
      otherNamed
    exact omits.not_contributes storage.idMaps
  have uncovered (nothing : Uncovered storage below target) (other : ListPatch GraphQLValue) :
      PatchView.read other ({ storage with data := below }.views target field) = .nothing :=
    PatchView.read_eq_nothing_iff.mp
      ((InMemoryStorage.get_value_eq_undefined_iff _ target field).mp (nothing field))
  generalize { storage with data := below }.views target field = rest at shown belowRead uncovered ⊢
  have value := merged_value faithful mergedFrom merge id field
  have lowerDeletes := mergedFrom.deletes id
  have mergedDeletes := (merge.deletes id).trans lowerDeletes
  have lists := faithful.deletedLists id field
  by_cases upperUnset : upper.value id field = .undefined
  · rw [if_pos upperUnset] at value
    cases upperDeletes : upper.deletes id with
    | true =>
        rw [if_pos upperDeletes] at value
        rw [PatchView.read_deletes (by simp [Layer.view, upperUnset, storedCell]) upperDeletes]
        cases baseDeletes : bottom.deletes id with
        | true =>
            rw [PatchView.read_deletes (by simp [Layer.view, value, storedCell])
              (mergedDeletes.trans baseDeletes)]
        | false =>
            rw [PatchView.read_nothing (by simp [Layer.view, value, storedCell])
              (mergedDeletes.trans baseDeletes)]
            exact (uncovered
              (faithful.deletedRecords target id named upperDeletes baseDeletes) _).symm
    | false =>
        rw [if_neg (by simp [upperDeletes])] at value
        have sameCell : (merged.view storage.idMaps id field).stored =
            (lower.view storage.idMaps id field).stored := congrArg storedCell value
        rw [PatchView.read_nothing (by simp [Layer.view, upperUnset, storedCell]) upperDeletes]
        cases cell : (lower.view storage.idMaps id field).stored with
        | scalar stored =>
            rw [PatchView.read_scalar cell, PatchView.read_scalar (sameCell.trans cell)]
        | nothing =>
            cases baseDeletes : bottom.deletes id with
            | true =>
                rw [PatchView.read_deletes (by simp [cell]) (lowerDeletes.trans baseDeletes),
                  PatchView.read_deletes (by simp [sameCell, cell])
                    (mergedDeletes.trans baseDeletes)]
            | false =>
                rw [PatchView.read_nothing cell (lowerDeletes.trans baseDeletes),
                  PatchView.read_nothing (sameCell.trans cell)
                    (mergedDeletes.trans baseDeletes)]
                rcases mergedFrom.tracked target id field named baseDeletes with
                  ⟨_, nothing⟩ | tracks
                · rw [uncovered nothing, uncovered nothing]
                · obtain ⟨cancelled, covers, silent⟩ := merged_covers faithful mergedFrom merge
                    named baseDeletes upperDeletes upperUnset
                    (tracks (.inl (storedCell_eq_nothing.mp cell)))
                  rw [ListPatch.comp_assoc]
                  refine PatchView.read_covers (covers.comp_left _ ?_) ?_
                  · intro entry member
                    obtain ⟨name, rfl, absent, _⟩ := silent entry member
                    exact pendingAvoids name
                      (fun layer inAbove => absent layer (List.mem_append_right _ inAbove)) _
                      List.mem_cons_self
                  · intro view inRest entry member
                    obtain ⟨name, rfl, absent, _⟩ := silent entry member
                    exact belowRead view inRest name absent
        | list entries =>
            cases baseDeletes : bottom.deletes id with
            | true =>
                rw [PatchView.read_deletes (by simp [cell]) (lowerDeletes.trans baseDeletes),
                  PatchView.read_deletes (by simp [sameCell, cell])
                    (mergedDeletes.trans baseDeletes)]
            | false =>
                rw [PatchView.read_list cell (lowerDeletes.trans baseDeletes),
                  PatchView.read_list (sameCell.trans cell) (mergedDeletes.trans baseDeletes)]
                have stored : lower.value id field = .array entries := storedCell_eq_list.mp cell
                rcases mergedFrom.tracked target id field named baseDeletes with
                  ⟨unset, _⟩ | tracks
                · rw [unset] at stored
                  cases stored
                · obtain ⟨cancelled, covers, silent⟩ := merged_covers faithful mergedFrom merge
                    named baseDeletes upperDeletes upperUnset (tracks (.inr (by rw [stored]; rfl)))
                  rw [ListPatch.comp_assoc]
                  refine congrArg _ (ListPatch.Covers.apply_eq (covers.comp_left _ ?_) ?_)
                  · intro entry member
                    obtain ⟨name, rfl, absent, _⟩ := silent entry member
                    exact pendingAvoids name
                      (fun layer inAbove => absent layer (List.mem_append_right _ inAbove)) _
                      List.mem_cons_self
                  · intro entry member
                    obtain ⟨name, rfl, _, unstored⟩ := silent entry member
                    rcases mergedFrom.value id field with unset | ⟨layer, inLowers, same⟩
                    · rw [unset] at stored
                      cases stored
                    · have missing := unstored layer inLowers
                      rw [← same, stored] at missing
                      exact missing
  · rw [if_neg upperUnset] at value
    have sameCell : (merged.view storage.idMaps id field).stored =
        (upper.view storage.idMaps id field).stored := congrArg storedCell value
    cases cell : (upper.view storage.idMaps id field).stored with
    | nothing => exact absurd (storedCell_eq_nothing.mp cell) upperUnset
    | scalar stored =>
        rw [PatchView.read_scalar cell, PatchView.read_scalar (sameCell.trans cell)]
    | list entries =>
        have stored : upper.value id field = .array entries := storedCell_eq_list.mp cell
        -- a list is only stored where base and upper layer agree on the delete
        have agree : bottom.deletes id = upper.deletes id := by
          by_contra differ
          have notList := lists differ
          rw [stored] at notList
          cases notList
        cases upperDeletes : upper.deletes id with
        | true =>
            rw [PatchView.read_deletes (by simp [cell]) upperDeletes,
              PatchView.read_deletes (by simp [sameCell, cell])
                (mergedDeletes.trans (agree.trans upperDeletes))]
        | false =>
            rw [PatchView.read_list cell upperDeletes] at shown
            rw [PatchView.read_list cell upperDeletes,
              PatchView.read_list (sameCell.trans cell)
                (mergedDeletes.trans (agree.trans upperDeletes))]
            exact congrArg _ (merged_list faithful mergedFrom merge named
              (agree.trans upperDeletes) upperDeletes stored pendingAvoids shown)

private def layerViews (storage : InMemoryStorage) (target field : String) (layer : Layer) :
    List (PatchView GraphQLValue GraphQLValue) :=
  (storage.recordIDs target).map fun id => layer.view storage.idMaps id field

private theorem recordIDs_cases (storage : InMemoryStorage) (target : String) :
    storage.recordIDs target = [target] ∨
      ∃ mapped, storage.recordIDs target = [mapped, target] := by
  unfold InMemoryStorage.recordIDs
  split
  · split
    · exact .inl rfl
    · exact .inr ⟨_, rfl⟩
  · exact .inl rfl

private theorem silent_view {layer : Layer} {id : String} (silent : layer.Silent id)
    (idMaps : OrderedMap String String) (field : String) :
    layer.view idMaps id field = ⟨.nothing, false, layer.hidden idMaps field⟩ := by
  simp [Layer.view, silent.value, silent.deletes, silent.listOperations, storedCell,
    ListPatch.comp, ListOperation.patch]

/-- Views of an id under which the layer holds nothing only repeat the hidden
entries. -/
private theorem read_layerViews {target active : String} {layer : Layer}
    (distinct : (storage.recordIDs target).Nodup) (named : active ∈ storage.recordIDs target)
    (silent : ∀ id ∈ storage.recordIDs target, id ≠ active → layer.Silent id)
    (field : String) (pending : ListPatch GraphQLValue)
    (rest : List (PatchView GraphQLValue GraphQLValue)) :
    PatchView.read pending (layerViews storage target field layer ++ rest) =
      PatchView.read pending (layer.view storage.idMaps active field :: rest) := by
  unfold layerViews
  rcases recordIDs_cases storage target with single | ⟨mapped, both⟩
  · rw [single] at named ⊢
    cases List.mem_singleton.mp named
    rfl
  · rw [both] at named silent distinct ⊢
    have different : mapped ≠ target := by simpa using distinct
    rcases List.mem_cons.mp named with same | second
    · subst same
      have quiet := silent_view (silent target (by simp) different.symm) storage.idMaps field
      simp only [List.map_cons, List.map_nil, List.cons_append, List.nil_append, quiet]
      cases cell : (layer.view storage.idMaps active field).stored with
      | scalar value => rw [PatchView.read_scalar cell, PatchView.read_scalar cell]
      | list entries =>
          cases deletes : (layer.view storage.idMaps active field).deletes with
          | true =>
              rw [PatchView.read_deletes (by simp [cell]) deletes,
                PatchView.read_deletes (by simp [cell]) deletes]
          | false => rw [PatchView.read_list cell deletes, PatchView.read_list cell deletes]
      | nothing =>
          cases deletes : (layer.view storage.idMaps active field).deletes with
          | true =>
              rw [PatchView.read_deletes (by simp [cell]) deletes,
                PatchView.read_deletes (by simp [cell]) deletes]
          | false =>
              rw [PatchView.read_nothing cell deletes, PatchView.read_nothing cell deletes,
                PatchView.read_nothing rfl rfl]
              refine PatchView.read_same ⟨by simp [Layer.hidden], by simp [Layer.hidden], ?_⟩ rest
              intro value
              simp only [Layer.view, ListPatch.comp_removed, List.mem_append]
              tauto
    · cases List.mem_singleton.mp second
      have quiet := silent_view (silent mapped (by simp) different) storage.idMaps field
      simp only [List.map_cons, List.map_nil, List.cons_append, List.nil_append, quiet]
      rw [PatchView.read_nothing rfl rfl]
      refine PatchView.read_cons_same ⟨?_, ?_, ?_⟩ rest
      · simp [Layer.hidden]
      · simp [Layer.hidden]
      · intro value
        simp only [Layer.view, ListPatch.comp_removed, List.mem_append]
        tauto

private theorem Silent.merge
    (faithful : storage.FaithfulMerge below lowers above bottom upper)
    (mergedFrom : MergedFrom storage below lowers (upper :: above) bottom lower)
    (merge : Layer.Merged lower upper merged) {id : String} (silent : upper.Silent id)
    (silentBelow : lower.Silent id) : merged.Silent id where
  value := by
    intro field
    rw [merged_value faithful mergedFrom merge, if_pos (silent.value field),
      silentBelow.value field, ite_self]
  deletes := (merge.deletes id).trans silentBelow.deletes
  listOperations := by
    intro field
    rw [List.eq_nil_iff_forall_not_mem]
    intro operation member
    rcases merged_operation merge member with inUpper | inLower
    · rw [silent.listOperations] at inUpper
      cases inUpper
    · rw [silentBelow.listOperations] at inLower
      cases inLower

private theorem MergedFrom.silent
    (mergedFrom : MergedFrom storage below lowers above bottom lower) {id : String}
    (silent : ∀ layer ∈ lowers, layer.Silent id) : lower.Silent id where
  value := by
    intro field
    rcases mergedFrom.value id field with unset | ⟨layer, member, same⟩
    · exact unset
    · rw [same, (silent layer member).value]
  deletes := (mergedFrom.deletes id).trans (silent bottom mergedFrom.base_mem).deletes
  listOperations := by
    intro field
    rw [List.eq_nil_iff_forall_not_mem]
    intro operation member
    obtain ⟨layer, inLowers, held⟩ := mergedFrom.operations id field operation member
    rw [(silent layer inLowers).listOperations] at held
    cases held

theorem get_merged
    (faithful : storage.FaithfulMerge below lowers above bottom upper)
    (mergedFrom : MergedFrom storage below lowers (upper :: above) bottom lower)
    (merge : Layer.Merged lower upper merged) {target field : String}
    (shown : (({ storage with data := below ++ lower :: upper :: above } :
      InMemoryStorage).get target field).value = (storage.get target field).value) :
    (({ storage with data := below ++ merged :: above } : InMemoryStorage).get target field).value =
      (storage.get target field).value := by
  obtain ⟨distinct, active, named, silent⟩ := faithful.identified target
  have silentLower (id : String) (other : id ∈ storage.recordIDs target) (different : id ≠ active) :
      lower.Silent id :=
    mergedFrom.silent fun layer member => silent layer (List.mem_cons_of_mem _ member) id other
      different
  have silentUpper := silent upper List.mem_cons_self
  have before : ({ storage with data := below ++ lower :: upper :: above } :
      InMemoryStorage).views target field =
        above.reverse.flatMap (layerViews storage target field) ++
          (layerViews storage target field upper ++ (layerViews storage target field lower ++
            ({ storage with data := below } : InMemoryStorage).views target field)) := by
    simp only [InMemoryStorage.views, List.reverse_append, List.reverse_cons, List.append_assoc,
      List.flatMap_append, List.flatMap_cons, List.flatMap_nil, List.append_nil]
    rfl
  have after : ({ storage with data := below ++ merged :: above } :
      InMemoryStorage).views target field =
        above.reverse.flatMap (layerViews storage target field) ++
          (layerViews storage target field merged ++
            ({ storage with data := below } : InMemoryStorage).views target field) := by
    simp only [InMemoryStorage.views, List.reverse_append, List.reverse_cons, List.append_assoc,
      List.flatMap_append, List.flatMap_cons, List.flatMap_nil, List.append_nil]
    rfl
  rw [InMemoryStorage.get_value, before] at shown
  rw [InMemoryStorage.get_value, after, ← shown]
  rcases PatchView.read_append {} (above.reverse.flatMap (layerViews storage target field)) with
    ⟨cell, decided⟩ | ⟨reached, reads, avoids⟩
  · rw [decided, decided]
  · have reduceUpper := read_layerViews distinct named silentUpper field
    have reduceLower := read_layerViews distinct named silentLower field
    have reduceMerged := read_layerViews distinct named
      (fun id other different => Silent.merge faithful mergedFrom merge
        (silentUpper id other different) (silentLower id other different)) field
    have both (rest : List (PatchView GraphQLValue GraphQLValue)) :
        PatchView.read reached (layerViews storage target field upper ++
          (layerViews storage target field lower ++ rest)) =
            PatchView.read reached (upper.view storage.idMaps active field ::
              lower.view storage.idMaps active field :: rest) := by
      rw [reduceUpper]
      simp only [PatchView.read, reduceLower]
    rw [reads, both] at shown
    rw [reads, reads, both, reduceMerged]
    refine congrArg cellValue (read_merged faithful mergedFrom merge named ?_ shown.symm).symm
    intro entry absent
    refine avoids [.string entry] (fun _ _ => ⟨List.not_mem_nil, List.not_mem_nil⟩) ?_
    intro view member
    obtain ⟨layer, inAbove, inLayer⟩ := List.mem_flatMap.mp member
    obtain ⟨id, idNamed, rfl⟩ := List.mem_map.mp inLayer
    refine Layer.view_avoids _ _ fun other same => ?_
    simp only [List.mem_singleton, GraphQLValue.string.injEq] at same
    exact same ▸ (absent layer (List.mem_reverse.mp inAbove) id idNamed).inserted

theorem mergeUp_faithful {remaining uppers : List Layer}
    (mergedFrom : MergedFrom storage below lowers (uppers ++ remaining) bottom lower)
    (faithful : ∀ before upper after, uppers = before ++ upper :: after →
      storage.FaithfulMerge below (before.reverse ++ lowers) (after ++ remaining) bottom upper)
    (resolved : ∀ upper ∈ uppers, upper.optimistic = false)
    (blocked : ∀ layer ∈ remaining.head?, layer.optimistic = true)
    (distinct : ∀ upper ∈ uppers, upper.id ≠ lower.id)
    (shown : ∀ target field,
      (({ storage with data := below ++ lower :: (uppers ++ remaining) } :
        InMemoryStorage).get target field).value = (storage.get target field).value) :
    ∃ merged, InMemoryStorage.mergeUp lower (uppers ++ remaining) = .ok remaining merged ∧
      MergedFrom storage below (uppers.reverse ++ lowers) remaining bottom merged ∧
      ∀ target field, (({ storage with data := below ++ merged :: remaining } :
        InMemoryStorage).get target field).value = (storage.get target field).value := by
  induction uppers generalizing lower lowers with
  | nil =>
      refine ⟨lower, ?_, mergedFrom, shown⟩
      cases remaining with
      | nil => rfl
      | cons layer rest =>
          have optimistic := blocked layer rfl
          simp [InMemoryStorage.mergeUp, optimistic]
  | cons upper rest ih =>
      have here := faithful [] upper rest rfl
      obtain ⟨middle, success, merge⟩ :=
        FaithfulMerge.writeLayer here mergedFrom (distinct upper List.mem_cons_self)
      obtain ⟨merged, others, final, displayed⟩ := ih (mergedFrom.merge here merge)
        (fun before next after split => by
          have later := faithful (upper :: before) next after (by rw [split]; rfl)
          simpa using later)
        (fun layer member => resolved layer (List.mem_cons_of_mem _ member))
        (fun layer member => by
          rw [merge.id]
          exact distinct layer (List.mem_cons_of_mem _ member))
        (fun target field => get_merged here mergedFrom merge (shown target field))
      refine ⟨merged, ?_, by simpa using final, displayed⟩
      rw [List.cons_append, InMemoryStorage.mergeUp, resolved upper List.mem_cons_self, success]
      exact others

end Reading

namespace InMemoryStorage

private theorem get_released (storage : InMemoryStorage) (index : Nat) (target field : String) :
    (({ storage with data := storage.data.modify index fun layer =>
      { layer with optimistic := false } } : InMemoryStorage).get target field).value =
        (storage.get target field).value := by
  rw [get_value, get_value]
  have sameViews := map_modify_of_same (layerViews storage target field)
    (fun layer : Layer => { layer with optimistic := false }) (fun _ => rfl) storage.data index
  have unfolded (data : List Layer) :
      ({ storage with data } : InMemoryStorage).views target field =
        ((data.map (layerViews storage target field)).reverse).flatten := by
    rw [← List.map_reverse, ← List.flatMap_def]
    rfl
  rw [unfolded, sameViews, ← unfolded]

private theorem startingIndex_resolved {data : List Layer} {index : Nat} {layer : Layer}
    (found : data[index]? = some layer) (resolved : layer.optimistic = false) :
    ∃ base above, data.drop (startingIndex data index) = base :: above ∧
      base.optimistic = false := by
  have atIndex {position : Nat} {other : Layer} (present : data[position]? = some other)
      (notOptimistic : other.optimistic = false) :
      ∃ base above, data.drop position = base :: above ∧ base.optimistic = false := by
    obtain ⟨inRange, rfl⟩ := List.getElem?_eq_some_iff.mp present
    exact ⟨data[position], data.drop (position + 1), List.drop_eq_getElem_cons inRange,
      notOptimistic⟩
  have inRange : index < data.length := (List.getElem?_eq_some_iff.mp found).1
  unfold startingIndex
  dsimp only
  have belowRange : index - 1 < data.length := by omega
  rw [List.getElem?_eq_getElem belowRange]
  cases below : data[index - 1].optimistic with
  | false =>
      simp only [Option.map_some, below, Option.getD_some, Bool.false_eq_true, if_false]
      exact atIndex (List.getElem?_eq_getElem belowRange) below
  | true =>
      simp only [Option.map_some, below, Option.getD_some, if_true]
      have positive : index ≠ 0 := by
        rintro rfl
        have same : data[0] = layer := (List.getElem?_eq_some_iff.mp found).2
        simp only [Nat.zero_sub, same, resolved] at below
        cases below
      rw [Nat.sub_add_cancel (by omega)]
      exact atIndex found resolved

/-- Forgetting the id mappings of a single layer that holds nothing under mapped
ids changes nothing. -/
private theorem get_unmapped (storage : InMemoryStorage) {merged : Layer}
    (mapped : ∀ target, (storage.recordIDs target).Nodup ∧
      ∀ id ∈ storage.recordIDs target, id ≠ target → merged.Silent id)
    (deletedMapped : ∀ id ∈ merged.deletedIDs, (storage.idMaps.get? id).getD "" = "")
    (target field : String) :
    (({ storage with data := [merged], idMaps := ∅ } : InMemoryStorage).get target field).value =
      (({ storage with data := [merged] } : InMemoryStorage).get target field).value := by
  have own : target ∈ storage.recordIDs target := by
    rcases recordIDs_cases storage target with single | ⟨mapped, both⟩
    · simp [single]
    · simp [both]
  have sameHidden : merged.hiddenIDs storage.idMaps field = merged.hiddenIDs ∅ field := by
    unfold Layer.hiddenIDs
    rw [List.flatMap_congr]
    intro id member
    have unmapped := deletedMapped id member
    cases found : storage.idMaps.get? id with
    | none => simp
    | some other =>
        rw [found, Option.getD_some] at unmapped
        simp [unmapped]
  have reduced := read_layerViews (mapped target).1 own
    (fun id named different => (mapped target).2 id named different) field {} []
  rw [get_value, get_value]
  have withMaps : ({ storage with data := [merged] } : InMemoryStorage).views target field =
      layerViews storage target field merged ++ [] := by
    simp only [views, List.reverse_singleton, List.flatMap_cons, List.flatMap_nil]
    rfl
  have withoutMaps : ({ storage with data := [merged], idMaps := ∅ } :
      InMemoryStorage).views target field = [merged.view storage.idMaps target field] := by
    simp only [views, List.reverse_singleton, List.flatMap_cons, List.flatMap_nil,
      List.append_nil, recordIDs, OrderedMap.get?_empty, List.map_cons, List.map_nil, Layer.view,
      Layer.hidden, sameHidden]
  rw [withMaps, withoutMaps, reduced]

/-- Resolving a layer of a reachable storage succeeds and changes no displayed
value when every merge it makes is faithful. -/
theorem resolveLayer_get {storage : InMemoryStorage} (reachable : storage.Reachable)
    {id : LayerID} (known : id ∈ storage.data.map (·.id)) (faithful : storage.FaithfulResolve id) :
    ∃ resolved, storage.resolveLayer id = .ok () resolved ∧
      ∀ target field, (resolved.get target field).value = (storage.get target field).value := by
  obtain ⟨layer, member, rfl⟩ := List.mem_map.mp known
  obtain ⟨index, found⟩ : ∃ index, storage.data.findIdx? (·.id == layer.id) = some index := by
    rw [← Option.isSome_iff_exists, List.findIdx?_isSome, List.any_eq_true]
    exact ⟨layer, member, by simp⟩
  have merges := faithful.merges
  have mapped := faithful.mapped
  have deletedMapped := faithful.deletedMapped
  simp only [resolvedRun, found, Option.getD_some] at merges mapped deletedMapped
  have shown := get_released storage index
  have released := map_modify_of_same (·.id)
    (fun layer : Layer => { layer with optimistic := false }) (fun _ => rfl) storage.data index
  have atIndex : ∃ layer, (storage.data.modify index fun layer =>
      { layer with optimistic := false })[index]? = some layer ∧ layer.optimistic = false := by
    have inRange := (List.findIdx?_eq_some_iff_getElem.mp found).1
    exact ⟨_, by rw [List.getElem?_modify_eq, List.getElem?_eq_getElem inRange]; rfl, rfl⟩
  unfold resolveLayer
  rw [found]
  dsimp only
  generalize (storage.data.modify index fun layer => { layer with optimistic := false }) = data
    at merges mapped deletedMapped shown released atIndex ⊢
  obtain ⟨_, present, notOptimistic⟩ := atIndex
  obtain ⟨base, above, split, baseResolved⟩ := startingIndex_resolved present notOptimistic
  generalize startingIndex data index = start at merges mapped deletedMapped split ⊢
  let uppers := above.takeWhile (!·.optimistic)
  let remaining := above.dropWhile (!·.optimistic)
  have aboveSplit : above = uppers ++ remaining := List.takeWhile_append_dropWhile.symm
  have run : (data.drop start).takeWhile (!·.optimistic) = base :: uppers := by
    rw [split, List.takeWhile_cons_of_pos (by simp [baseResolved])]
  have rest : (data.drop start).dropWhile (!·.optimistic) = remaining := by
    rw [split, List.dropWhile_cons_of_pos (by simp [baseResolved])]
  rw [run] at merges mapped deletedMapped
  rw [rest] at merges mapped deletedMapped
  have whole : data = data.take start ++ base :: (uppers ++ remaining) := by
    rw [← aboveSplit, ← split, List.take_append_drop]
  have distinct : ∀ upper ∈ uppers, upper.id ≠ base.id := by
    have unique := reachable.distinctLayers.nodup
    rw [← released, whole, List.map_append, List.map_cons] at unique
    have tail := (List.nodup_cons.mp (List.nodup_append.mp unique).2.1).1
    intro upper inUppers same
    exact tail (same ▸ List.mem_map_of_mem (List.mem_append_left _ inUppers))
  obtain ⟨merged, success, final, displayed⟩ := mergeUp_faithful
    (MergedFrom.base storage (data.take start) (uppers ++ remaining) base)
    (fun before upper after splitUppers => by
      have merge := merges base before upper after (by rw [splitUppers]; rfl)
      simpa using merge)
    (fun upper inUppers => by
      have passed := List.all_eq_true.mp List.all_takeWhile upper inUppers
      simpa using passed)
    (fun layer inRemaining => by
      have first := List.head?_dropWhile_not (fun layer : Layer => !layer.optimistic) above
      rw [Option.mem_def] at inRemaining
      change (above.dropWhile _).head? = some layer at inRemaining
      rw [inRemaining] at first
      simpa using first)
    distinct
    (fun target field => by rw [← whole]; exact shown target field)
  rw [split]
  dsimp only
  rw [aboveSplit, success]
  refine ⟨_, rfl, fun target field => ?_⟩
  by_cases collapsed : (data.take start ++ merged :: remaining).length = 1
  · rw [if_pos collapsed]
    have single : data.take start = [] ∧ remaining = [] := by
      simp only [List.length_append, List.length_cons] at collapsed
      exact ⟨List.eq_nil_of_length_eq_zero (by omega), List.eq_nil_of_length_eq_zero (by omega)⟩
    rw [← displayed target field, single.1, single.2, List.nil_append]
    have inRun {lower : Layer} (inLowers : lower ∈ uppers.reverse ++ [base]) :
        lower ∈ base :: uppers := by
      simp only [List.mem_append, List.mem_reverse, List.mem_singleton] at inLowers
      rw [List.mem_cons]
      tauto
    refine get_unmapped storage (fun target => ?_) (fun id deleted => ?_) target field
    · obtain ⟨unique, silent⟩ := mapped single.1 single.2 target
      exact ⟨unique, fun id named different => MergedFrom.silent final fun lower inLowers =>
        silent lower (inRun inLowers) id named different⟩
    · obtain ⟨lower, inLowers, held⟩ := (final.deletedIDs id).mp deleted
      exact deletedMapped single.1 single.2 lower (inRun inLowers) id held
  · rw [if_neg collapsed]
    exact displayed target field

private def friendsBase : Layer :=
  { id := 1, links := (∅ : EntityMap GraphQLValue).setIn "_ROOT_" "friends"
      (.array [.string "User:1"]) }

private def friendsInsert : Layer :=
  { id := 2
    operations := OrderedMap.singleton "_ROOT_"
      { fields := some (OrderedMap.singleton "friends" [.insert .end "User:2"]) } }

/-- An optimistic layer that inserts a record into the list of the base layer. -/
def pendingInsert : InMemoryStorage :=
  { data := [friendsBase, { friendsInsert with optimistic := true }], idCount := 3 }

private theorem pendingInsert_reachable : pendingInsert.Reachable := by
  have created : Relation.ReflTransGen Step {} _ := .tail .refl (.createLayer {} false)
  have linked := created.tail (.layer (.head _)
    (.writeLink { id := 1 } "_ROOT_" "friends" (.array [.string "User:1"])))
  have opened := linked.tail (.createLayer _ true)
  have inserted : Layer.Step { id := 2, optimistic := true }
      { friendsInsert with optimistic := true } :=
    .insert "_ROOT_" "friends" .end "User:2" rfl
  exact opened.tail (.layer (.tail _ (.head _)) inserted)

private theorem friendsInsert_faithful :
    pendingInsert.FaithfulMerge [] [friendsBase] [] friendsBase friendsInsert := by
  have kept (id : String) : friendsInsert.deletes id = false := by
    by_cases same : id = "_ROOT_"
    · subst same
      rfl
    · simp [Layer.deletes, friendsInsert, OrderedMap.singleton, same]
  have unlinked (id field : String) : friendsInsert.linked id field = [] := rfl
  have unset (id field : String) : friendsInsert.value id field = .undefined := rfl
  have onlyInserts (id field entry : String) :
      ¬ ListOperation.Removes (friendsInsert.listOperations id field) entry := by
    by_cases same : id = "_ROOT_"
    · subst same
      by_cases sameField : field = "friends"
      · subst sameField
        simp [ListOperation.Removes, Layer.listOperations, friendsInsert, OrderedMap.singleton]
      · simp [ListOperation.Removes, Layer.listOperations, friendsInsert, OrderedMap.singleton,
          sameField]
    · simp [ListOperation.Removes, Layer.listOperations, friendsInsert, OrderedMap.singleton,
        same]
  exact {
    kinds := fun _ _ _ _ _ stored => absurd rfl stored
    unsetFields := fun _ _ _ _ _ stored => by cases stored
    unsetLinks := fun _ _ _ _ _ stored => by cases stored
    writable := fun _ _ linked => absurd rfl linked
    relinked := fun _ _ _ _ _ linked => by cases linked
    undone := fun _ deleted => by cases deleted
    deletedLists := fun _ _ _ => rfl
    deletedRecords := fun _ id _ deleted => absurd deleted (by simp [kept id])
    lists := fun _ _ _ _ _ _ stored => by cases stored
    toggles := fun _ id field _ _ _ _ entry _ removed => by
      refine absurd removed ?_
      have opened : Layer.openOperations id field [friendsInsert, friendsBase] =
          friendsInsert.listOperations id field := by
        have below := friendsBase.openOperations_singleton id field
        rw [Layer.openOperations, unset, below]
        exact List.append_nil _
      rw [opened]
      exact onlyInserts id field entry
    identified := fun target => ⟨List.nodup_singleton target, target, List.mem_singleton_self target,
      fun _ _ _ named different => absurd (List.mem_singleton.mp named) different⟩ }

private theorem pendingInsert_faithful : pendingInsert.FaithfulResolve 2 where
  merges := by
    intro base lowers upper uppers split
    change [friendsBase, friendsInsert] = _ at split
    cases lowers with
    | nil =>
        simp only [List.cons_append, List.nil_append, List.cons.injEq] at split
        obtain ⟨rfl, rfl, rfl⟩ := split
        exact friendsInsert_faithful
    | cons layer rest =>
        have lengths := congrArg List.length split
        simp at lengths
  mapped := fun _ _ target => ⟨List.nodup_singleton target,
    fun _ _ _ named different => absurd (List.mem_singleton.mp named) different⟩
  deletedMapped := fun _ _ _ _ _ _ => rfl

theorem resolveLayer_get_pendingInsert :
    ∃ resolved, pendingInsert.resolveLayer 2 = .ok () resolved ∧ ∀ target field,
      (resolved.get target field).value = (pendingInsert.get target field).value :=
  resolveLayer_get pendingInsert_reachable (by decide) pendingInsert_faithful

private def namedBase : Layer :=
  { id := 1
    fields := (∅ : EntityMap GraphQLValue).setIn "User:1" "firstName" (.string "Bob") }

/-- Below the layer that deletes a record, another optimistic layer keeps the
resolved delete from the base layer. -/
def deletedAbovePending : InMemoryStorage :=
  { data := [namedBase, { id := 2, optimistic := true }, { id := 3 },
      ({ id := 4, optimistic := true } : Layer).delete "User:1"]
    idCount := 5 }

private theorem deletedAbovePending_reachable : deletedAbovePending.Reachable := by
  have created : Relation.ReflTransGen Step {} _ := .tail .refl (.createLayer {} false)
  have named := created.tail (.layer (.head _)
    (.writeField { id := 1 } "User:1" "firstName" (.string "Bob")))
  have second := named.tail (.createLayer _ true)
  have third := second.tail (.createLayer _ false)
  have fourth := third.tail (.createLayer _ true)
  have deleted : Layer.Step { id := 4, optimistic := true } _ := .delete _ "User:1"
  exact fourth.tail (.layer (.tail _ (.tail _ (.tail _ (.head _)))) deleted)

/-- Resolving a delete into a layer above the base drops its mark, and the record
shows up again from the layers below. -/
theorem resolveLayer_get_deletedAbovePending :
    deletedAbovePending.Reachable ∧ 4 ∈ deletedAbovePending.data.map (·.id) ∧
      (deletedAbovePending.get "User:1" "firstName").value = .undefined ∧
      ((resultState (deletedAbovePending.resolveLayer 4)).get "User:1" "firstName").value =
        .string "Bob" :=
  ⟨deletedAbovePending_reachable, by decide, by decide, by decide⟩

end InMemoryStorage

end Houdini.Runtime.Cache
