import Houdini.Data.Outcome
import Houdini.Runtime.Cache.StorageRuns
import Houdini.Runtime.Cache.Identity

/-! Every embedded record that a store knows has a rank below the counter of the store. -/

set_option autoImplicit false

namespace Houdini.Runtime

mutual

def GraphQLValue.texts : GraphQLValue → List String
  | .string text => [text]
  | .array items => textsOf items
  | _ => []

def textsOf : List GraphQLValue → List String
  | [] => []
  | item :: rest => item.texts ++ textsOf rest

end

theorem textsOf_append (items others : List GraphQLValue) :
    textsOf (items ++ others) = textsOf items ++ textsOf others := by
  induction items with
  | nil => rfl
  | cons item rest ih => rw [List.cons_append, textsOf, textsOf, ih, List.append_assoc]

theorem mem_textsOf {items : List GraphQLValue} {text : String} :
    text ∈ textsOf items ↔ ∃ item ∈ items, text ∈ item.texts := by
  induction items with
  | nil => simp [textsOf]
  | cons item rest ih => simp [textsOf, ih]

namespace Cache

def Marks (id : String) (rank : Nat) : Prop :=
  ∃ parent key, id = embeddedEntryID parent key rank

def Below (bound : Nat) (id : String) : Prop := ∀ rank, Marks id rank → rank < bound

theorem Marks.unique {id : String} {rank other : Nat} (marks : Marks id rank)
    (again : Marks id other) : rank = other := by
  obtain ⟨parent, key, rfl⟩ := marks
  obtain ⟨parent', key', same⟩ := again
  have opening (number : Nat) : '[' ∉ number.repr.toList.reverse := by
    intro member
    rw [List.mem_reverse, Nat.toList_repr] at member
    have digit := Nat.isDigit_of_mem_toDigits (by omega) (by omega) member
    cases digit
  have text := congrArg (fun id : String => id.toList.reverse) same
  unfold embeddedEntryID at text
  simp only [String.toList_append, List.reverse_append, List.append_assoc] at text
  have ranks := (until_unique (opening rank) (opening other) (List.append_cancel_left text)).1
  have digits := List.reverse_injective ranks
  rw [Nat.toList_repr, Nat.toList_repr] at digits
  have numbers := congrArg (fun digits => Nat.ofDigitChars 10 digits 0) digits
  simpa using numbers

theorem Below.mono {bound later : Nat} {id : String} (below : Below bound id)
    (grows : bound ≤ later) : Below later id :=
  fun rank marks => Nat.lt_of_lt_of_le (below rank marks) grows

theorem below_embeddedEntryID (parent key : String) (rank : Nat) :
    Below (rank + 1) (embeddedEntryID parent key rank) := by
  intro other marks
  rw [marks.unique ⟨parent, key, rfl⟩]
  exact Nat.lt_succ_self rank

theorem not_below_embeddedEntryID (parent key : String) (rank : Nat) :
    ¬ Below rank (embeddedEntryID parent key rank) :=
  fun below => Nat.lt_irrefl rank (below rank ⟨parent, key, rfl⟩)

theorem Marks.getLast {id : String} {rank : Nat} (marks : Marks id rank) :
    id.toList.getLast? = some ']' := by
  obtain ⟨parent, key, rfl⟩ := marks
  unfold embeddedEntryID
  rw [String.toList_append, List.getLast?_append]
  rfl

theorem below_rootID (bound : Nat) : Below bound rootID := by
  intro rank marks
  exact absurd marks.getLast (by decide)

structure Layer.Numbered (bound : Nat) (layer : Layer) : Prop where
  link : ∀ id key value, layer.links.getIn? id key = some value →
    Below bound id ∧ ∀ text ∈ value.texts, Below bound text
  field : ∀ id key value, layer.fields.getIn? id key = some value → Below bound id
  insert : ∀ id key operation, operation ∈ layer.listOperations id key →
    operation.isInsert = true → Below bound operation.target

namespace Layer

variable {bound : Nat} {layer : Layer}

theorem Numbered.mono {later : Nat} (numbered : layer.Numbered bound)
    (grows : bound ≤ later) : layer.Numbered later where
  link := fun id key value found =>
    ⟨(numbered.link id key value found).1.mono grows,
      fun text member => ((numbered.link id key value found).2 text member).mono grows⟩
  field := fun id key value found =>
    (numbered.field id key value found).mono grows
  insert := fun id key operation member inserts =>
    (numbered.insert id key operation member inserts).mono grows

theorem numbered_empty {id : LayerID} {optimistic : Bool} :
    Numbered bound { id, optimistic } where
  link := fun _ _ _ found => by simp at found
  field := fun _ _ _ found => by simp at found
  insert := fun _ _ _ member => by simp [listOperations] at member

theorem Numbered.writeField (numbered : layer.Numbered bound) {id key : String}
    (below : Below bound id) (value : GraphQLValue) :
    (layer.writeField id key value).Numbered bound where
  link := numbered.link
  field := by
    intro other name current found
    rw [Layer.writeField, OrderedMap.getIn?_setIn] at found
    split at found
    · next same =>
        obtain ⟨rfl, rfl⟩ := same
        exact below
    · exact numbered.field other name current found
  insert := numbered.insert

theorem Numbered.withOperations (numbered : layer.Numbered bound)
    {operations : OrderedMap String RecordOperations}
    (fewer : ∀ id key, ∀ operation ∈ ({ layer with operations } : Layer).listOperations id key,
      operation ∈ layer.listOperations id key) :
    ({ layer with operations } : Layer).Numbered bound where
  link := numbered.link
  field := numbered.field
  insert := fun id key operation member inserts =>
    numbered.insert id key operation (fewer id key operation member) inserts

theorem listOperations_set (id field : String) (operations : List ListOperation)
    (other key : String) :
    ({ layer with
        operations := layer.operations.set id
          { (layer.operations.get? id).getD {} with
            fields := some ((((layer.operations.get? id).getD {}).fields.getD ∅).set field
              operations) } } : Layer).listOperations other key =
      if other = id ∧ key = field then operations else layer.listOperations other key := by
  by_cases record : other = id
  · subst record
    by_cases same : key = field
    · simp [listOperations, same]
    · cases found : layer.operations.get? other with
      | none => simp [listOperations, found, same]
      | some entry => cases held : entry.fields <;> simp [listOperations, found, held, same]
  · simp [listOperations, record]

theorem listOperations_undoDelete (id field target other key : String) :
    (layer.undoDelete id field target).listOperations other key =
      layer.listOperations other key := by
  by_cases same : other = target
  · subst same
    cases found : layer.operations.get? other <;> simp [listOperations, undoDelete, found]
  · simp [listOperations, undoDelete, same]

theorem listOperations_of_fieldOperations {id field : String} {operations : List ListOperation}
    (held : layer.fieldOperations id field = .ok (some operations)) :
    layer.listOperations id field = operations := by
  unfold fieldOperations at held
  split at held
  · cases held
  · next entry found =>
      split at held
      · cases held
      · next fields isFields =>
          simp only [Except.ok.injEq] at held
          simp [listOperations, found, isFields, held]

theorem Numbered.undelete {written : Layer} {id field : String} {value : GraphQLValue}
    (numbered : layer.Numbered bound)
    (success : layer.undelete id field value = .ok written) : written.Numbered bound := by
  unfold Layer.undelete at success
  cases held : layer.fieldOperations id field with
  | error error =>
      rw [held] at success
      cases success
  | ok operations =>
      rw [held] at success
      simp only [bind, Except.bind, pure, Except.pure] at success
      split at success
      · cases success
        refine numbered.withOperations fun other key operation member => ?_
        have same := @listOperations_undoDelete layer id field value.propertyKey other key
        exact same ▸ member
      · split at success
        · cases success
          exact numbered
        · cases success
          exact numbered
        · next listed _ =>
            cases success
            refine numbered.withOperations fun other key operation member => ?_
            have written := @listOperations_set layer id field
              (listed.filter fun operation =>
                !operation.isRemove || GraphQLValue.string operation.target != value) other key
            have listing : operation ∈ if other = id ∧ key = field then _ else _ := written ▸ member
            split at listing
            · next same =>
                rw [same.1, same.2, listOperations_of_fieldOperations held]
                exact (List.mem_filter.mp listing).1
            · exact listing

theorem Numbered.writeLink (numbered : layer.Numbered bound) {id field : String}
    {value : GraphQLValue} (below : Below bound id)
    (texts : ∀ text ∈ value.texts, Below bound text) :
    (resultState (layer.writeLink id field value)).Numbered bound := by
  unfold Layer.writeLink
  generalize value.flattenLinks = linked
  induction linked generalizing layer with
  | nil =>
      exact {
        link := by
          intro other key current found
          have written : (layer.links.setIn id field value).getIn? other key = some current := found
          rw [OrderedMap.getIn?_setIn] at written
          split at written
          · next same =>
              obtain ⟨rfl, rfl⟩ := same
              obtain rfl := Option.some.inj written
              exact ⟨below, texts⟩
          · exact numbered.link other key current written
        field := numbered.field
        insert := numbered.insert }
  | cons element rest ih =>
      unfold Layer.writeLink.undeleteAll
      cases first : layer.undelete id field element with
      | error error => exact numbered
      | ok middle => exact ih (numbered.undelete first)

theorem Numbered.writeLinks (entries : List (String × String × GraphQLValue))
    (numbered : layer.Numbered bound)
    (below : ∀ entry ∈ entries, Below bound entry.1 ∧ ∀ text ∈ entry.2.2.texts, Below bound text) :
    (resultState (layer.writeLinks entries)).Numbered bound := by
  induction entries generalizing layer with
  | nil => exact numbered
  | cons entry rest ih =>
      obtain ⟨id, field, value⟩ := entry
      obtain ⟨owner, texts⟩ := below _ List.mem_cons_self
      have first := @Numbered.writeLink _ _ numbered id field value owner texts
      unfold Layer.writeLinks
      cases step : layer.writeLink id field value with
      | error error failed =>
          rw [step] at first
          exact first
      | ok _ middle =>
          rw [step] at first
          exact ih first fun other member => below other (List.mem_cons_of_mem _ member)

theorem Numbered.addFieldOperation {written : Layer} {id field : String}
    {operation : ListOperation} (numbered : layer.Numbered bound)
    (below : operation.isInsert = true → Below bound operation.target)
    (success : layer.addFieldOperation id field operation = .ok written) :
    written.Numbered bound := by
  unfold Layer.addFieldOperation at success
  cases held : layer.fieldOperations id field with
  | error error =>
      rw [held] at success
      cases success
  | ok existing =>
      rw [held] at success
      cases success
      refine { link := numbered.link, field := numbered.field, insert := ?_ }
      intro other key another member inserts
      have written := @listOperations_set layer id field (existing.getD [] ++ [operation]) other key
      have listing : another ∈ if other = id ∧ key = field then _ else _ := written ▸ member
      split at listing
      · next same =>
          rcases List.mem_append.mp listing with before | added
          · cases existing with
            | none => exact absurd before List.not_mem_nil
            | some operations =>
                have listed := listOperations_of_fieldOperations held
                rw [← same.1, ← same.2] at listed
                exact numbered.insert other key another (listed ▸ before) inserts
          · obtain rfl := List.mem_singleton.mp added
            exact below inserts
      · exact numbered.insert other key another listing inserts

theorem Numbered.writeLayer {upper : Layer} (numbered : layer.Numbered bound)
    (upperNumbered : upper.Numbered bound) :
    (resultState (layer.writeLayer upper)).Numbered bound := by
  have merged : (layer.mergeAllOperations upper).Numbered bound := {
    link := by
      intro id key value found
      rw [getIn?_links_mergeAllOperations] at found
      split at found
      · cases found
      · exact numbered.link id key value found
    field := by
      intro id key value found
      rw [getIn?_fields_mergeAllOperations] at found
      split at found
      · cases found
      · exact numbered.field id key value found
    insert := by
      intro id key operation member inserts
      rw [listOperations_mergeAllOperations] at member
      split at member
      · rcases List.mem_append.mp (compactOperations_subset member) with above | own
        · exact upperNumbered.insert id key operation above inserts
        · exact numbered.insert id key operation own inserts
      · exact numbered.insert id key operation member inserts }
  unfold Layer.writeLayer
  split
  · exact numbered
  · let below : Layer :=
      { layer.mergeAllOperations upper with
        fields := (layer.mergeAllOperations upper).fields.setAllIn upper.fields.entriesIn }
    have written : below.Numbered bound := {
      link := merged.link
      field := by
        intro id key value found
        rw [OrderedMap.getIn?_setAllIn_entriesIn] at found
        rcases Option.or_eq_some_iff.mp found with above | ⟨_, own⟩
        · exact upperNumbered.field id key value above
        · exact merged.field id key value own
      insert := merged.insert }
    have linked := written.writeLinks upper.links.entriesIn (by
      rintro ⟨id, key, value⟩ member
      exact upperNumbered.link id key value (OrderedMap.mem_entriesIn.mp member))
    dsimp only
    split
    · next error failed result =>
        rw [show below.writeLinks upper.links.entriesIn = _ from result] at linked
        exact linked
    · next final result =>
        rw [show below.writeLinks upper.links.entriesIn = _ from result] at linked
        obtain ⟨deletedIDs, extended⟩ := foldl_addDeletedID upper.deletedIDs final
        simp only [resultState, extended]
        exact { link := linked.link, field := linked.field, insert := linked.insert }

end Layer

namespace InMemoryStorage

variable {storage : InMemoryStorage}

def Numbered (storage : InMemoryStorage) : Prop :=
  ∀ layer ∈ storage.data, layer.Numbered storage.rank

theorem numbered_empty : Numbered {} := fun _ member => absurd member List.not_mem_nil

/-- The records that are inserted by operations that wait for a list. -/
structure PendingBelow (bound : Nat) (pending : PendingOperations) : Prop where
  start : ∀ id ∈ pending.insertStart, Below bound id
  last : ∀ id ∈ pending.insertEnd, Below bound id

theorem PendingBelow.applyOperations {bound : Nat} {id key : String} {layer : Layer}
    (numbered : layer.Numbered bound) {operations : List Operation}
    (known : ∀ operation, .list operation ∈ operations → operation ∈ layer.listOperations id key)
    {pending applied : PendingOperations} (below : PendingBelow bound pending)
    (success : pending.applyOperations operations = some applied) : PendingBelow bound applied := by
  induction operations generalizing pending with
  | nil =>
      cases success
      exact below
  | cons operation rest ih =>
      have later := fun operation member => known operation (List.mem_cons_of_mem _ member)
      cases operation with
      | delete target => cases success
      | list operation =>
          have listed := known operation List.mem_cons_self
          cases operation with
          | remove target =>
              rw [PendingOperations.applyOperations] at success
              refine ih later ?_ success
              exact ⟨below.start, below.last⟩
          | insert location target =>
              have targetBelow : Below bound target := numbered.insert id key _ listed rfl
              cases location with
              | start =>
                  rw [PendingOperations.applyOperations] at success
                  refine ih later ?_ success
                  refine ⟨fun other member => ?_, below.last⟩
                  rcases List.mem_append.mp member with before | added
                  · exact below.start other before
                  · rw [List.mem_singleton.mp added]
                    exact targetBelow
              | «end» =>
                  rw [PendingOperations.applyOperations] at success
                  refine ih later ?_ success
                  refine ⟨below.start, fun other member => ?_⟩
                  rcases List.mem_cons.mp member with rfl | before
                  · exact targetBelow
                  · exact below.last other before

theorem texts_display {bound : Nat} {pending : PendingOperations} {items : List GraphQLValue}
    (below : PendingBelow bound pending) (known : ∀ text ∈ textsOf items, Below bound text) :
    ∀ text ∈ textsOf (pending.display items), Below bound text := by
  intro text member
  obtain ⟨item, displayed, inItem⟩ := mem_textsOf.mp member
  have shown := (List.mem_filter.mp displayed).1
  rcases List.mem_append.mp shown with before | after
  · rcases List.mem_append.mp before with first | stored
    · obtain ⟨id, inserted, rfl⟩ := List.mem_map.mp first
      obtain rfl := List.mem_singleton.mp inItem
      exact below.start _ inserted
    · exact known text (mem_textsOf.mpr ⟨item, stored, inItem⟩)
  · obtain ⟨id, inserted, rfl⟩ := List.mem_map.mp after
    obtain rfl := List.mem_singleton.mp inItem
    exact below.last _ inserted

theorem texts_layer {bound : Nat} {layer : Layer} (numbered : layer.Numbered bound)
    {id key : String} (linked : layer.fields.getIn? id key = none) :
    ∀ text ∈ (layer.get id key).1.texts, Below bound text := by
  intro text member
  unfold Layer.get at member
  dsimp only at member
  split at member
  · cases found : layer.links.getIn? id key with
    | none =>
        rw [found] at member
        exact absurd member List.not_mem_nil
    | some value =>
        rw [found] at member
        exact (numbered.link id key value found).2 text member
  · rw [linked] at member
    exact absurd member List.not_mem_nil

theorem mem_getOperations {layer : Layer} {id key : String} {operation : ListOperation}
    (member : .list operation ∈ (layer.getOperations id key).getD []) :
    operation ∈ layer.listOperations id key := by
  unfold Layer.getOperations at member
  unfold Layer.listOperations
  split at member
  · exact absurd member List.not_mem_nil
  · next entry found =>
      split at member
      · have same := List.mem_singleton.mp member
        cases same
      · rw [found, Option.bind_some]
        cases held : entry.fields.bind (·.get? key) with
        | none =>
            rw [held] at member
            exact absurd member List.not_mem_nil
        | some operations =>
            rw [held] at member
            obtain ⟨other, listed, same⟩ := List.mem_map.mp member
            cases same
            exact listed

theorem texts_getFrom {bound : Nat} {idMaps : OrderedMap String String} {key : String}
    {layers : List (Layer × String)}
    (linked : ∀ entry ∈ layers, entry.1.fields.getIn? entry.2 key = none)
    (numbered : ∀ entry ∈ layers, entry.1.Numbered bound) {pending : PendingOperations}
    (below : PendingBelow bound pending) :
    ∀ text ∈ (getFrom idMaps key pending layers).value.texts, Below bound text := by
  induction layers generalizing pending with
  | nil => exact fun text member => absurd member List.not_mem_nil
  | cons entry rest ih =>
      obtain ⟨layer, id⟩ := entry
      have own := numbered _ List.mem_cons_self
      have rest {pending : PendingOperations} (below : PendingBelow bound pending) :=
        ih (fun other member => linked other (List.mem_cons_of_mem _ member))
          (fun other member => numbered other (List.mem_cons_of_mem _ member)) below
      have known := texts_layer own (linked _ List.mem_cons_self)
      unfold getFrom
      dsimp only
      split
      · split
        · exact rest ⟨below.start, below.last⟩
        · exact rest ⟨below.start, below.last⟩
      · split
        · exact known
        · split
          · exact fun text member => absurd member List.not_mem_nil
          · next applied success =>
              have appliedBelow : PendingBelow bound applied := by
                refine @PendingBelow.applyOperations _ id key layer own _
                  (fun operation member => mem_getOperations member) _ _ ?_ success
                exact ⟨below.start, below.last⟩
              split
              · exact rest appliedBelow
              · split
                · exact known
                · refine texts_display appliedBelow fun text member => known text ?_
                  cases value : (layer.get id key).1 with
                  | array items =>
                      rw [value] at member
                      exact member
                  | _ =>
                      rw [value] at member
                      exact absurd member List.not_mem_nil

def HoldsLinks (storage : InMemoryStorage) (id key : String) : Prop :=
  ∀ layer ∈ storage.data, ∀ name ∈ storage.recordIDs id, layer.fields.getIn? name key = none

instance (storage : InMemoryStorage) (id key : String) : Decidable (storage.HoldsLinks id key) :=
  inferInstanceAs (Decidable (∀ layer ∈ storage.data, ∀ name ∈ storage.recordIDs id,
    layer.fields.getIn? name key = none))

theorem Numbered.texts (numbered : storage.Numbered) {id key : String}
    (linked : storage.HoldsLinks id key) :
    ∀ text ∈ (storage.get id key).value.texts, Below storage.rank text := by
  refine texts_getFrom (fun entry member => ?_) (fun entry member => ?_)
    ⟨fun _ member => absurd member List.not_mem_nil, fun _ member => absurd member List.not_mem_nil⟩
  all_goals
    obtain ⟨layer, isLayer, named⟩ := List.mem_flatMap.mp member
    obtain ⟨name, known, rfl⟩ := List.mem_map.mp named
  · exact linked layer (List.mem_reverse.mp isLayer) name known
  · exact numbered layer (List.mem_reverse.mp isLayer)

/-- An id that was not given out yet is nowhere in the store. -/
structure Fresh (storage : InMemoryStorage) (id : String) : Prop where
  unlinked : ∀ layer ∈ storage.data, ∀ record key value,
    layer.links.getIn? record key = some value → id ∉ value.texts
  unstored : ∀ layer ∈ storage.data, ∀ key,
    layer.links.getIn? id key = none ∧ layer.fields.getIn? id key = none

theorem Numbered.fresh (numbered : storage.Numbered) (parent key : String) :
    storage.Fresh (embeddedEntryID parent key storage.rank) where
  unlinked := fun layer member record field value found listed =>
    not_below_embeddedEntryID _ _ _
      (((numbered layer member).link record field value found).2 _ listed)
  unstored := by
    intro layer member field
    constructor
    · cases found : layer.links.getIn? (embeddedEntryID parent key storage.rank) field with
      | none => rfl
      | some value =>
          have known := ((numbered layer member).link _ _ _ found).1
          exact absurd known (not_below_embeddedEntryID _ _ _)
    · cases found : layer.fields.getIn? (embeddedEntryID parent key storage.rank) field with
      | none => rfl
      | some value =>
          have known := (numbered layer member).field _ _ _ found
          exact absurd known (not_below_embeddedEntryID _ _ _)

theorem Numbered.setLayer (numbered : storage.Numbered) {layer : Layer}
    (written : layer.Numbered storage.rank) : (storage.setLayer layer).Numbered := by
  intro other member
  obtain ⟨before, isLayer, rfl⟩ := List.mem_map.mp member
  split
  · exact written
  · exact numbered before isLayer

theorem Numbered.createLayer (numbered : storage.Numbered) (optimistic : Bool) :
    (storage.createLayer optimistic).2.Numbered := by
  intro layer member
  rcases List.mem_append.mp member with before | added
  · exact numbered layer before
  · rw [List.mem_singleton.mp added]
    exact Layer.numbered_empty

theorem Numbered.topLayer (numbered : storage.Numbered) :
    storage.topLayer.2.Numbered := by
  unfold InMemoryStorage.topLayer
  split
  · exact numbered.createLayer false
  · split
    · exact numbered.createLayer false
    · exact numbered

theorem rank_topLayer : storage.topLayer.2.rank = storage.rank := by
  unfold InMemoryStorage.topLayer
  split
  · rfl
  · split <;> rfl

theorem Numbered.removeEmbeddedRecord (numbered : storage.Numbered) (id : String) :
    (storage.removeEmbeddedRecord id).Numbered := by
  intro other member
  obtain ⟨layer, isLayer, rfl⟩ := List.mem_map.mp member
  have own := numbered layer isLayer
  split
  · exact own
  · exact {
      link := by
        intro record key value found
        rw [OrderedMap.getIn?_erase] at found
        split at found
        · cases found
        · exact own.link record key value found
      field := by
        intro record key value found
        rw [OrderedMap.getIn?_erase] at found
        split at found
        · cases found
        · exact own.field record key value found
      insert := own.insert }

theorem numbered_mergeUp {bound : Nat} {base : Layer} {layers : List Layer}
    (numbered : base.Numbered bound) (above : ∀ layer ∈ layers, layer.Numbered bound) :
    (mergeUp base layers).Satisfies
      (fun remaining merged => merged.Numbered bound ∧ ∀ layer ∈ remaining, layer ∈ layers)
      (fun merged => merged.Numbered bound) := by
  induction layers generalizing base with
  | nil => exact ⟨numbered, fun _ member => member⟩
  | cons layer rest ih =>
      unfold mergeUp
      split
      · exact ⟨numbered, fun _ member => member⟩
      · have merged := numbered.writeLayer (above layer List.mem_cons_self)
        split
        · next result =>
            rw [result] at merged
            exact merged
        · next middle result =>
            rw [result] at merged
            exact (ih merged fun other member => above other (List.mem_cons_of_mem _ member)).mono
              (fun _ _ found =>
                ⟨found.1, fun other member => List.mem_cons_of_mem _ (found.2 other member)⟩)
              (fun _ found => found)

theorem Numbered.resolveLayer (numbered : storage.Numbered) (id : LayerID) :
    (resultState (storage.resolveLayer id)).Numbered ∧
      (resultState (storage.resolveLayer id)).rank = storage.rank := by
  unfold InMemoryStorage.resolveLayer
  split
  · exact ⟨numbered, rfl⟩
  next index _ =>
  have settled :
      ∀ layer ∈ storage.data.modify index fun layer => { layer with optimistic := false },
        layer.Numbered storage.rank := by
    intro layer member
    obtain ⟨position, found⟩ := List.mem_iff_getElem?.mp member
    rw [List.getElem?_modify] at found
    obtain ⟨before, isBefore, rfl⟩ := Option.map_eq_some_iff.mp found
    have own := numbered before (List.mem_of_getElem? isBefore)
    split
    · exact { link := own.link, field := own.field, insert := own.insert }
    · exact own
  dsimp only
  generalize storage.data.modify index (fun layer => { layer with optimistic := false }) = data
    at settled
  generalize startingIndex data index = start
  split
  · exact ⟨settled, rfl⟩
  · next base above split =>
    have inData : ∀ layer ∈ base :: above, layer ∈ data := fun layer member =>
      List.mem_of_mem_drop (split ▸ member)
    have merged := @numbered_mergeUp storage.rank base above
      (settled base (inData base List.mem_cons_self))
      (fun layer member => settled layer (inData layer (List.mem_cons_of_mem _ member)))
    split
    · next error failed result =>
        rw [result] at merged
        refine ⟨fun layer member => ?_, rfl⟩
        rcases List.mem_append.mp member with below | other
        · exact settled layer (List.mem_of_mem_take below)
        · rcases List.mem_cons.mp other with rfl | higher
          · exact merged
          · exact settled layer (inData layer (List.mem_cons_of_mem _ higher))
    · next remaining final result =>
        rw [result] at merged
        refine ⟨fun layer member => ?_, rfl⟩
        rcases List.mem_append.mp member with below | other
        · exact settled layer (List.mem_of_mem_take below)
        · rcases List.mem_cons.mp other with rfl | higher
          · exact merged.1
          · exact settled layer (inData layer (List.mem_cons_of_mem _ (merged.2 layer higher)))

end InMemoryStorage

end Cache

end Houdini.Runtime
