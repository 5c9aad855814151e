import Houdini.Runtime.Cache.EntryKeys
import Houdini.Runtime.Cache.Snapshot

/-! Runs of writes, hydrations and layer merges, and the ids that embedded entries get in them. -/

set_option autoImplicit false

namespace Houdini.Runtime.Cache

inductive CacheEvent where
  | write (context : WriteContext) (selection : SubscriptionSelection) (data : GraphQLObject)
      (parent : String) (layer : Option LayerID)
  | hydrate (snapshot : Snapshot) (layer : Option LayerID)
  | createLayer (optimistic : Bool)
  | resolveLayer (layer : LayerID)
  | clear (layer : LayerID)
  | remove (layer : LayerID) (id field target : String)
  | delete (layer : LayerID) (id : String)

structure Snapshot.Numbered (snapshot : Snapshot) : Prop where
  link : ∀ id key value, snapshot.links.getIn? id key = some value →
    Below snapshot.rank id ∧ ∀ text ∈ value.texts, Below snapshot.rank text
  field : ∀ id key value, snapshot.fields.getIn? id key = some value → Below snapshot.rank id

namespace CacheEvent

def run (storage : InMemoryStorage) : CacheEvent → InMemoryStorage
  | write context selection data parent layer =>
      resultState (Cache.write context selection data parent layer storage)
  | hydrate snapshot layer =>
      (storage.hydrate snapshot.rank snapshot.fields snapshot.links layer).2
  | createLayer optimistic => (storage.createLayer optimistic).2
  | resolveLayer layer => resultState (storage.resolveLayer layer)
  | clear layer => resultState (changeLayer layer (fun current => .ok () current.clear) storage)
  | remove layer id field target =>
      let change (current : Layer) : EStateM.Result JSError Layer Unit :=
        match current.remove id field target with
        | .ok changed => .ok () changed
        | .error error => .error error current
      resultState (changeLayer layer change storage)
  | delete layer id =>
      resultState (changeLayer layer (fun current => .ok () (current.delete id)) storage)

def visits (storage : InMemoryStorage) : CacheEvent → List WriteVisit
  | write context selection data parent layer =>
      match writeLayer layer storage with
      | .ok target middle => selectionVisits context target selection parent data middle
      | .error _ _ => []
  | _ => []

def config : CacheEvent → ConfigFile
  | write context .. => context.config
  | _ => {}

/-- The ids that the event generates are nowhere in the store, and no list gets one twice. -/
def KeysFresh (storage : InMemoryStorage) (event : CacheEvent) : Prop :=
  ∀ visit ∈ event.visits storage, visit.KeysFresh event.config

/-- A write is careful about all that it comes across. A hydration does not fall back behind the
ranks that are in the store. -/
def Careful (storage : InMemoryStorage) (event : CacheEvent) : Prop :=
  (∀ visit ∈ event.visits storage, visit.Careful event.config) ∧
    match event with
    | write _ _ _ parent _ => Below storage.rank parent
    | hydrate snapshot hydrated =>
        snapshot.Numbered ∧ ∀ layer ∈ storage.data,
          (if hydrated = some layer.id then { layer with fields := ∅, links := ∅ }
            else layer).Numbered snapshot.rank
    | _ => True

end CacheEvent

def runEvents (events : List CacheEvent) : InMemoryStorage := events.foldl CacheEvent.run {}

def CarefulRun : InMemoryStorage → List CacheEvent → Prop
  | _, [] => True
  | storage, event :: rest => event.Careful storage ∧ CarefulRun (event.run storage) rest

mutual

theorem texts_parsed : ∀ {value printed : GraphQLValue}, value.parsed = some printed →
    printed.texts ⊆ value.texts
  | .array items, _, text => by
      obtain rfl := Option.some.inj text
      exact textsOf_parsedItems items
  | .string _, _, text => by
      obtain rfl := Option.some.inj text
      exact List.Subset.refl _
  | .null, _, text | .boolean _, _, text | .number _, _, text | .object _, _, text => by
      obtain rfl := Option.some.inj text
      exact List.nil_subset _
  | .undefined, _, text | .component .., _, text => by cases text

theorem textsOf_parsedItems : ∀ items : List GraphQLValue,
    textsOf (GraphQLValue.parsedItems items) ⊆ textsOf items
  | [] => List.Subset.refl _
  | item :: rest => by
      intro text member
      rcases List.mem_append.mp member with first | later
      · refine List.mem_append_left _ ?_
        cases printed : item.parsed with
        | none =>
            rw [printed] at first
            exact absurd first List.not_mem_nil
        | some value =>
            rw [printed] at first
            exact texts_parsed printed first
      · exact List.mem_append_right _ (textsOf_parsedItems rest later)

end

theorem getIn?_parsedRecords {records : EntityMap GraphQLValue} {id key : String}
    {printed : GraphQLValue} (found : (parsedRecords records).getIn? id key = some printed) :
    ∃ value, records.getIn? id key = some value ∧ value.parsed = some printed := by
  unfold parsedRecords OrderedMap.getIn? at found
  rw [OrderedMap.get?_mapValues] at found
  obtain ⟨kept, isKept, inKept⟩ := Option.bind_eq_some_iff.mp found
  obtain ⟨fieldMap, isRecord, rfl⟩ := Option.map_eq_some_iff.mp isKept
  rw [OrderedMap.get?_mapValues, OrderedMap.get?_filter] at inKept
  obtain ⟨value, isValue, shown⟩ := Option.map_eq_some_iff.mp inKept
  obtain ⟨stored, text⟩ := Option.filter_eq_some_iff.mp isValue
  refine ⟨value, ?_, ?_⟩
  · unfold OrderedMap.getIn?
    rw [isRecord, Option.bind_some, stored]
  · obtain ⟨parsed, isParsed⟩ := Option.isSome_iff_exists.mp text
    rw [isParsed, Option.getD_some] at shown
    rw [isParsed, shown]

theorem InMemoryStorage.Numbered.snapshot {storage : InMemoryStorage}
    (numbered : storage.Numbered) : storage.serialize.1.parsed.Numbered := by
  have top : storage.topLayer.1.Numbered storage.topLayer.2.rank :=
    numbered.topLayer _ storage.topLayer_mem
  constructor
  · intro id key printed found
    obtain ⟨value, stored, text⟩ := getIn?_parsedRecords found
    obtain ⟨below, texts⟩ := top.link id key value stored
    exact ⟨below, fun name member => texts name (texts_parsed text member)⟩
  · intro id key printed found
    obtain ⟨value, stored, -⟩ := getIn?_parsedRecords found
    change OrderedMap.getIn? (OrderedMap.mapValues _ _) id key = some value at stored
    unfold OrderedMap.getIn? at stored
    rw [OrderedMap.get?_mapValues] at stored
    obtain ⟨kept, isKept, inKept⟩ := Option.bind_eq_some_iff.mp stored
    obtain ⟨fieldMap, isRecord, rfl⟩ := Option.map_eq_some_iff.mp isKept
    rw [OrderedMap.get?_filter] at inKept
    refine top.field id key value (Option.bind_eq_some_iff.mpr ⟨fieldMap, isRecord, ?_⟩)
    exact (Option.filter_eq_some_iff.mp inKept).1

namespace Layer

variable {bound : Nat} {layer : Layer}

theorem Numbered.delete (numbered : layer.Numbered bound) (id : String) :
    (layer.delete id).Numbered bound where
  link := numbered.link
  field := numbered.field
  insert := by
    intro other key operation member inserts
    refine numbered.insert other key operation ?_ inserts
    by_cases same : other = id
    · subst same
      cases found : layer.operations.get? other with
      | none => simp [listOperations, Layer.delete, addDeletedID, found] at member
      | some entry => simpa [listOperations, Layer.delete, addDeletedID, found] using member
    · simpa [listOperations, Layer.delete, addDeletedID, same] using member

theorem Numbered.clear : layer.clear.Numbered bound where
  link := fun _ _ _ found => by simp [Layer.clear] at found
  field := fun _ _ _ found => by simp [Layer.clear] at found
  insert := fun _ _ _ member => by simp [Layer.clear, listOperations] at member

theorem Numbered.hydrate {snapshot : Snapshot} (numbered : snapshot.Numbered)
    (kept : ({ layer with fields := ∅, links := ∅ } : Layer).Numbered snapshot.rank) :
    ({ layer with fields := snapshot.fields, links := snapshot.links } : Layer).Numbered
      snapshot.rank where
  link := numbered.link
  field := numbered.field
  insert := kept.insert

end Layer

variable {storage : InMemoryStorage}

theorem numbered_hydrate {snapshot : Snapshot} (numbered : snapshot.Numbered)
    {hydrated : Option LayerID}
    (kept : ∀ layer ∈ storage.data,
      (if hydrated = some layer.id then { layer with fields := ∅, links := ∅ }
        else layer).Numbered snapshot.rank) :
    (storage.hydrate snapshot.rank snapshot.fields snapshot.links hydrated).2.Numbered := by
  unfold InMemoryStorage.hydrate
  dsimp only
  cases target : hydrated.bind fun id => storage.data.find? (·.id == id) with
  | some found =>
      dsimp only
      obtain ⟨id, rfl, located⟩ := Option.bind_eq_some_iff.mp target
      have same : found.id = id := by simpa using List.find?_some located
      have operations := kept found (List.mem_of_find?_eq_some located)
      rw [if_pos (congrArg some same.symm)] at operations
      intro layer member
      obtain ⟨before, isLayer, rfl⟩ := List.mem_map.mp member
      split
      · exact operations.hydrate numbered
      · next apart =>
          have own := kept before isLayer
          rw [if_neg fun equal => apart ((Option.some.inj equal).symm.trans same.symm)] at own
          exact own
  | none =>
      simp only [InMemoryStorage.createLayer]
      intro layer member
      obtain ⟨before, isLayer, rfl⟩ := List.mem_map.mp member
      split
      · exact @Layer.Numbered.hydrate { id := storage.idCount, optimistic := true } snapshot
          numbered Layer.numbered_empty
      · next apart =>
          rcases List.mem_append.mp isLayer with old | added
          · have own := kept before old
            rw [if_neg] at own
            · exact own
            · rintro rfl
              rw [Option.bind_some, List.find?_eq_none] at target
              exact target before old (by simp)
          · obtain rfl := List.mem_singleton.mp added
            exact absurd rfl apart

theorem advances_writeLayer (numbered : storage.Numbered) (layer : Option LayerID) :
    Advancing (writeLayer layer) storage := by
  unfold Advancing writeLayer
  split
  · exact ⟨numbered.topLayer, Nat.le_of_eq InMemoryStorage.rank_topLayer.symm⟩
  · split
    · exact .refl numbered
    · exact .refl numbered

theorem write_sound (numbered : storage.Numbered) {context : WriteContext}
    {selection : SubscriptionSelection} {data : GraphQLObject} {parent : String}
    {layer : Option LayerID} (below : Below storage.rank parent)
    (careful : ∀ visit ∈ (CacheEvent.write context selection data parent layer).visits storage,
      visit.Careful context.config) :
    (∀ visit ∈ (CacheEvent.write context selection data parent layer).visits storage,
      visit.KeysFresh context.config) ∧
    Advancing (write context selection data parent layer) storage := by
  have target := advances_writeLayer numbered layer
  simp only [CacheEvent.visits] at careful ⊢
  unfold write
  cases result : writeLayer layer storage with
  | error error middle =>
      refine ⟨fun _ member => absurd member List.not_mem_nil, target.bind fun _ _ success => ?_⟩
      rw [result] at success
      cases success
  | ok id middle =>
      simp only [result] at careful
      have advances := target.state
      rw [result] at advances
      have written := writeSelection_sound context id selection parent data middle
        advances.numbered (below.mono advances.grows) careful
      refine ⟨written.1, target.bind fun _ _ success _ => ?_⟩
      rw [result] at success
      cases success
      exact written.2

theorem numbered_changeLayer (numbered : storage.Numbered) {layer : LayerID}
    {change : Layer → EStateM.Result JSError Layer Unit}
    (kept : ∀ current : Layer, current.Numbered storage.rank →
      (resultState (change current)).Numbered storage.rank) :
    (resultState (changeLayer layer change storage)).Numbered :=
  (advancing_changeLayer numbered kept).state.numbered

theorem CacheEvent.Careful.step (numbered : storage.Numbered) {event : CacheEvent}
    (careful : event.Careful storage) :
    event.KeysFresh storage ∧ (event.run storage).Numbered := by
  obtain ⟨visited, known⟩ := careful
  cases event with
  | write context selection data parent layer =>
      have written := write_sound numbered known visited
      exact ⟨written.1, written.2.state.numbered⟩
  | hydrate snapshot layer =>
      exact ⟨fun _ member => absurd member List.not_mem_nil, numbered_hydrate known.1 known.2⟩
  | createLayer optimistic =>
      exact ⟨fun _ member => absurd member List.not_mem_nil, numbered.createLayer optimistic⟩
  | resolveLayer layer =>
      exact ⟨fun _ member => absurd member List.not_mem_nil, (numbered.resolveLayer layer).1⟩
  | clear layer =>
      refine ⟨fun _ member => absurd member List.not_mem_nil, ?_⟩
      exact numbered_changeLayer numbered fun _ _ => Layer.Numbered.clear
  | remove layer id field target =>
      refine ⟨fun _ member => absurd member List.not_mem_nil, ?_⟩
      refine numbered_changeLayer numbered fun current own => ?_
      cases result : current.remove id field target with
      | error error => exact own
      | ok changed =>
          refine own.addFieldOperation ?_ result
          exact fun inserts => by cases inserts
  | delete layer id =>
      refine ⟨fun _ member => absurd member List.not_mem_nil, ?_⟩
      exact numbered_changeLayer numbered fun _ own => own.delete id

theorem numbered_run {events : List CacheEvent} (numbered : storage.Numbered)
    (careful : CarefulRun storage events) : (events.foldl CacheEvent.run storage).Numbered := by
  induction events generalizing storage with
  | nil => exact numbered
  | cons event rest ih => exact ih (careful.1.step numbered).2 careful.2

theorem carefulRun_append {before rest : List CacheEvent}
    (careful : CarefulRun storage (before ++ rest)) :
    CarefulRun storage before ∧ CarefulRun (before.foldl CacheEvent.run storage) rest := by
  induction before generalizing storage with
  | nil => exact ⟨trivial, careful⟩
  | cons event later ih =>
      obtain ⟨first, last⟩ := ih careful.2
      exact ⟨⟨careful.1, first⟩, last⟩

/-- In a run whose events are careful, all ids that are generated are new, and no list gets one
twice. -/
theorem keysFresh_of_carefulRun (events : List CacheEvent) (careful : CarefulRun {} events) :
    ∀ before event rest, events = before ++ event :: rest →
      event.KeysFresh (runEvents before) := by
  rintro before event rest rfl
  obtain ⟨first, last⟩ := carefulRun_append careful
  exact (last.1.step (numbered_run InMemoryStorage.numbered_empty first)).1

/-- A list of comments, which have no ids, and more of which can be loaded. -/
def comments : SubscriptionSelection where
  fields := [("comments", {
    type := "Comment"
    keyRaw := "comments"
    updates := some ["append"]
    selection := some { fields := [("text", { type := "String", keyRaw := "text" })] } })]

def loadComment (applyUpdates : Option (List String)) (text : String) : CacheEvent :=
  .write { applyUpdates } comments [("comments", .array [.object [("text", .string text)]])]
    rootID none

def hydratedComments : List CacheEvent :=
  [loadComment none "first",
    .hydrate (runEvents [loadComment none "first"]).serialize.1.parsed none, .resolveLayer 2]

theorem keysFresh_of_carefulRun_comments :
    (loadComment (some ["append"]) "second").KeysFresh (runEvents hydratedComments) := by
  have loads (applyUpdates : Option (List String)) (text : String) (events : List CacheEvent)
      {field : LinkedField} {middle : InMemoryStorage} {entries : List EntryVisit}
      (visited : (loadComment applyUpdates text).visits (runEvents events) =
        [.list field middle entries])
      (links : middle.HoldsLinks field.parent field.key)
      (different : (takenIDs {} entries).Nodup) :
      (loadComment applyUpdates text).Careful (runEvents events) := by
    refine ⟨fun visit member => ?_, below_rootID _⟩
    rw [visited] at member
    obtain rfl := List.mem_singleton.mp member
    exact ⟨links, different⟩
  have first := loads none "first" [] rfl (by decide) (by decide)
  have numbered : (runEvents [loadComment none "first"]).Numbered :=
    numbered_run InMemoryStorage.numbered_empty ⟨first, trivial⟩
  have hydrated : (CacheEvent.hydrate (runEvents [loadComment none "first"]).serialize.1.parsed
      none).Careful (runEvents [loadComment none "first"]) :=
    ⟨fun _ member => absurd member List.not_mem_nil, numbered.snapshot, fun layer member => by
      rw [if_neg (by simp)]
      exact numbered layer member⟩
  have resolved : (CacheEvent.resolveLayer 2).Careful (runEvents (hydratedComments.take 2)) :=
    ⟨fun _ member => absurd member List.not_mem_nil, trivial⟩
  have second := loads (some ["append"]) "second" hydratedComments rfl (by decide) (by decide)
  exact keysFresh_of_carefulRun (hydratedComments ++ [loadComment (some ["append"]) "second"])
    ⟨first, hydrated, resolved, second, trivial⟩ hydratedComments _ [] rfl

def blankSnapshot : Snapshot where
  rank := 0
  fields := ∅
  links := ∅

/-- The second comment gets the id of the first one, whose data it overwrites. -/
theorem not_keysFresh_comments :
    ¬ ∀ (events before : List CacheEvent) (event : CacheEvent) (rest : List CacheEvent),
      events = before ++ event :: rest → event.KeysFresh (runEvents before) := by
  intro claim
  have fresh := claim _ [loadComment none "first", .hydrate blankSnapshot none]
    (loadComment (some ["append"]) "second") [] rfl
  obtain ⟨field, storage, entry, layer, visited, generated, member, linked⟩ :
      ∃ field storage entry layer,
        (loadComment (some ["append"]) "second").visits
          (runEvents [loadComment none "first", .hydrate blankSnapshot none]) =
            [.list field storage [entry]] ∧
        entry.taken = none ∧ layer ∈ entry.storage.data ∧
        layer.links.getIn? rootID "comments" = some (.array [.string entry.id]) :=
    ⟨_, _, _, _, rfl, rfl, .head _, rfl⟩
  have list := fresh (.list field storage [entry]) (visited ▸ List.mem_cons_self)
  exact (list.1 entry List.mem_cons_self generated).unlinked layer member rootID "comments" _ linked
    List.mem_cons_self

end Houdini.Runtime.Cache
