import Houdini.Data.ViewPairs
import Houdini.Runtime.Cache.KeyMaps

/-! Two ids of one record read the same as long as no layer is divided about a field, and have the
same subscribers as long as the mapped id had none that the other one did not have. -/

set_option autoImplicit false

namespace Houdini.Runtime.Cache

namespace Layer

variable {layer : Layer} {idMaps : OrderedMap String String} {id source mapped field : String}

theorem HoldsNothing.idle (nothing : layer.HoldsNothing id field) :
    (layer.view idMaps id field).Idle (layer.hidden idMaps field) where
  stored := by
    rw [view, nothing.1]
    rfl
  deletes := nothing.2.1
  patch := by
    rw [view, nothing.2.2]
    exact {
      insertStart := by simp [ListOperation.patch]
      insertEnd := by simp [ListOperation.patch]
      removed := fun entry => by simp [ListOperation.patch] }

theorem Undivided.views (undivided : layer.Undivided source mapped field) :
    PatchView.Undivided (layer.hidden idMaps field) (layer.view idMaps source field)
      (layer.view idMaps mapped field) := by
  rcases undivided with nothing | nothing | ⟨value, deletes, operations⟩
  · exact .inl nothing.idle
  · exact .inr (.inl nothing.idle)
  · refine .inr (.inr ?_)
    rw [view, view, value, deletes, operations]

theorem Decides.view (decides : layer.Decides id field) :
    (layer.view idMaps id field).Decides :=
  decides.imp_left fun holds nothing => holds (storedCell_eq_nothing.mp nothing)

theorem hides_view (layer : Layer) (idMaps : OrderedMap String String) (id field : String) :
    PatchView.Hides (layer.hidden idMaps field) (layer.view idMaps id field).patch where
  insertStart := rfl
  insertEnd := rfl
  removed := fun _ member => List.mem_append_left _ member

end Layer

namespace InMemoryStorage

variable {storage : InMemoryStorage} {source mapped field : String}

structure TwoIDs (storage : InMemoryStorage) (source mapped : String) : Prop where
  ofSource : storage.idMaps.get? source = some mapped
  ofMapped : storage.idMaps.get? mapped = some source

theorem mapped_registerIDMapping (storage : InMemoryStorage) (source mapped : String) :
    (storage.registerIDMapping source mapped).TwoIDs source mapped where
  ofSource := by
    rw [registerIDMapping, OrderedMap.get?_set, OrderedMap.get?_set]
    split
    · next same => rw [same]
    · rw [if_pos rfl]
  ofMapped := by
    rw [registerIDMapping, OrderedMap.get?_set, if_pos rfl]

theorem undividedAbove_levels {layers : List Layer} {idMaps : OrderedMap String String}
    (undivided : undividedAbove source mapped field layers) :
    PatchView.UndividedAbove (layers.map fun layer => {
      hidden := layer.hidden idMaps field
      left := layer.view idMaps source field
      right := layer.view idMaps mapped field }) := by
  induction layers with
  | nil => trivial
  | cons layer below ih =>
      exact ⟨undivided.1.views, undivided.2.imp Layer.Decides.view
        (Or.imp Layer.Decides.view ih)⟩

theorem get_value_eq_of_undivided (maps : storage.TwoIDs source mapped)
    (sourceNamed : source ≠ "") (mappedNamed : mapped ≠ "")
    (undivided : storage.Undivided source mapped field) :
    (storage.get source field).value = (storage.get mapped field).value := by
  have levels : PatchView.UndividedAbove (storage.data.reverse.map fun layer => {
      hidden := layer.hidden storage.idMaps field
      left := layer.view storage.idMaps source field
      right := layer.view storage.idMaps mapped field }) := undividedAbove_levels undivided
  have swapped := PatchView.read_swapped levels (by
      intro level member
      obtain ⟨layer, _, rfl⟩ := List.mem_map.mp member
      exact ⟨layer.hides_view _ _ _, layer.hides_view _ _ _⟩) {}
  rw [List.flatMap_map, List.flatMap_map] at swapped
  rw [get_value, get_value, views, views, recordIDs, recordIDs, maps.ofSource, maps.ofMapped]
  simpa [sourceNamed, mappedNamed] using congrArg cellValue swapped.symm

end InMemoryStorage

theorem FieldSubscribers.references_le_add (field : FieldSubscribers) (selection : FieldSelection)
    (masked : Bool) (onMessage : Nat) :
    field.references onMessage ≤ (field.add selection masked).references onMessage := by
  cases masked with
  | true =>
      simp only [add, references, visit, if_true, OrderedMap.get?_set]
      split
      · next same =>
          rw [same, Option.getD_some]
          omega
      · exact Nat.le_refl _
  | false =>
      simp only [add, references, visit, Bool.false_eq_true, if_false, OrderedMap.get?_set]
      split
      · next same =>
          rw [same, Option.getD_some]
          omega
      · exact Nat.le_refl _

namespace InMemorySubscriptions

variable {subscriptions : InMemorySubscriptions}

theorem Tallied.references_ensureTable (tallied : subscriptions.Tallied) (id other key : String)
    (onMessage : Nat) :
    (subscriptions.ensureTable id).2.references other key onMessage =
      subscriptions.references other key onMessage := by
  unfold InMemorySubscriptions.ensureTable
  cases placed : subscriptions.subscribers.get? id with
  | some position => rfl
  | none =>
      by_cases same : other = id
      · rw [same, InMemorySubscriptions.references_eq_zero placed,
          InMemorySubscriptions.references_eq (OrderedMap.get?_set_self ..)
            (List.getElem?_concat_length ..)]
        rfl
      · unfold InMemorySubscriptions.references field? table?
        dsimp only
        rw [OrderedMap.get?_set_of_ne _ _ same]
        cases known : subscriptions.subscribers.get? other with
        | none => rfl
        | some position =>
            simp only [Option.bind_some]
            rw [List.getElem?_append_left (tallied.placed other position known)]

theorem Tallied.references_le_add (tallied : subscriptions.Tallied) (id key : String)
    (selection : FieldSelection) (masked : Bool) (other otherKey : String) (onMessage : Nat) :
    subscriptions.references other otherKey onMessage ≤
      (subscriptions.addFieldSubscription id key selection masked).references other otherKey
        onMessage := by
  rw [← tallied.references_ensureTable id other otherKey onMessage]
  unfold InMemorySubscriptions.addFieldSubscription
  generalize subscriptions.ensureTable id = ensured
  obtain ⟨position, ensured⟩ := ensured
  unfold InMemorySubscriptions.references field? table?
  dsimp only
  cases ensured.subscribers.get? other with
  | none => exact Nat.le_refl _
  | some place =>
      simp only [Option.bind_some]
      rw [List.getElem?_modify]
      cases ensured.tables[place]? with
      | none => exact Nat.le_refl _
      | some table =>
          rw [Option.map_eq_map, Option.map_some, Option.bind_some, Option.bind_some]
          by_cases here : position = place
          · rw [if_pos here, OrderedMap.get?_set]
            by_cases same : otherKey = key
            · rw [if_pos same, same]
              cases table.get? key with
              | none => exact Nat.zero_le _
              | some field => exact field.references_le_add selection masked onMessage
            · rw [if_neg same]
          · rw [if_neg here]

theorem Tallied.references_copySubscribers (tallied : subscriptions.Tallied)
    (source mapped other key : String) (onMessage : Nat) :
    (subscriptions.copySubscribers source mapped).references other key onMessage =
      if other = mapped then subscriptions.references source key onMessage
      else subscriptions.references other key onMessage := by
  unfold InMemorySubscriptions.copySubscribers
  cases placed : subscriptions.subscribers.get? source with
  | some position =>
      unfold InMemorySubscriptions.references field? table?
      dsimp only
      rw [OrderedMap.get?_set]
      split
      · rw [placed]
      · rfl
  | none =>
      dsimp only
      by_cases same : other = mapped
      · rw [if_pos same, same, InMemorySubscriptions.references_eq_zero placed,
          InMemorySubscriptions.references_eq (OrderedMap.get?_set_self ..)
            (List.getElem?_concat_length ..)]
        rfl
      · rw [if_neg same]
        unfold InMemorySubscriptions.references field? table?
        dsimp only
        rw [OrderedMap.get?_set_of_ne _ _ same]
        cases known : subscriptions.subscribers.get? other with
        | none => rfl
        | some position =>
            simp only [Option.bind_some]
            rw [List.getElem?_append_left (tallied.placed other position known)]

end InMemorySubscriptions

namespace InMemoryStorage

theorem write_idMaps (storage : InMemoryStorage) (layer? : Option LayerID) (write : LayerWrite) :
    (storage.write layer? write).idMaps = storage.idMaps := by
  unfold InMemoryStorage.write
  cases layer? with
  | none =>
      dsimp only
      unfold topLayer
      split
      · rfl
      · split <;> rfl
  | some id =>
      dsimp only
      split <;> rfl

theorem getTypename_idMaps (storage : InMemoryStorage) (id : String) :
    (storage.getTypename id).2.idMaps = storage.idMaps := by
  rw [(storage.getTypename_storage id).1]

theorem mapM_idMaps {Item Value : Type} {walk : Item → WalkM Value}
    (keeps : ∀ item storage, (walk item storage).2.idMaps = storage.idMaps) (items : List Item)
    (storage : InMemoryStorage) : (items.mapM walk storage).2.idMaps = storage.idMaps := by
  induction items generalizing storage with
  | nil => rfl
  | cons item rest ih =>
      rw [List.mapM_cons]
      exact (ih _).trans (keeps item storage)

theorem visitsWithin_idMaps (vars : GraphQLObject) (depth : Nat) :
    ∀ (selection : SubscriptionSelection) (id : String) (masked : Bool) (storage : InMemoryStorage),
      (visitsWithin vars depth selection id masked storage).2.idMaps = storage.idMaps := by
  induction depth with
  | zero => exact fun _ _ _ _ => rfl
  | succ depth ih =>
      intro selection id masked storage
      exact (mapM_idMaps (fun link : String × SubscriptionSelection × Bool =>
        ih link.2.1 link.1 link.2.2) _ _).trans
        (getTypename_idMaps storage id)

end InMemoryStorage

namespace CacheInternal

variable {cache : CacheInternal}

theorem unsubscribe_idMaps (cache : CacheInternal) (spec : SubscriptionSpec)
    (vars : GraphQLObject) :
    (cache.unsubscribe spec vars).storage.idMaps = cache.storage.idMaps :=
  InMemoryStorage.visitsWithin_idMaps vars _ spec.selection spec.root false cache.storage

theorem foldl_keeps {Item Observed : Type} {change : CacheInternal → Item → CacheInternal}
    (observe : CacheInternal → Observed) (keeps : ∀ cache item,
      observe (change cache item) = observe cache) (items : List Item) (cache : CacheInternal) :
    observe (items.foldl change cache) = observe cache := by
  induction items generalizing cache with
  | nil => rfl
  | cons item rest ih => exact (ih _).trans (keeps cache item)

theorem addField_idMaps (cache : CacheInternal) (spec : SubscriptionSpec) (vars : GraphQLObject)
    (parent parentType : String) (typename : Option String) (masked : Bool)
    (field : SelectionField) :
    (cache.addField spec vars parent parentType typename masked field).storage.idMaps =
      cache.storage.idMaps := by
  unfold addField
  dsimp only
  split
  · rfl
  · split
    · rfl
    · exact InMemoryStorage.getTypename_idMaps cache.storage parent

theorem addWithin_idMaps (spec : SubscriptionSpec) (vars : GraphQLObject) (depth : Nat) :
    ∀ (selection : SubscriptionSelection) (parent parentType : String) (masked : Bool)
      (cache : CacheInternal),
      (addWithin spec vars depth selection parent parentType masked cache).storage.idMaps =
        cache.storage.idMaps := by
  induction depth with
  | zero => exact fun _ _ _ _ _ => rfl
  | succ depth ih =>
      intro selection parent parentType masked cache
      unfold addWithin
      dsimp only
      refine (foldl_keeps (fun cache : CacheInternal => cache.storage.idMaps)
        (fun cache entry => ?_) _ _).trans (InMemoryStorage.getTypename_idMaps cache.storage parent)
      exact (foldl_keeps (fun cache : CacheInternal => cache.storage.idMaps)
        (fun cache link => ih _ _ _ _ _) _ _).trans (addField_idMaps ..)

theorem TwoIDs.apply {source mapped : String} (maps : cache.storage.TwoIDs source mapped)
    (event : KeyMapEvent) : (cache.apply event).storage.TwoIDs source mapped := by
  have same : (cache.apply event).storage.idMaps = cache.storage.idMaps := by
    cases event with
    | write layer? write => exact InMemoryStorage.write_idMaps ..
    | subscribe spec vars => exact addWithin_idMaps ..
    | unsubscribe spec vars => exact unsubscribe_idMaps ..
  exact ⟨same ▸ maps.ofSource, same ▸ maps.ofMapped⟩

/-- The references of a subscriber only get fewer by its own removal. -/
structure Grows (cache next : CacheInternal) (onMessage : Nat) : Prop where
  tallied : next.subscriptions.Tallied
  references : ∀ id key, cache.subscriptions.references id key onMessage ≤
    next.subscriptions.references id key onMessage

theorem grows_addField {onMessage : Nat} (tallied : cache.subscriptions.Tallied)
    (spec : SubscriptionSpec) (vars : GraphQLObject) (parent parentType : String)
    (typename : Option String) (masked : Bool) (field : SelectionField) :
    cache.Grows (cache.addField spec vars parent parentType typename masked field) onMessage where
  tallied := tallied_addField tallied spec vars parent parentType typename masked field
  references := fun id key => by
    have more := tallied.references_le_add parent (field.key vars)
      (spec, field.selection.bind fun selection => getFieldsForType selection typename)
      (masked || !field.visible) id key onMessage
    unfold addField
    dsimp only
    split
    · exact more
    · split <;> exact more

theorem Grows.trans {middle next : CacheInternal} {onMessage : Nat}
    (first : cache.Grows middle onMessage) (later : middle.Grows next onMessage) :
    cache.Grows next onMessage where
  tallied := later.tallied
  references := fun id key => (first.references id key).trans (later.references id key)

theorem grows_foldl {Item : Type} {onMessage : Nat} {change : CacheInternal → Item → CacheInternal}
    (grows : ∀ (cache : CacheInternal) (item : Item), cache.subscriptions.Tallied →
      cache.Grows (change cache item) onMessage)
    (items : List Item) (tallied : cache.subscriptions.Tallied) :
    cache.Grows (items.foldl change cache) onMessage := by
  induction items generalizing cache with
  | nil => exact ⟨tallied, fun _ _ => Nat.le_refl _⟩
  | cons item rest ih =>
      have first := grows cache item tallied
      exact first.trans (ih first.tallied)

theorem grows_addWithin {onMessage : Nat} (spec : SubscriptionSpec) (vars : GraphQLObject)
    (depth : Nat) :
    ∀ (selection : SubscriptionSelection) (parent parentType : String) (masked : Bool)
      (cache : CacheInternal), cache.subscriptions.Tallied →
      cache.Grows (addWithin spec vars depth selection parent parentType masked cache)
        onMessage := by
  induction depth with
  | zero => exact fun _ _ _ _ _ tallied => ⟨tallied, fun _ _ => Nat.le_refl _⟩
  | succ depth ih =>
      intro selection parent parentType masked cache tallied
      unfold addWithin
      dsimp only
      have typed : cache.Grows { cache with storage := (cache.storage.getTypename parent).2 }
          onMessage := ⟨tallied, fun _ _ => Nat.le_refl _⟩
      refine typed.trans (grows_foldl (fun current entry known => ?_) _ tallied)
      have added : current.Grows (current.addField spec vars parent parentType
          (cache.storage.getTypename parent).1 masked entry.2) onMessage :=
        grows_addField known spec vars parent parentType _ masked entry.2
      exact added.trans (grows_foldl (fun current link known => ih _ _ _ _ _ known) _ added.tallied)

theorem references_unsubscribe (tallied : cache.subscriptions.Tallied) (spec : SubscriptionSpec)
    (vars : GraphQLObject) {onMessage : Nat} (other : spec.onMessage ≠ onMessage)
    (id key : String) :
    (cache.unsubscribe spec vars).subscriptions.references id key onMessage =
      cache.subscriptions.references id key onMessage := by
  have reduced := (InMemorySubscriptions.Reduced.start tallied).foldl_release
    (remove vars [spec] spec.selection spec.root false cache.storage).1
  refine (reduced.references id key onMessage).trans ?_
  rw [Nat.zero_add, InMemorySubscriptions.released]
  rw [List.sum_eq_zero_iff_forall_eq_nat.mpr, Nat.sub_zero]
  intro count member
  obtain ⟨release, released, rfl⟩ := List.mem_map.mp member
  obtain ⟨visit, _, rfl⟩ := List.mem_map.mp released
  simp [InMemorySubscriptions.releasedAt, other]

theorem Grows.apply (tallied : cache.subscriptions.Tallied) {event : KeyMapEvent}
    {onMessage : Nat} (stays : ∀ spec vars, event = .unsubscribe spec vars →
      spec.onMessage ≠ onMessage) : cache.Grows (cache.apply event) onMessage := by
  cases event with
  | write layer? write => exact ⟨tallied, fun _ _ => Nat.le_refl _⟩
  | subscribe spec vars => exact grows_addWithin spec vars _ _ _ _ _ _ tallied
  | unsubscribe spec vars =>
      exact ⟨tallied_release tallied _, fun id key =>
        (references_unsubscribe tallied spec vars (stays spec vars rfl) id key).ge⟩

theorem tallied_apply (tallied : cache.subscriptions.Tallied) (event : KeyMapEvent) :
    (cache.apply event).subscriptions.Tallied := by
  cases event with
  | write layer? write => exact tallied
  | subscribe spec vars => exact tallied_addWithin spec vars _ _ _ _ _ _ tallied
  | unsubscribe spec vars => exact tallied_release tallied _

theorem tallied_run (tallied : cache.subscriptions.Tallied) (events : List KeyMapEvent) :
    (cache.run events).subscriptions.Tallied := by
  induction events generalizing cache with
  | nil => exact tallied
  | cons event rest ih => exact ih (tallied_apply tallied event)

theorem Grows.run (tallied : cache.subscriptions.Tallied) {events : List KeyMapEvent}
    {onMessage : Nat} (stays : ∀ spec vars, .unsubscribe spec vars ∈ events →
      spec.onMessage ≠ onMessage) : cache.Grows (cache.run events) onMessage := by
  induction events generalizing cache with
  | nil => exact ⟨tallied, fun _ _ => Nat.le_refl _⟩
  | cons event rest ih =>
      have first : cache.Grows (cache.apply event) onMessage := Grows.apply tallied
        fun spec vars same => stays spec vars (same ▸ List.mem_cons_self)
      exact first.trans (ih first.tallied fun spec vars member =>
        stays spec vars (List.mem_cons_of_mem _ member))

theorem TwoIDs.run {source mapped : String} (maps : cache.storage.TwoIDs source mapped)
    (events : List KeyMapEvent) : (cache.run events).storage.TwoIDs source mapped := by
  induction events generalizing cache with
  | nil => exact maps
  | cons event rest ih => exact ih (TwoIDs.apply maps event)

/-- After a key map is registered, and whatever is written, subscribed and unsubscribed later: both
ids read the same while no layer is divided about the field, what was subscribed to the record
stays subscribed to both, and only a subscriber of its own is unsubscribed. -/
theorem registerKeyMap_interchangeable
    {active : List (SubscriptionSpec × GraphQLObject)} (history : Subscribed active cache)
    {source mapped : String} (sourceNamed : source ≠ "") (mappedNamed : mapped ≠ "")
    (covered : ∀ key onMessage, cache.subscriptions.Registered mapped key onMessage →
      cache.subscriptions.Registered source key onMessage) (events : List KeyMapEvent) :
    let later := (cache.registerKeyMap source mapped).run events
    (∀ field, later.storage.Undivided source mapped field →
      (later.storage.get source field).value = (later.storage.get mapped field).value) ∧
    (∀ key onMessage,
      (cache.subscriptions.Registered source key onMessage ∨
        cache.subscriptions.Registered mapped key onMessage) →
      (∀ spec vars, .unsubscribe spec vars ∈ events → spec.onMessage ≠ onMessage) →
      later.subscriptions.Registered source key onMessage ∧
        later.subscriptions.Registered mapped key onMessage) ∧
    ∀ (spec : SubscriptionSpec) (vars : GraphQLObject) (id key : String) (onMessage : Nat),
      spec.onMessage ≠ onMessage →
      ((later.unsubscribe spec vars).subscriptions.Registered id key onMessage ↔
        later.subscriptions.Registered id key onMessage) := by
  have known := history.tallied
  have copied := known.copySubscribers source mapped
  have tallied : ((cache.registerKeyMap source mapped).run events).subscriptions.Tallied :=
    tallied_run copied events
  refine ⟨fun field undivided => ?_, fun key onMessage registered stays => ?_,
    fun spec vars id key onMessage other => ?_⟩
  · have maps := @TwoIDs.run (cache.registerKeyMap source mapped) _ _
      (cache.storage.mapped_registerIDMapping source mapped) events
    exact InMemoryStorage.get_value_eq_of_undivided maps sourceNamed mappedNamed undivided
  · have ofSource : 0 < cache.subscriptions.references source key onMessage :=
      known.registered_iff.mp (registered.elim id (covered key onMessage))
    have both (other : String) (isOne : other = source ∨ other = mapped) :
        0 < (cache.registerKeyMap source mapped).subscriptions.references other key onMessage := by
      have copies := known.references_copySubscribers source mapped other key onMessage
      refine lt_of_lt_of_eq ofSource (Eq.trans ?_ copies.symm)
      split
      · rfl
      · next different => rw [isOne.resolve_right different]
    have grown : (cache.registerKeyMap source mapped).Grows
        ((cache.registerKeyMap source mapped).run events) onMessage := Grows.run copied stays
    exact ⟨tallied.registered_iff.mpr
        ((both source (.inl rfl)).trans_le (grown.references source key)),
      tallied.registered_iff.mpr ((both mapped (.inr rfl)).trans_le (grown.references mapped key))⟩
  · have left : (((cache.registerKeyMap source mapped).run events).unsubscribe spec
        vars).subscriptions.Tallied := tallied_release tallied _
    rw [left.registered_iff, tallied.registered_iff]
    exact iff_of_eq (congrArg (0 < ·) (references_unsubscribe tallied spec vars other id key))

private def nameSubscriber (id : String) : SubscriptionSpec where
  rootType := "User"
  selection := {
    fields := [("name", { type := "String", keyRaw := "name", visible := true })] }
  onMessage := 0
  parentID := some id

private def named (id : String) : CacheInternal :=
  ({} : CacheInternal).subscribe (nameSubscriber id) []

private theorem named_subscribed (id : String) :
    Subscribed [(nameSubscriber id, [])] (named id) :=
  (Subscribed.start {}).subscribe (nameSubscriber id) []

private def twoNames : List KeyMapEvent := [
  .write none (.writeField "User:1" "name" (.string "Ada")),
  .write none (.writeField "User:2" "name" (.string "Grace"))]

/-- The subscriber of the user reads what is written under the other id. -/
theorem registerKeyMap_interchangeable_user :
    let later := ((named "User:1").registerKeyMap "User:1" "User:2").run
      [.write none (.writeField "User:2" "name" (.string "Ada"))]
    (∀ field, later.storage.Undivided "User:1" "User:2" field →
      (later.storage.get "User:1" field).value = (later.storage.get "User:2" field).value) ∧
    (∀ key onMessage,
      ((named "User:1").subscriptions.Registered "User:1" key onMessage ∨
        (named "User:1").subscriptions.Registered "User:2" key onMessage) →
      (∀ spec vars, KeyMapEvent.unsubscribe spec vars ∈
          [KeyMapEvent.write none (.writeField "User:2" "name" (.string "Ada"))] →
        spec.onMessage ≠ onMessage) →
      later.subscriptions.Registered "User:1" key onMessage ∧
        later.subscriptions.Registered "User:2" key onMessage) ∧
    ∀ (spec : SubscriptionSpec) (vars : GraphQLObject) (id key : String) (onMessage : Nat),
      spec.onMessage ≠ onMessage →
      ((later.unsubscribe spec vars).subscriptions.Registered id key onMessage ↔
        later.subscriptions.Registered id key onMessage) := by
  refine registerKeyMap_interchangeable (named_subscribed "User:1") (by decide) (by decide)
    (fun key onMessage registered => ?_) _
  have unknown : (named "User:1").subscriptions.subscribers.get? "User:2" = none := by
    decide +kernel
  have none := InMemorySubscriptions.references_eq_zero unknown key onMessage
  exact absurd ((named_subscribed "User:1").tallied.registered_iff.mp registered) (by omega)

/-- The names differ once each is written under its own id, and a subscriber of the mapped id is
lost. -/
theorem registerKeyMap_divides_user :
    (((({} : CacheInternal).registerKeyMap "User:1" "User:2").run twoNames).storage.get
        "User:1" "name").value = .string "Grace" ∧
      (((({} : CacheInternal).registerKeyMap "User:1" "User:2").run twoNames).storage.get
        "User:2" "name").value = .string "Ada" ∧
      (named "User:2").subscriptions.Registered "User:2" "name" 0 ∧
      ¬ ((named "User:2").registerKeyMap "User:1" "User:2").subscriptions.Registered
        "User:2" "name" 0 := by
  unfold InMemorySubscriptions.Registered
  decide +kernel

end CacheInternal

end Houdini.Runtime.Cache
