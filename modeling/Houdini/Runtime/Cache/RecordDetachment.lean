import Houdini.Runtime.Cache.GarbageCollection
import Houdini.Runtime.Cache.ReferenceCounts

/-! When a record that is deleted loses all of its subscribers, and no other record loses one that
still reads it. -/

set_option autoImplicit false

namespace Houdini.Runtime.Cache

namespace CacheInternal

variable {cache : CacheInternal} {active : List (SubscriptionSpec × GraphQLObject)}

def reset (cache : CacheInternal) : CacheInternal :=
  { configFile := cache.configFile
    storage := cache.storage.reset
    subscriptions := cache.subscriptions.reset }

/-- The caches that a history of calls leads to, with the subscribers that are active then and the
variables that they subscribed with. -/
inductive Subscribed : List (SubscriptionSpec × GraphQLObject) → CacheInternal → Prop where
  | start (configFile : ConfigFile) : Subscribed [] { configFile }
  | step {active : List (SubscriptionSpec × GraphQLObject)} {cache next : CacheInternal}
      (history : Subscribed active cache) (step : cache.Step next) : Subscribed active next
  | subscribe {active : List (SubscriptionSpec × GraphQLObject)} {cache : CacheInternal}
      (history : Subscribed active cache) (spec : SubscriptionSpec) (vars : GraphQLObject) :
      Subscribed ((spec, vars) :: active) (cache.subscribe spec vars)
  | unsubscribe {active : List (SubscriptionSpec × GraphQLObject)} {cache : CacheInternal}
      (history : Subscribed active cache) (spec : SubscriptionSpec) (vars : GraphQLObject) :
      Subscribed (active.filter fun entry => entry.1.onMessage != spec.onMessage)
        (cache.unsubscribe spec vars)
  | delete {active : List (SubscriptionSpec × GraphQLObject)} {cache : CacheInternal}
      (history : Subscribed active cache) (id : String) (layer : Option LayerID) :
      Subscribed active (resultState (cache.delete id layer))
  | reset {active : List (SubscriptionSpec × GraphQLObject)} {cache : CacheInternal}
      (history : Subscribed active cache) : Subscribed active cache.reset

def releasesOfList (cache : CacheInternal) (id : String) (list : ListHandler) : List Release :=
  match list.entryOf cache.storage id with
  | .ok (some entry) =>
      match list.entrySelection with
      | some selection => (cache.leaveEntry list selection entry.targetID cache.storage).1
      | none => []
  | _ => []

def releasesOfLists (id : String) (layer : Option LayerID) :
    List ListHandler → CacheInternal → List Release
  | [], _ => []
  | list :: rest, cache => cache.releasesOfList id list ++
      match removeID id layer list cache with
      | .ok _ next => releasesOfLists id layer rest next
      | .error _ _ => []

def releasesOfRecord (cache : CacheInternal) (layer : Option LayerID) (id : String) :
    List Release :=
  let all := removeAllSubscribers (cache.subscriptions.specs id) id
  let left := cache.release all
  (all cache.storage).1 ++ releasesOfLists id layer left.lists.handlers left

def releasesOfRecords (layer : Option LayerID) : List String → CacheInternal → List Release
  | [], _ => []
  | id :: rest, cache => cache.releasesOfRecord layer id ++
      match deleteRecord layer id cache with
      | .ok _ next => releasesOfRecords layer rest next
      | .error _ _ => []

def deletedNames (cache : CacheInternal) (id : String) : List String :=
  (cache.storage.recordIDs id).filter (· != "")

def releases (cache : CacheInternal) (id : String) (layer : Option LayerID) : List Release :=
  releasesOfRecords layer (cache.deletedNames id) cache

theorem onStorage_subscriptions
    (change : InMemoryStorage → EStateM.Result JSError InMemoryStorage Unit)
    (cache : CacheInternal) :
    (resultState (onStorage change cache)).subscriptions = cache.subscriptions := by
  unfold onStorage
  cases change cache.storage with
  | ok _ storage => rfl
  | error error storage => rfl

theorem removeID_subscriptions (id : String) (layer : Option LayerID) (list : ListHandler)
    (cache : CacheInternal) :
    (resultState (removeID id layer list cache)).subscriptions =
      (cache.releasesOfList id list).foldl InMemorySubscriptions.release cache.subscriptions := by
  unfold removeID releasesOfList
  cases list.entryOf cache.storage id with
  | error error => rfl
  | ok entry =>
      cases entry with
      | none => rfl
      | some entry =>
          cases list.entrySelection with
          | none => rfl
          | some selection => exact onStorage_subscriptions _ _

theorem forM_removeID_subscriptions (id : String) (layer : Option LayerID)
    (lists : List ListHandler) (cache : CacheInternal) :
    (resultState (lists.forM (removeID id layer) cache)).subscriptions =
      (releasesOfLists id layer lists cache).foldl InMemorySubscriptions.release
        cache.subscriptions := by
  induction lists generalizing cache with
  | nil => rfl
  | cons list rest ih =>
      have first := removeID_subscriptions id layer list cache
      rw [releasesOfLists, List.foldl_append, ← first]
      change (resultState (EStateM.bind (removeID id layer list) _ cache)).subscriptions = _
      unfold EStateM.bind
      cases removeID id layer list cache with
      | ok _ next => exact ih next
      | error error next => rfl

theorem deleteRecord_subscriptions (layer : Option LayerID) (id : String) (cache : CacheInternal) :
    (resultState (deleteRecord layer id cache)).subscriptions =
      (cache.releasesOfRecord layer id).foldl InMemorySubscriptions.release cache.subscriptions := by
  have lists := forM_removeID_subscriptions id layer
    (cache.release (removeAllSubscribers (cache.subscriptions.specs id) id)).lists.handlers
    (cache.release (removeAllSubscribers (cache.subscriptions.specs id) id))
  unfold releasesOfRecord
  rw [List.foldl_append]
  refine Eq.trans ?_ lists
  change (resultState (EStateM.bind (removeIDFromAllLists id layer) _ _)).subscriptions = _
  unfold EStateM.bind removeIDFromAllLists
  cases List.forM _ (removeID id layer) _ with
  | ok _ next => exact onStorage_subscriptions _ next
  | error error next => rfl

theorem delete_subscriptions (cache : CacheInternal) (id : String) (layer : Option LayerID) :
    (resultState (cache.delete id layer)).subscriptions =
      (cache.releases id layer).foldl InMemorySubscriptions.release cache.subscriptions := by
  unfold delete releases deletedNames
  generalize (cache.storage.recordIDs id).filter (· != "") = names
  induction names generalizing cache with
  | nil => rfl
  | cons name rest ih =>
      have first := deleteRecord_subscriptions layer name cache
      rw [releasesOfRecords, List.foldl_append, ← first]
      change (resultState (EStateM.bind (deleteRecord layer name) _ cache)).subscriptions = _
      unfold EStateM.bind
      cases deleteRecord layer name cache with
      | ok _ next => exact ih next
      | error error next => rfl

theorem tallied_release (tallied : cache.subscriptions.Tallied)
    (removal : WalkM (List Release)) : (cache.release removal).subscriptions.Tallied :=
  ((InMemorySubscriptions.Reduced.start tallied).foldl_release (removal cache.storage).1).tallied

theorem tallied_delete (tallied : cache.subscriptions.Tallied) (id : String)
    (layer : Option LayerID) : (resultState (cache.delete id layer)).subscriptions.Tallied := by
  rw [delete_subscriptions]
  exact ((InMemorySubscriptions.Reduced.start tallied).foldl_release _).tallied

theorem tallied_addField (tallied : cache.subscriptions.Tallied) (spec : SubscriptionSpec)
    (vars : GraphQLObject) (parent parentType : String) (typename : Option String)
    (masked : Bool) (field : SelectionField) :
    (cache.addField spec vars parent parentType typename masked field).subscriptions.Tallied := by
  have added := tallied.addFieldSubscription parent (field.key vars)
    (spec, field.selection.bind fun selection => getFieldsForType selection typename)
    (masked || !field.visible)
  unfold addField
  dsimp only
  split
  · exact added
  · split
    · exact added
    · exact added

theorem tallied_addWithin (spec : SubscriptionSpec) (vars : GraphQLObject) (depth : Nat) :
    ∀ (selection : SubscriptionSelection) (parent parentType : String) (masked : Bool)
      (cache : CacheInternal), cache.subscriptions.Tallied →
      (addWithin spec vars depth selection parent parentType masked cache).subscriptions.Tallied := by
  induction depth with
  | zero => exact fun _ _ _ _ _ tallied => tallied
  | succ depth ih =>
      intro selection parent parentType masked cache tallied
      have folds {Item : Type} (items : List Item) (change : CacheInternal → Item → CacheInternal)
          (keeps : ∀ cache item, cache.subscriptions.Tallied →
            (change cache item).subscriptions.Tallied) (cache : CacheInternal)
          (tallied : cache.subscriptions.Tallied) :
          (items.foldl change cache).subscriptions.Tallied := by
        induction items generalizing cache with
        | nil => exact tallied
        | cons item rest later => exact later _ (keeps cache item tallied)
      unfold addWithin
      dsimp only
      refine folds _ _ (fun cache entry known => ?_) _ tallied
      exact folds _ _ (fun cache link known => ih _ _ _ _ _ known) _
        (tallied_addField known spec vars parent parentType _ masked entry.2)

theorem collectGarbage_subscriptions (now : Nat) (cache : CacheInternal) :
    (collectGarbage now cache).subscriptions = cache.subscriptions := by
  have ticked : (tick now cache).subscriptions = cache.subscriptions := by
    unfold tick
    generalize cache.lifetimes.lifetimes.entriesIn = entries
    induction entries generalizing cache with
    | nil => rfl
    | cons entry rest ih =>
        exact (ih (tickField now cache entry)).trans (tickField_frame now cache entry).1
  unfold collectGarbage
  dsimp only
  split
  · exact ticked
  · exact ticked

theorem Subscribed.tallied (history : Subscribed active cache) : cache.subscriptions.Tallied := by
  induction history with
  | start configFile => exact InMemorySubscriptions.tallied_empty
  | step history step ih =>
      cases step with
      | addFieldSubscription id key selection masked =>
          exact ih.addFieldSubscription id key selection masked
      | removeSubscribers id field specs preferMasked =>
          exact ih.removeSubscribers id field specs preferMasked
      | copySubscribers source target => exact ih.copySubscribers source target
      | collectGarbage now =>
          rw [collectGarbage_subscriptions]
          exact ih
      | storage step => exact ih
      | resetLifetime | deleteLifetimes | lists | staleManager => exact ih
  | subscribe history spec vars ih => exact tallied_addWithin spec vars _ _ _ _ _ _ ih
  | unsubscribe history spec vars ih => exact tallied_release ih _
  | delete history id layer ih => exact tallied_delete ih id layer
  | reset history ih => exact ih.reset

def Visits (cache : CacheInternal) (subscriber : SubscriptionSpec × GraphQLObject)
    (record key : String) : Prop :=
  ∃ visit ∈ (visits subscriber.2 subscriber.1.selection subscriber.1.root false cache.storage).1,
    visit.record = record ∧ visit.key = key

/-- The record has no subscribers any more, and no subscriber was taken off a field of another
record that it still reads. -/
structure Detaches (active : List (SubscriptionSpec × GraphQLObject)) (cache : CacheInternal)
    (id : String) (layer : Option LayerID) : Prop where
  detached : ∀ name ∈ cache.deletedNames id, ∀ key,
    (resultState (cache.delete id layer)).subscriptions.field? name key = none
  kept : ∀ subscriber ∈ active, ∀ record key, record ∉ cache.deletedNames id →
    (resultState (cache.delete id layer)).Visits subscriber record key →
    cache.subscriptions.Registered record key subscriber.1.onMessage →
    (resultState (cache.delete id layer)).subscriptions.Registered record key
      subscriber.1.onMessage

/-- The delete releases as many references as there are to the fields of the record, and fewer than
there are to a field of another record that a subscriber still reads. -/
structure Balanced (active : List (SubscriptionSpec × GraphQLObject)) (cache : CacheInternal)
    (id : String) (layer : Option LayerID) : Prop where
  covered : ∀ name ∈ cache.deletedNames id, ∀ key onMessage,
    cache.subscriptions.references name key onMessage ≤
      cache.subscriptions.released (cache.releases id layer) name key onMessage
  spared : ∀ subscriber ∈ active, ∀ record key, record ∉ cache.deletedNames id →
    (resultState (cache.delete id layer)).Visits subscriber record key →
    cache.subscriptions.Registered record key subscriber.1.onMessage →
    cache.subscriptions.released (cache.releases id layer) record key subscriber.1.onMessage <
      cache.subscriptions.references record key subscriber.1.onMessage

private def idField (inner : Option SubscriptionSelection) (key : String) : SelectionField where
  type := "User"
  keyRaw := key
  visible := true
  selection := inner

private def friendSelection : SubscriptionSelection where
  fields := [("id", idField none "id")]

private def friendsSelection : SubscriptionSelection where
  fields := [
    ("viewer", idField (some { fields := [("id", idField none "id"),
      ("friend", idField (some friendSelection) "friend")] }) "viewer"),
    ("users", idField (some friendSelection) "users")]

private def friendsSubscriber : SubscriptionSpec where
  rootType := "Query"
  selection := friendsSelection
  onMessage := 0

private def linking (storage : InMemoryStorage) (id field : String) (value : GraphQLValue) :
    InMemoryStorage :=
  storage.topLayer.2.setLayer (resultState (storage.topLayer.1.writeLink id field value))

private def befriended : InMemoryStorage :=
  linking (linking {} rootID "viewer" (.string "User:1")) "User:1" "friend" (.string "User:2")

private def befriendedUsers : InMemoryStorage :=
  linking befriended rootID "users" (.array [.string "User:2"])

private theorem Subscribed.linking (history : Subscribed active cache) (id field : String)
    (value : GraphQLValue) :
    Subscribed active { cache with storage := linking cache.storage id field value } :=
  (history.step (.storage cache (.topLayer cache.storage))).step
    (.storage _ (.layer (InMemoryStorage.topLayer_mem cache.storage)
      (.writeLink _ id field value)))

private theorem befriended_subscribed :
    Subscribed [(friendsSubscriber, [])]
      (({ storage := befriended } : CacheInternal).subscribe friendsSubscriber []) :=
  (((Subscribed.start {}).linking _ _ _).linking _ _ _).subscribe friendsSubscriber []

private theorem befriendedUsers_subscribed :
    Subscribed [(friendsSubscriber, [])]
      (({ storage := befriendedUsers } : CacheInternal).subscribe friendsSubscriber []) :=
  ((((Subscribed.start {}).linking _ _ _).linking _ _ _).linking _ _ _).subscribe
    friendsSubscriber []

theorem released_remove (subscriptions : InMemorySubscriptions) (spec : SubscriptionSpec)
    (visited : List FieldVisit) (id key : String) (onMessage : Nat) :
    subscriptions.released (visited.map fun visit => { visit, targets := [spec] }) id key
        onMessage =
      if onMessage = spec.onMessage then
        visited.countP fun visit => subscriptions.SharesTable id visit.record ∧ key = visit.key
      else 0 := by
  induction visited with
  | nil => split <;> rfl
  | cons visit rest ih =>
      rw [List.map_cons, InMemorySubscriptions.released, List.map_cons, List.sum_cons,
        ← InMemorySubscriptions.released, ih, InMemorySubscriptions.releasedAt, List.countP_cons]
      simp only [List.map_cons, List.map_nil, List.count_singleton, beq_iff_eq, decide_eq_true_eq]
      by_cases own : onMessage = spec.onMessage
      · simp only [own, if_true, Nat.add_comm]
      · simp [own, Ne.symm own]

/-- Unsubscribing takes one reference of the subscriber for each visit of its selection, and none
of anybody else. Who has none left is not listed any more. -/
theorem Subscribed.unsubscribe_releases (history : Subscribed active cache)
    (spec : SubscriptionSpec) (vars : GraphQLObject) (id key : String) (onMessage : Nat) :
    (cache.unsubscribe spec vars).subscriptions.references id key onMessage =
        cache.subscriptions.references id key onMessage -
          (if onMessage = spec.onMessage then
            (visits vars spec.selection spec.root false cache.storage).1.countP fun visit =>
              cache.subscriptions.SharesTable id visit.record ∧ key = visit.key
          else 0) ∧
      ((cache.unsubscribe spec vars).subscriptions.Registered id key onMessage ↔
        0 < (cache.unsubscribe spec vars).subscriptions.references id key onMessage) := by
  have after := history.unsubscribe spec vars
  refine ⟨?_, after.tallied.registered_iff⟩
  rw [← released_remove, ← Nat.zero_add (InMemorySubscriptions.released _ _ _ _ _)]
  exact ((InMemorySubscriptions.Reduced.start history.tallied).foldl_release _).references id key
    onMessage

theorem unsubscribe_releases_friends :
    ¬ ((({ storage := befriended } : CacheInternal).subscribe friendsSubscriber []).unsubscribe
      friendsSubscriber []).subscriptions.Registered "User:2" "id" 0 := by
  obtain ⟨released, registered⟩ :=
    befriended_subscribed.unsubscribe_releases friendsSubscriber [] "User:2" "id" 0
  rw [registered, released]
  decide +kernel

end CacheInternal

end Houdini.Runtime.Cache
