import Houdini.Runtime.Client.OptimisticKeysResponse
import Houdini.Runtime.Client.OptimisticKeysStart

/-! What becomes of the keys of a mutation when its response comes back and when it ends. -/

set_option autoImplicit false

namespace Houdini.Runtime.Client.OptimisticKeys

open GraphQLValue

variable {environment : KeyEnvironment} {plugin next : OptimisticKeys}

private theorem fireCallback_fired {request : Nat} (waits : request < plugin.blocked.length)
    (key : String) (value : GraphQLValue) :
    (plugin.fireCallback request key value).fired =
        plugin.fired ++ [{ request := request, key := key, value := value }] ∧
      (plugin.fireCallback request key value).blocked.length = plugin.blocked.length := by
  unfold fireCallback
  rw [List.getElem?_eq_getElem waits]
  simp only
  split
  · exact ⟨rfl, List.length_set⟩
  · exact ⟨rfl, List.length_set⟩

theorem fireCallbacks_fired {waiting : List Nat}
    (waits : ∀ request ∈ waiting, request < plugin.blocked.length) (key : String)
    (value : GraphQLValue) :
    (plugin.fireCallbacks key value waiting).fired =
        plugin.fired ++ waiting.map (fun request => { request := request, key := key, value := value }) ∧
      (plugin.fireCallbacks key value waiting).blocked.length = plugin.blocked.length := by
  induction waiting generalizing plugin with
  | nil => exact ⟨(List.append_nil _).symm, rfl⟩
  | cons request rest ih =>
      obtain ⟨fired, blocked⟩ := plugin.fireCallback_fired (waits request List.mem_cons_self) key value
      obtain ⟨fired', blocked'⟩ := @ih (plugin.fireCallback request key value) (by
        intro other member
        rw [blocked]
        exact waits other (List.mem_cons_of_mem _ member))
      refine ⟨?_, blocked'.trans blocked⟩
      change ((plugin.fireCallback request key value).fireCallbacks key value rest).fired = _
      rw [fired', fired, List.map_cons, List.append_assoc]
      rfl

/-- What a new key does that has these callbacks. -/
structure Fires (plugin : OptimisticKeys) (key : String) (value : GraphQLValue)
    (waiting : List Nat) (next : OptimisticKeys) : Prop where
  fired : next.fired =
    plugin.fired ++ waiting.map fun request => { request := request, key := key, value := value }
  callbacks : next.callbacks = plugin.callbacks.erase key
  blocked : next.blocked.length = plugin.blocked.length
  keys : next.keys = plugin.keys
  objectIDs : next.objectIDs = plugin.objectIDs
  generated : next.generated = plugin.generated
  mutations : next.mutations = plugin.mutations

theorem onNewKey_fires {key : String} {waiting : List Nat}
    (pending : plugin.callbacks.get? key = some waiting)
    (waits : ∀ request ∈ waiting, request < plugin.blocked.length) (value : GraphQLValue) :
    ∃ next, plugin.onNewKey key value = .ok next ∧ plugin.Fires key value waiting next := by
  have success : ∃ next, plugin.onNewKey key value = .ok next := by
    unfold onNewKey
    rw [pending]
    exact ⟨_, rfl⟩
  obtain ⟨next, success⟩ := success
  obtain ⟨keys, objectIDs, generated, mutations⟩ := onNewKey_frame success
  obtain ⟨waiting', found, rfl⟩ := onNewKey_eq_ok success
  cases pending.symm.trans found
  let known := { plugin with returned := plugin.returned.set key value }
  obtain ⟨fired, blocked⟩ := @fireCallbacks_fired known waiting waits key value
  obtain ⟨stores, -, -⟩ := @fireCallbacks_frame known key value waiting
  refine ⟨_, success, ?_⟩
  exact
    { fired
      callbacks := by
        change (known.fireCallbacks key value waiting).callbacks.erase key = _
        rw [stores]
      blocked, keys, objectIDs, generated, mutations }

section Drain

variable {mutationID : Nat} {path : ResponsePath} {key : GraphQLValue}

private theorem drain_of_none (unknown : plugin.keys.get? mutationID = none) :
    ∀ visits, (plugin.drain mutationID visits).1 = plugin
  | [] => rfl
  | .malformed :: _ => rfl
  | .text _ _ :: _ => by
      unfold drain
      rw [unknown]

private theorem drain_skip (only : plugin.keys.get? mutationID = some (.singleton path key))
    {visits : List ResponseVisit} (wellFormed : ResponseVisit.malformed ∉ visits)
    (absent : path ∉ visitedPaths visits) (more : List ResponseVisit) :
    plugin.drain mutationID (visits ++ more) = plugin.drain mutationID more := by
  induction visits with
  | nil => rfl
  | cons visit rest ih =>
      cases visit with
      | malformed => exact absurd List.mem_cons_self wellFormed
      | text visited value =>
          have different : visited ≠ path := by
            rintro rfl
            exact absent (mem_visitedPaths.mpr ⟨value, List.mem_cons_self⟩)
          have unknown : (OrderedMap.singleton path key).get? visited = none := by
            rw [OrderedMap.singleton, OrderedMap.get?_set_of_ne _ _ different,
              OrderedMap.get?_empty]
          rw [List.cons_append, drain, only]
          simp only [unknown]
          refine ih (fun inside => wellFormed (List.mem_cons_of_mem _ inside)) fun inside => ?_
          obtain ⟨text, member⟩ := mem_visitedPaths.mp inside
          exact absent (mem_visitedPaths.mpr ⟨text, List.mem_cons_of_mem _ member⟩)

theorem drain_eq (only : plugin.keys.get? mutationID = some (.singleton path key))
    (tracked : plugin.objectIDs.get? mutationID ≠ none) {visits : List ResponseVisit}
    (wellFormed : ResponseVisit.malformed ∉ visits) (once : (visitedPaths visits).Nodup)
    {text : String} (visited : ResponseVisit.text path text ∈ visits) {waiting : List Nat}
    (success : plugin.onNewKey key.propertyKey (.string text) = .ok next)
    (fires : plugin.Fires key.propertyKey (.string text) waiting next) :
    plugin.drain mutationID visits = (next, none) := by
  obtain ⟨earlier, later, rfl⟩ := List.mem_iff_append.mp visited
  unfold visitedPaths at once
  rw [List.filterMap_append] at once
  obtain ⟨-, onceLater, apart⟩ := List.nodup_append.mp once
  have notEarlier : path ∉ visitedPaths earlier := fun inside =>
    apart path inside path List.mem_cons_self rfl
  have notLater : path ∉ visitedPaths later := (List.nodup_cons.mp onceLater).1
  have found : (OrderedMap.singleton path key).get? path = some key := OrderedMap.get?_set_self _ _ _
  rw [drain_skip only (fun inside => wellFormed (List.mem_append_left _ inside)) notEarlier, drain,
    only]
  simp only [found, success]
  rw [fires.objectIDs]
  cases known : plugin.objectIDs.get? mutationID with
  | none => exact absurd known tracked
  | some _ =>
      have same : next.keys.get? mutationID = some (.singleton path key) := by
        rw [fires.keys, only]
      have rest : next.drain mutationID (later ++ []) = next.drain mutationID [] :=
        drain_skip same (fun inside => wellFormed
          (List.mem_append_right _ (List.mem_cons_of_mem _ inside))) notLater []
      rw [List.append_nil] at rest
      simp only
      rw [rest]
      rfl

end Drain

def mutation? (plugin : OptimisticKeys) (mutationID : Nat) : Option OptimisticMutation :=
  if mutationID = 0 then none else plugin.mutations[mutationID - 1]?

/-- Nothing is left of a mutation. -/
structure Forgotten (plugin : OptimisticKeys) (mutationID : Nat) : Prop where
  callbacks : ∀ generated ∈ plugin.generated, generated.mutationID = mutationID →
    plugin.callbacks.get? generated.text = none
  keys : plugin.keys.get? mutationID = none
  objectIDs : plugin.objectIDs.get? mutationID = none

def FiresKeys (plugin next : OptimisticKeys) (mutationID : Nat) (data : GraphQLObject) : Prop :=
  ∀ generated ∈ plugin.generated, generated.mutationID = mutationID →
    ∃ value waiting, (GraphQLValue.object data).at? generated.path = some value ∧
      plugin.callbacks.get? generated.text = some waiting ∧
        ∀ request ∈ waiting, next.fired.filter (fun fired =>
            fired.request = request ∧ fired.key = generated.text) =
          [{ request := request, key := generated.text, value := value }]

def Accounts (environment : KeyEnvironment) (plugin : OptimisticKeys) : Event → Prop
  -- The optimistic response has at most one place for a key, and the key is new.
  | .start selection optimisticResponse =>
      ∀ visit rest, optimisticVisits selection.depth selection optimisticResponse [] =
          visit :: rest →
        visit.fails = true ∨
          rest = [] ∧ environment.nextKey plugin.toKeyStores ∉ plugin.generatedTexts
  | .beforeNetwork _ => True
  -- The response has a string at the place of the key.
  | .afterNetwork mutationID data =>
      ∀ generated ∈ plugin.generated, generated.mutationID = mutationID →
        ∀ mutation, plugin.running? mutationID = some mutation →
          let visits := responseVisits mutation.selection.depth mutation.selection data []
          ResponseVisit.malformed ∉ visits ∧
            ∃ text, ResponseVisit.text generated.path text ∈ visits
  -- A mutation with a key ends after its response, and not with an exception.
  | .end mutationID =>
      ∀ generated ∈ plugin.generated, generated.mutationID = mutationID →
        ∀ mutation, plugin.running? mutationID = some mutation → mutation.responded = true
  | .fail mutationID =>
      ∀ generated ∈ plugin.generated, generated.mutationID ≠ mutationID

/-- A key of a mutation that runs is registered, and pending until the response. Later there is
nothing left of it. -/
structure Status (plugin : OptimisticKeys) (generated : GeneratedKey)
    (mutation : OptimisticMutation) : Prop where
  keys : plugin.keys.get? generated.mutationID =
    if mutation.ended then none else some (.singleton generated.path generated.key)
  objectIDs : plugin.objectIDs.get? generated.mutationID = none ↔ mutation.ended = true
  callbacks : plugin.callbacks.get? generated.text = none ↔
    mutation.ended = true ∨ mutation.responded = true

structure Accounted (plugin : OptimisticKeys) : Prop where
  single : (plugin.generated.map GeneratedKey.mutationID).Nodup
  distinct : plugin.generatedTexts.Nodup
  status : ∀ generated ∈ plugin.generated, ∃ mutation,
    plugin.mutation? generated.mutationID = some mutation ∧ plugin.Status generated mutation
  known : ∀ mutationID, plugin.keys.get? mutationID ≠ none ∨
    plugin.objectIDs.get? mutationID ≠ none →
      ∃ generated ∈ plugin.generated, generated.mutationID = mutationID
  fired : ∀ fired ∈ plugin.fired,
    fired.key ∈ plugin.generatedTexts ∧ plugin.callbacks.get? fired.key = none
  waiting : ∀ text waiting, plugin.callbacks.get? text = some waiting →
    waiting.Nodup ∧ ∀ request ∈ waiting, request < plugin.blocked.length

private theorem running?_eq (mutationID : Nat) :
    plugin.running? mutationID = (plugin.mutation? mutationID).filter (!·.ended) := by
  unfold running? mutation?
  split <;> rfl

namespace Accounted

theorem unknown (accounted : plugin.Accounted) {mutationID : Nat}
    (none : ∀ generated ∈ plugin.generated, generated.mutationID ≠ mutationID) :
    plugin.keys.get? mutationID = Option.none ∧ plugin.objectIDs.get? mutationID = Option.none := by
  constructor
  · by_contra entry
    obtain ⟨generated, member, same⟩ := accounted.known mutationID (.inl entry)
    exact none generated member same
  · by_contra entry
    obtain ⟨generated, member, same⟩ := accounted.known mutationID (.inr entry)
    exact none generated member same

theorem forgotten (accounted : plugin.Accounted) {mutationID : Nat}
    {mutation : OptimisticMutation} (found : plugin.mutation? mutationID = some mutation)
    (ended : mutation.ended = true) : plugin.Forgotten mutationID := by
  have status : ∀ generated ∈ plugin.generated, generated.mutationID = mutationID →
      plugin.Status generated mutation := by
    intro generated member same
    obtain ⟨own, foundOwn, status⟩ := accounted.status generated member
    rw [same, found] at foundOwn
    cases foundOwn
    exact status
  have callbacks : ∀ generated ∈ plugin.generated, generated.mutationID = mutationID →
      plugin.callbacks.get? generated.text = none := fun generated member same =>
    (status generated member same).callbacks.mpr (.inl ended)
  by_cases some : ∃ generated ∈ plugin.generated, generated.mutationID = mutationID
  · obtain ⟨generated, member, rfl⟩ := some
    have own := status generated member rfl
    have keys := own.keys
    rw [if_pos ended] at keys
    exact ⟨callbacks, keys, own.objectIDs.mpr ended⟩
  · obtain ⟨keys, objectIDs⟩ := accounted.unknown fun generated member same =>
      some ⟨generated, member, same⟩
    exact ⟨callbacks, keys, objectIDs⟩

theorem eq_of_text (accounted : plugin.Accounted) {left right : GeneratedKey}
    (leftMember : left ∈ plugin.generated) (rightMember : right ∈ plugin.generated)
    (same : left.text = right.text) : left = right :=
  List.inj_on_of_nodup_map accounted.distinct leftMember rightMember same

theorem eq_of_mutation (accounted : plugin.Accounted) {left right : GeneratedKey}
    (leftMember : left ∈ plugin.generated) (rightMember : right ∈ plugin.generated)
    (same : left.mutationID = right.mutationID) : left = right :=
  List.inj_on_of_nodup_map accounted.single leftMember rightMember same

end Accounted

private theorem mutation?_lt {mutationID : Nat} {mutation : OptimisticMutation}
    (found : plugin.mutation? mutationID = some mutation) :
    0 < mutationID ∧ mutationID - 1 < plugin.mutations.length := by
  unfold mutation? at found
  split at found
  · cases found
  · rename_i positive
    exact ⟨Nat.pos_of_ne_zero positive, (List.getElem?_eq_some_iff.mp found).1⟩

private theorem mutation?_append {mutationID : Nat} {mutation : OptimisticMutation}
    (found : plugin.mutation? mutationID = some mutation) (stores : KeyStores)
    (new : OptimisticMutation) :
    mutation? { plugin with
        toKeyStores := stores
        mutations := plugin.mutations ++ [new] } mutationID = some mutation := by
  obtain ⟨positive, bound⟩ := mutation?_lt found
  unfold mutation? at found ⊢
  rw [if_neg (Nat.ne_of_gt positive)] at found ⊢
  change (plugin.mutations ++ [new])[mutationID - 1]? = _
  rw [List.getElem?_append_left bound, found]

private theorem mutation?_setMutation {mutationID : Nat} {mutation : OptimisticMutation}
    (found : plugin.mutation? mutationID = some mutation) (new : OptimisticMutation)
    (other : Nat) :
    (plugin.setMutation mutationID new).mutation? other =
      if other = mutationID then some new else plugin.mutation? other := by
  obtain ⟨positive, bound⟩ := mutation?_lt found
  unfold mutation?
  by_cases zero : other = 0
  · rw [if_pos zero, if_pos zero, if_neg (by omega)]
  · rw [if_neg zero, if_neg zero]
    change (plugin.mutations.set (mutationID - 1) new)[other - 1]? = _
    rw [List.getElem?_set]
    by_cases same : other = mutationID
    · rw [same, if_pos rfl, if_pos bound, if_pos rfl]
    · rw [if_neg (by omega), if_neg same]

private theorem running?_some {mutationID : Nat} {mutation : OptimisticMutation}
    (running : plugin.running? mutationID = some mutation) :
    plugin.mutation? mutationID = some mutation ∧ mutation.ended = false := by
  rw [running?_eq, Option.filter_eq_some_iff] at running
  exact ⟨running.1, by simpa using running.2⟩

namespace Accounted

private theorem start_nothing (accounted : plugin.Accounted) (new : OptimisticMutation) :
    Accounted { plugin with mutations := plugin.mutations ++ [new] } :=
  { accounted with
    status := by
      intro generated member
      obtain ⟨mutation, found, status⟩ := accounted.status generated member
      exact ⟨mutation, mutation?_append found plugin.toKeyStores new, { status with }⟩
    fired := accounted.fired }

private theorem start_single (accounted : plugin.Accounted) {path : ResponsePath}
    {stores : KeyStores} (selection : SubscriptionSelection)
    (fresh : environment.nextKey plugin.toKeyStores ∉ plugin.generatedTexts)
    (adds : AddsKey environment plugin.invocationCounter path plugin.toKeyStores stores) :
    Accounted { plugin with
      toKeyStores := stores
      mutations := plugin.mutations ++ [{ selection }] } := by
  obtain ⟨key, _, objectID, ⟨text, rfl⟩, rfl⟩ := adds
  rw [← text] at fresh
  have earlier : ∀ generated ∈ plugin.generated,
      generated.mutationID ≠ plugin.invocationCounter := by
    intro generated member same
    obtain ⟨_, found, _⟩ := accounted.status generated member
    have bound := mutation?_lt found
    rw [same, invocationCounter] at bound
    omega
  have otherText : ∀ text ∈ plugin.generatedTexts, text ≠ key.propertyKey := by
    rintro _ member rfl
    exact fresh member
  constructor
  · change ((plugin.generated ++ [_]).map GeneratedKey.mutationID).Nodup
    rw [List.map_append, List.nodup_append]
    refine ⟨accounted.single, List.nodup_singleton _, ?_⟩
    intro older member newer inside same
    obtain ⟨generated, owned, rfl⟩ := List.mem_map.mp member
    cases List.mem_singleton.mp inside
    exact earlier generated owned same
  · change ((plugin.generated ++ [_]).map GeneratedKey.text).Nodup
    rw [List.map_append, List.nodup_append]
    refine ⟨accounted.distinct, List.nodup_singleton _, ?_⟩
    intro older member newer inside same
    cases List.mem_singleton.mp inside
    exact otherText older member same
  · intro generated member
    rcases List.mem_append.mp member with older | new
    · obtain ⟨mutation, found, status⟩ := accounted.status generated older
      refine ⟨mutation, mutation?_append found _ _, ?_⟩
      have differentText := otherText generated.text (List.mem_map_of_mem older)
      have different := earlier generated older
      constructor
      · change (plugin.keys.set plugin.invocationCounter _).get? _ = _
        rw [OrderedMap.get?_set_of_ne _ _ different, status.keys]
      · change (plugin.objectIDs.set plugin.invocationCounter _).get? _ = _ ↔ _
        rw [OrderedMap.get?_set_of_ne _ _ different, status.objectIDs]
      · change (plugin.callbacks.set key.propertyKey []).get? _ = _ ↔ _
        rw [OrderedMap.get?_set_of_ne _ _ differentText, status.callbacks]
    · cases List.mem_singleton.mp new
      refine ⟨{ selection }, ?_, ?_⟩
      · change mutation? _ (plugin.mutations.length + 1) = _
        simp [mutation?]
      · constructor
        · exact OrderedMap.get?_set_self _ _ _
        · change (plugin.objectIDs.set plugin.invocationCounter _).get? plugin.invocationCounter =
            none ↔ _
          rw [OrderedMap.get?_set_self]
          exact iff_of_false nofun nofun
        · change (plugin.callbacks.set key.propertyKey []).get? key.propertyKey = none ↔ _
          rw [OrderedMap.get?_set_self]
          exact iff_of_false nofun (fun either => either.elim nofun nofun)
  · intro mutationID entry
    by_cases same : mutationID = plugin.invocationCounter
    · exact ⟨_, List.mem_append_right _ (List.mem_singleton.mpr rfl), same.symm⟩
    · change (plugin.keys.set plugin.invocationCounter _).get? _ ≠ none ∨
        (plugin.objectIDs.set plugin.invocationCounter _).get? _ ≠ none at entry
      rw [OrderedMap.get?_set_of_ne _ _ same, OrderedMap.get?_set_of_ne _ _ same] at entry
      obtain ⟨generated, member, owned⟩ := accounted.known mutationID entry
      exact ⟨generated, List.mem_append_left _ member, owned⟩
  · intro fired member
    obtain ⟨inside, done⟩ := accounted.fired fired member
    constructor
    · change fired.key ∈ (plugin.generated ++ [_]).map GeneratedKey.text
      rw [List.map_append]
      exact List.mem_append_left _ inside
    · change (plugin.callbacks.set key.propertyKey []).get? fired.key = none
      rw [OrderedMap.get?_set_of_ne _ _ (otherText _ inside), done]
  · intro text waiting found
    change (plugin.callbacks.set key.propertyKey []).get? text = some waiting at found
    rw [OrderedMap.get?_set] at found
    split at found
    · cases found
      exact ⟨List.nodup_nil, nofun⟩
    · exact accounted.waiting text waiting found

private theorem start (accounted : plugin.Accounted) {selection : SubscriptionSelection}
    {optimisticResponse : GraphQLObject}
    (accounts : plugin.Accounts environment (.start selection optimisticResponse))
    (applied : plugin.apply environment (.start selection optimisticResponse) = some next) :
    next.Accounted := by
  have follows := follows_addKeysToResponse environment plugin.invocationCounter selection.depth
    none selection optimisticResponse [] plugin.toKeyStores
  simp only [OptimisticKeys.apply] at applied
  cases visits : optimisticVisits selection.depth selection optimisticResponse [] with
  | nil =>
      obtain ⟨_, same, _⟩ := follows.nothing visits
      rw [same] at applied
      cases applied
      exact accounted.start_nothing { selection }
  | cons visit rest =>
      cases fails : visit.fails with
      | true =>
          obtain ⟨error, same⟩ := follows.failure visit rest visits fails
          rw [same] at applied
          cases applied
          exact accounted.start_nothing { selection, ended := true }
      | false =>
          have either := accounts visit rest visits
          rw [fails] at either
          obtain ⟨rfl, fresh⟩ := either.resolve_left nofun
          obtain ⟨_, stores, same, adds⟩ := follows.single visit visits fails
          rw [same] at applied
          cases applied
          exact accounted.start_single selection fresh adds

private theorem addCallbacks_waiting (request : Nat) {keys : List String} (distinct : keys.Nodup)
    {text : String} {waiting : List Nat}
    (found : (plugin.addCallbacks request keys).callbacks.get? text = some waiting) :
    ∃ earlier, plugin.callbacks.get? text = some earlier ∧
      (waiting = earlier ∨ text ∈ keys ∧ waiting = earlier ++ [request]) := by
  induction keys generalizing plugin with
  | nil => exact ⟨waiting, found, .inl rfl⟩
  | cons key rest ih =>
      obtain ⟨absent, distinct⟩ := List.nodup_cons.mp distinct
      unfold addCallbacks at found
      cases known : plugin.callbacks.get? key with
      | none =>
          rw [known] at found
          exact ⟨waiting, found, .inl rfl⟩
      | some earlier =>
          rw [known] at found
          obtain ⟨middle, before, either⟩ := ih distinct found
          change (plugin.callbacks.set key (earlier ++ [request])).get? text = some middle at before
          rw [OrderedMap.get?_set] at before
          by_cases same : text = key
          · rw [if_pos same] at before
            cases before
            subst same
            refine ⟨earlier, known, .inr ⟨List.mem_cons_self, ?_⟩⟩
            exact either.resolve_right fun both => absent both.1
          · rw [if_neg same] at before
            refine ⟨middle, before, either.imp_right fun both => ?_⟩
            exact ⟨List.mem_cons_of_mem _ both.1, both.2⟩

private theorem send (accounted : plugin.Accounted) (original vars : GraphQLObject) :
    (plugin.send original vars).Accounted :=
  { accounted with
    status := by
      intro generated member
      obtain ⟨mutation, found, status⟩ := accounted.status generated member
      exact ⟨mutation, found, { status with }⟩ }

private theorem block (accounted : plugin.Accounted) (request : BlockedRequest) :
    Accounted (OptimisticKeys.addCallbacks
      { plugin with blocked := plugin.blocked ++ [request] } plugin.blocked.length
      request.pending.keys) := by
  have waiting := @addCallbacks_waiting { plugin with blocked := plugin.blocked ++ [request] }
    plugin.blocked.length request.pending.keys request.pending.nodupKeys
  obtain ⟨callbacks, added, same⟩ := @addCallbacks_frame
    { plugin with blocked := plugin.blocked ++ [request] } plugin.blocked.length
    request.pending.keys
  rw [added] at waiting ⊢
  exact
    { accounted with
      status := by
        intro generated member
        obtain ⟨mutation, found, status⟩ := accounted.status generated member
        exact ⟨mutation, found, { status with callbacks := (same _).trans status.callbacks }⟩
      fired := by
        intro fired member
        obtain ⟨inside, done⟩ := accounted.fired fired member
        exact ⟨inside, (same _).mpr done⟩
      waiting := by
        intro text requests found
        have grown : (plugin.blocked ++ [request]).length = plugin.blocked.length + 1 := by simp
        obtain ⟨earlier, before, either⟩ := waiting found
        obtain ⟨distinct, bound⟩ := accounted.waiting text earlier before
        change requests.Nodup ∧ ∀ other ∈ requests, other < (plugin.blocked ++ [request]).length
        rw [grown]
        rcases either with rfl | ⟨_, rfl⟩
        · exact ⟨distinct, fun other member => Nat.lt_succ_of_lt (bound other member)⟩
        · constructor
          · rw [List.nodup_append]
            refine ⟨distinct, List.nodup_singleton _, ?_⟩
            intro other member new inside equal
            have := bound other member
            rw [equal, List.mem_singleton.mp inside] at this
            exact Nat.lt_irrefl _ this
          · intro other member
            rcases List.mem_append.mp member with older | new
            · exact Nat.lt_succ_of_lt (bound other older)
            · rw [List.mem_singleton.mp new]
              exact Nat.lt_succ_self _ }

private theorem beforeNetwork (accounted : plugin.Accounted) (vars : GraphQLObject) :
    (plugin.beforeNetwork vars).Accounted := by
  unfold OptimisticKeys.beforeNetwork
  split
  · exact accounted.send vars vars
  · simp only
    split
    · exact accounted.send vars vars
    · exact accounted.block _

private theorem setMutation (accounted : plugin.Accounted) {mutationID : Nat}
    {mutation : OptimisticMutation} (found : plugin.mutation? mutationID = some mutation)
    (none : ∀ generated ∈ plugin.generated, generated.mutationID ≠ mutationID)
    (new : OptimisticMutation) : (plugin.setMutation mutationID new).Accounted :=
  { accounted with
    status := by
      intro generated member
      obtain ⟨own, foundOwn, status⟩ := accounted.status generated member
      refine ⟨own, ?_, { status with }⟩
      rw [mutation?_setMutation found, if_neg (none generated member), foundOwn] }

private theorem fires (accounted : plugin.Accounted) {generated : GeneratedKey}
    (member : generated ∈ plugin.generated) {mutation : OptimisticMutation}
    (found : plugin.mutation? generated.mutationID = some mutation) {waiting : List Nat}
    {value : GraphQLValue}
    (fires : plugin.Fires generated.text value waiting next) :
    (next.setMutation generated.mutationID { mutation with responded := true }).Accounted := by
  have foundNext : next.mutation? generated.mutationID = some mutation := by
    unfold mutation? at found ⊢
    rw [fires.mutations]
    exact found
  have erased : ∀ text, next.callbacks.get? text =
      if text = generated.text then none else plugin.callbacks.get? text := fun text => by
    rw [fires.callbacks, OrderedMap.get?_erase]
  constructor
  · change (next.generated.map GeneratedKey.mutationID).Nodup
    rw [fires.generated]
    exact accounted.single
  · change (next.generated.map GeneratedKey.text).Nodup
    rw [fires.generated]
    exact accounted.distinct
  · intro other inside
    change other ∈ next.generated at inside
    rw [fires.generated] at inside
    obtain ⟨own, foundOwn, status⟩ := accounted.status other inside
    by_cases same : other = generated
    · subst same
      rw [found] at foundOwn
      cases foundOwn
      refine ⟨{ mutation with responded := true }, ?_, ?_⟩
      · rw [mutation?_setMutation foundNext, if_pos rfl]
      · constructor
        · change next.keys.get? _ = _
          rw [fires.keys, status.keys]
        · change next.objectIDs.get? _ = none ↔ _
          rw [fires.objectIDs, status.objectIDs]
        · change next.callbacks.get? _ = none ↔ _
          rw [erased, if_pos rfl]
          exact iff_of_true rfl (.inr rfl)
    · have different : other.mutationID ≠ generated.mutationID := fun equal =>
        same (accounted.eq_of_mutation inside member equal)
      have differentText : other.text ≠ generated.text := fun equal =>
        same (accounted.eq_of_text inside member equal)
      refine ⟨own, ?_, ?_⟩
      · rw [mutation?_setMutation foundNext, if_neg different]
        unfold mutation? at foundOwn ⊢
        rw [fires.mutations]
        exact foundOwn
      · constructor
        · change next.keys.get? _ = _
          rw [fires.keys, status.keys]
        · change next.objectIDs.get? _ = none ↔ _
          rw [fires.objectIDs, status.objectIDs]
        · change next.callbacks.get? _ = none ↔ _
          rw [erased, if_neg differentText, status.callbacks]
  · intro mutationID entry
    change next.keys.get? _ ≠ none ∨ next.objectIDs.get? _ ≠ none at entry
    rw [fires.keys, fires.objectIDs] at entry
    obtain ⟨own, inside, owned⟩ := accounted.known mutationID entry
    refine ⟨own, ?_, owned⟩
    change own ∈ next.generated
    rw [fires.generated]
    exact inside
  · intro fired inside
    change fired.key ∈ next.generated.map GeneratedKey.text ∧ next.callbacks.get? fired.key = none
    change fired ∈ next.fired at inside
    rw [fires.generated, erased]
    rw [fires.fired] at inside
    rcases List.mem_append.mp inside with older | new
    · obtain ⟨key, done⟩ := accounted.fired fired older
      refine ⟨key, ?_⟩
      split
      · rfl
      · exact done
    · obtain ⟨_, _, rfl⟩ := List.mem_map.mp new
      exact ⟨List.mem_map_of_mem member, if_pos rfl⟩
  · intro text requests pending
    change next.callbacks.get? text = some requests at pending
    rw [erased] at pending
    change requests.Nodup ∧ ∀ request ∈ requests, request < next.blocked.length
    rw [fires.blocked]
    split at pending
    · cases pending
    · exact accounted.waiting text requests pending

private theorem drains (accounted : plugin.Accounted) {generated : GeneratedKey}
    (member : generated ∈ plugin.generated) {mutation : OptimisticMutation}
    (running : plugin.running? generated.mutationID = some mutation)
    (waits : mutation.responded = false) {visits : List ResponseVisit}
    (wellFormed : ResponseVisit.malformed ∉ visits) (once : (visitedPaths visits).Nodup)
    {text : String} (visited : ResponseVisit.text generated.path text ∈ visits) :
    ∃ waiting notified, plugin.callbacks.get? generated.text = some waiting ∧
      plugin.Fires generated.text (.string text) waiting notified ∧
      plugin.drain generated.mutationID visits = (notified, none) := by
  obtain ⟨found, alive⟩ := running?_some running
  obtain ⟨own, foundOwn, status⟩ := accounted.status generated member
  rw [found] at foundOwn
  cases foundOwn
  have only := status.keys
  rw [alive] at only
  have tracked : plugin.objectIDs.get? generated.mutationID ≠ none := by
    rw [Ne, status.objectIDs, alive]
    exact nofun
  cases pending : plugin.callbacks.get? generated.text with
  | none =>
      have either := status.callbacks.mp pending
      rw [alive, waits] at either
      exact either.elim nofun nofun
  | some waiting =>
      obtain ⟨_, bound⟩ := accounted.waiting _ _ pending
      obtain ⟨notified, success, fires⟩ := onNewKey_fires pending bound (.string text)
      exact ⟨waiting, notified, rfl, fires,
        drain_eq only tracked wellFormed once visited success fires⟩

private theorem afterNetwork (accounted : plugin.Accounted) {mutationID : Nat}
    {data : GraphQLObject}
    (accounts : plugin.Accounts environment (.afterNetwork mutationID data))
    (applied : plugin.apply environment (.afterNetwork mutationID data) = some next) :
    next.Accounted := by
  simp only [OptimisticKeys.apply] at applied
  cases running : plugin.running? mutationID with
  | none =>
      rw [running] at applied
      cases applied
  | some mutation =>
      have found := (running?_some running).1
      rw [running] at applied
      simp only at applied
      split at applied
      · cases applied
      · rename_i proper
        rw [Bool.or_eq_true, not_or, Bool.not_eq_true, Bool.not_eq_true', Bool.not_eq_false]
          at proper
        by_cases some : ∃ generated ∈ plugin.generated, generated.mutationID = mutationID
        · obtain ⟨generated, member, rfl⟩ := some
          obtain ⟨wellFormed, text, visited⟩ := accounts generated member rfl mutation running
          obtain ⟨_, notified, _, fires, drained⟩ := accounted.drains member running proper.1
            wellFormed (nodup_responseVisits _ _ proper.2) visited
          rw [drained] at applied
          cases applied
          exact accounted.fires member found fires
        · have none : ∀ generated ∈ plugin.generated, generated.mutationID ≠ mutationID :=
            fun generated member same => some ⟨generated, member, same⟩
          have untouched := drain_of_none (accounted.unknown none).1
            (responseVisits mutation.selection.depth mutation.selection data [])
          split at applied <;> rename_i outcome <;> rw [outcome] at untouched <;>
            cases untouched <;> cases applied
          · exact accounted.setMutation found none _
          · exact accounted.setMutation found none _

private theorem «end» (accounted : plugin.Accounted) {mutationID : Nat}
    (accounts : plugin.Accounts environment (.end mutationID))
    (applied : plugin.apply environment (.end mutationID) = some next) : next.Accounted := by
  simp only [OptimisticKeys.apply] at applied
  cases running : plugin.running? mutationID with
  | none =>
      rw [running] at applied
      cases applied
  | some mutation =>
      have found := (running?_some running).1
      rw [running] at applied
      cases applied
      let cleaned : OptimisticKeys :=
        { plugin with
          keys := plugin.keys.erase mutationID
          objectIDs := plugin.objectIDs.erase mutationID }
      have foundCleaned : cleaned.mutation? mutationID = some mutation := found
      exact
        { accounted with
          status := by
            intro generated member
            obtain ⟨own, foundOwn, status⟩ := accounted.status generated member
            by_cases same : generated.mutationID = mutationID
            · have responded := accounts generated member same mutation running
              rw [same, found] at foundOwn
              cases foundOwn
              refine ⟨{ mutation with ended := true }, ?_, ?_, ?_, ?_⟩
              · exact (mutation?_setMutation foundCleaned _ _).trans (if_pos same)
              · change (plugin.keys.erase mutationID).get? generated.mutationID = none
                rw [same, OrderedMap.get?_erase_self]
              · change (plugin.objectIDs.erase mutationID).get? generated.mutationID = none ↔ _
                rw [same, OrderedMap.get?_erase_self]
                exact iff_of_true rfl rfl
              · exact iff_of_true (status.callbacks.mpr (.inr responded)) (.inl rfl)
            · refine ⟨own, ?_, ?_, ?_, status.callbacks⟩
              · rw [← foundOwn]
                exact (mutation?_setMutation foundCleaned _ _).trans (if_neg same)
              · exact (OrderedMap.get?_erase_of_ne _ same).trans status.keys
              · change (plugin.objectIDs.erase mutationID).get? generated.mutationID = none ↔ _
                rw [OrderedMap.get?_erase_of_ne _ same, status.objectIDs]
          known := by
            intro other entry
            change (plugin.keys.erase mutationID).get? other ≠ none ∨
              (plugin.objectIDs.erase mutationID).get? other ≠ none at entry
            rw [OrderedMap.get?_erase, OrderedMap.get?_erase] at entry
            split at entry
            · exact entry.elim (absurd rfl) (absurd rfl)
            · exact accounted.known other entry }

private theorem apply (accounted : plugin.Accounted) {event : Event}
    (accounts : plugin.Accounts environment event)
    (applied : plugin.apply environment event = some next) : next.Accounted := by
  cases event with
  | start selection optimisticResponse => exact accounted.start accounts applied
  | beforeNetwork vars =>
      cases applied
      exact accounted.beforeNetwork vars
  | afterNetwork mutationID data => exact accounted.afterNetwork accounts applied
  | «end» mutationID => exact accounted.end accounts applied
  | fail mutationID =>
      simp only [OptimisticKeys.apply] at applied
      cases running : plugin.running? mutationID with
      | none =>
          rw [running] at applied
          cases applied
      | some mutation =>
          rw [running] at applied
          cases applied
          exact accounted.setMutation (running?_some running).1 accounts _

private theorem empty : Accounted {} where
  single := List.nodup_nil
  distinct := List.nodup_nil
  status := nofun
  known := fun _ entry => entry.elim (absurd rfl) (absurd rfl)
  fired := nofun
  waiting := nofun

private theorem filter_fired {waiting : List Nat} (distinct : waiting.Nodup) {request : Nat}
    (waits : request ∈ waiting) (key : String) (value : GraphQLValue) :
    (waiting.map fun request =>
        ({ request := request, key := key, value := value } : FiredCallback)).filter
      (fun fired => fired.request = request ∧ fired.key = key) =
        [{ request := request, key := key, value := value }] := by
  induction waiting with
  | nil => cases waits
  | cons first rest ih =>
      obtain ⟨absent, distinct⟩ := List.nodup_cons.mp distinct
      rw [List.map_cons, List.filter_cons]
      by_cases same : first = request
      · subst same
        have none : (rest.map fun request =>
            ({ request := request, key := key, value := value } : FiredCallback)).filter
            (fun fired => fired.request = first ∧ fired.key = key) = [] := by
          rw [List.filter_eq_nil_iff]
          rintro _ member both
          obtain ⟨other, inside, rfl⟩ := List.mem_map.mp member
          have equal := (of_decide_eq_true both).1
          exact absent (equal ▸ inside)
        rw [if_pos (by simp), none]
      · have later := List.mem_of_ne_of_mem (Ne.symm same) waits
        rw [if_neg (by simp [same]), ih distinct later]

theorem firesKeys (accounted : plugin.Accounted) {mutationID : Nat} {data : GraphQLObject}
    (accounts : plugin.Accounts environment (.afterNetwork mutationID data))
    (applied : plugin.apply environment (.afterNetwork mutationID data) = some next) :
    plugin.FiresKeys next mutationID data := by
  rintro generated member rfl
  simp only [OptimisticKeys.apply] at applied
  cases running : plugin.running? generated.mutationID with
  | none =>
      rw [running] at applied
      cases applied
  | some mutation =>
      rw [running] at applied
      simp only at applied
      split at applied
      · cases applied
      · rename_i proper
        rw [Bool.or_eq_true, not_or, Bool.not_eq_true, Bool.not_eq_true', Bool.not_eq_false]
          at proper
        obtain ⟨wellFormed, text, visited⟩ := accounts generated member rfl mutation running
        obtain ⟨waiting, notified, pending, fires, drained⟩ := accounted.drains member running
          proper.1 wellFormed (nodup_responseVisits _ _ proper.2) visited
        rw [drained] at applied
        cases applied
        refine ⟨.string text, waiting, at?_of_mem_responseVisits proper.2 visited, pending, ?_⟩
        intro request waits
        change notified.fired.filter _ = _
        have older : plugin.fired.filter (fun fired =>
            fired.request = request ∧ fired.key = generated.text) = [] := by
          rw [List.filter_eq_nil_iff]
          intro fired inside both
          have done := (accounted.fired fired inside).2
          rw [(of_decide_eq_true both).2, pending] at done
          cases done
        rw [fires.fired, List.filter_append, older, List.nil_append,
          filter_fired (accounted.waiting _ _ pending).1 waits]

end Accounted

/-- In every run that meets the conditions, nothing is left of a mutation that ended, and a
response fires the callbacks of its keys. -/
theorem accounts_for_keys (run : Run environment (Accounts environment) plugin) :
    (∀ mutationID mutation, plugin.mutation? mutationID = some mutation →
      mutation.ended = true → plugin.Forgotten mutationID) ∧
    ∀ mutationID data next, plugin.Accounts environment (.afterNetwork mutationID data) →
      plugin.apply environment (.afterNetwork mutationID data) = some next →
        plugin.FiresKeys next mutationID data := by
  have accounted : plugin.Accounted := by
    induction run with
    | start => exact Accounted.empty
    | step _ accounts applied accounted => exact accounted.apply accounts applied
  constructor
  · intro mutationID mutation found ended
    exact accounted.forgotten found ended
  · intro mutationID data next accounts applied
    exact accounted.firesKeys accounts applied

private def createdObject (name : String) : String × SelectionField :=
  (name,
    { type := "Todo"
      keyRaw := name
      selection := some
        { fields := [("id", { type := "ID", keyRaw := "id", optimisticKey := true })] } })

private def ticking : KeyEnvironment := { dateNow := fun readings => 1700000000000 + readings }

private def renameTodo : GraphQLObject := [("todo", .object [("id", .string "1700000000000")])]

private def createdTodo : GraphQLObject := [("createTodo", .object [("id", .string "5")])]

private def created : OptimisticKeys :=
  (apply ticking {} (.start { fields := [createdObject "createTodo"] }
    [("createTodo", .object [])])).getD {}

private def renamed : OptimisticKeys := created.beforeNetwork renameTodo

private def answered : OptimisticKeys :=
  (apply ticking renamed (.afterNetwork 1 createdTodo)).getD {}

private theorem renamed_run : Run ticking (Accounts ticking) renamed := by
  have started := @Run.step ticking (Accounts ticking) {} created
    (.start { fields := [createdObject "createTodo"] } [("createTodo", .object [])]) .start
    (by
      intro visit rest visits
      cases visits
      exact .inr ⟨rfl, nofun⟩) rfl
  exact @Run.step ticking (Accounts ticking) created renamed (.beforeNetwork renameTodo) started
    trivial rfl

private theorem renamed_accounts : renamed.Accounts ticking (.afterNetwork 1 createdTodo) := by
  intro generated member _ mutation running
  cases List.mem_singleton.mp member
  cases running
  refine ⟨fun malformed => ?_, "5", List.mem_singleton.mpr rfl⟩
  cases List.mem_singleton.mp malformed

/-- The renaming goes on when the real id comes back. -/
theorem accounts_for_keys_rename :
    renamed.callbacks.get? "1700000000000" = some [0] ∧
      renamed.apply ticking (.afterNetwork 1 createdTodo) = some answered ∧
      renamed.FiresKeys answered 1 createdTodo ∧
      ∃ ended, answered.apply ticking (.end 1) = some ended ∧ ended.Forgotten 1 := by
  have run := @Run.step ticking (Accounts ticking) renamed answered (.afterNetwork 1 createdTodo)
    renamed_run renamed_accounts rfl
  have ended := @Run.step ticking (Accounts ticking) answered _ (.end 1) run
    (by
      intro generated _ _ mutation running
      cases running
      rfl) rfl
  exact ⟨rfl, rfl, (accounts_for_keys renamed_run).2 1 createdTodo answered renamed_accounts rfl,
    _, rfl, (accounts_for_keys ended).1 1 _ rfl rfl⟩

/-- Of two keys of a mutation only the last one is found in the response: the other one is
pending forever. -/
theorem not_accounts_for_two_keys :
    ∃ plugin, Run ticking (fun _ _ => True) plugin ∧
      (∃ mutation, plugin.mutation? 1 = some mutation ∧ mutation.ended = true) ∧
      ¬ plugin.Forgotten 1 := by
  have started := @Run.step ticking (fun _ _ => True) {} _
    (.start { fields := [createdObject "first", createdObject "second"] }
      [("first", .object []), ("second", .object [])]) .start trivial rfl
  have answered := @Run.step ticking (fun _ _ => True) _ _
    (.afterNetwork 1
      [("first", .object [("id", .string "5")]), ("second", .object [("id", .string "6")])])
    started trivial rfl
  have ended := @Run.step ticking (fun _ _ => True) _ _ (.end 1) answered trivial rfl
  refine ⟨_, ended, ⟨_, rfl, rfl⟩, fun forgotten => ?_⟩
  have gone := forgotten.callbacks _ List.mem_cons_self rfl
  cases gone

end Houdini.Runtime.Client.OptimisticKeys
