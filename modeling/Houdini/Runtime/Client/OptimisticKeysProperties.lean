import Houdini.Data.Outcome
import Houdini.Runtime.Client.OptimisticKeys

/-! What starting a mutation with optimistic keys registers, also when it fails. -/

set_option autoImplicit false

namespace Houdini.Runtime.Client

open EStateM

def GeneratedKey.text (generated : GeneratedKey) : String := generated.key.propertyKey

/-- Some keys of a mutation were registered, and nothing else. Of its paths only the one
of the last key is left. -/
structure Registers (mutationID : Nat) (before after : KeyStores) (added : List GeneratedKey) :
    Prop where
  generated : after.generated = before.generated ++ added
  own : ∀ generated ∈ added, generated.mutationID = mutationID
  callbacks : ∀ text, after.callbacks.get? text =
    if text ∈ added.map GeneratedKey.text then some [] else before.callbacks.get? text
  keys : ∀ other, after.keys.get? other =
    if other = mutationID then
      match added.getLast? with
      | none => before.keys.get? other
      | some last => some (.singleton last.path last.key)
    else before.keys.get? other
  objectIDs : ∀ other ≠ mutationID, after.objectIDs.get? other = before.objectIDs.get? other
  tracked : before.objectIDs.get? mutationID ≠ none → after.objectIDs.get? mutationID ≠ none

namespace Registers

variable {mutationID : Nat} {before middle after : KeyStores} {added more : List GeneratedKey}

theorem refl (mutationID : Nat) (stores : KeyStores) : Registers mutationID stores stores [] where
  generated := (List.append_nil _).symm
  own := nofun
  callbacks := fun _ => rfl
  keys := fun other => by split <;> rfl
  objectIDs := fun _ _ => rfl
  tracked := id

theorem trans (first : Registers mutationID before middle added)
    (second : Registers mutationID middle after more) :
    Registers mutationID before after (added ++ more) where
  generated := by rw [second.generated, first.generated, List.append_assoc]
  own := by
    intro generated member
    rcases List.mem_append.mp member with earlier | later
    · exact first.own generated earlier
    · exact second.own generated later
  callbacks := by
    intro text
    rw [second.callbacks, first.callbacks, List.map_append]
    by_cases later : text ∈ more.map GeneratedKey.text
    · rw [if_pos later, if_pos (List.mem_append_right _ later)]
    · rw [if_neg later]
      by_cases earlier : text ∈ added.map GeneratedKey.text
      · rw [if_pos earlier, if_pos (List.mem_append_left _ earlier)]
      · rw [if_neg earlier, if_neg (by rw [List.mem_append]; tauto)]
  keys := by
    intro other
    rw [second.keys, first.keys]
    by_cases same : other = mutationID
    · rw [if_pos same, if_pos same, if_pos same, List.getLast?_append]
      cases more.getLast? <;> rfl
    · rw [if_neg same, if_neg same, if_neg same]
  objectIDs := by
    intro other different
    rw [second.objectIDs other different, first.objectIDs other different]
  tracked := second.tracked ∘ first.tracked

theorem read (stores : KeyStores) (readings : Nat) :
    Registers mutationID stores { stores with readings } [] :=
  { refl mutationID stores with }

theorem register (generated : GeneratedKey) (stores : KeyStores) :
    Registers generated.mutationID stores (stores.register generated) [generated] where
  generated := rfl
  own := by
    intro other member
    rw [List.mem_singleton.mp member]
  callbacks := by
    intro text
    change (stores.callbacks.set generated.text []).get? text = _
    simp only [OrderedMap.get?_set, List.map_cons, List.map_nil, List.mem_singleton]
  keys := by
    intro other
    change (stores.keys.set generated.mutationID _).get? other = _
    rw [OrderedMap.get?_set]
    rfl
  objectIDs := fun _ _ => rfl
  tracked := id

theorem trackObject (stores : KeyStores) (key objectID : String) :
    Registers mutationID stores (stores.trackObject mutationID key objectID) [] where
  generated := (List.append_nil _).symm
  own := nofun
  callbacks := fun _ => rfl
  keys := fun other => by split <;> rfl
  objectIDs := by
    intro other different
    exact OrderedMap.get?_set_of_ne _ _ different
  tracked := by
    intro _ untracked
    change (stores.objectIDs.set mutationID _).get? mutationID = none at untracked
    rw [OrderedMap.get?_set_self] at untracked
    cases untracked

end Registers

section Start

variable (environment : KeyEnvironment) (mutationID : Nat)

def Added (before after : KeyStores) : Prop :=
  ∃ added, Registers mutationID before after added

def AddedTracked (before after : KeyStores) : Prop :=
  ∃ added, Registers mutationID before after added ∧
    (added ≠ [] → after.objectIDs.get? mutationID ≠ none)

def KeyEnvironment.nextKey (stores : KeyStores) : String :=
  Nat.repr (environment.dateNow stores.readings)

theorem generateKey_eq (type : String) (stores : KeyStores) :
    generateKey environment type stores =
      if type = "Int" then
        .ok (.number (environment.nextKey stores)) { stores with readings := stores.readings + 1 }
      else if type = "String" ∨ type = "ID" then
        .ok (.string (environment.nextKey stores)) { stores with readings := stores.readings + 1 }
      else .error (.error ("unsupported type for optimistic key: " ++ type ++
        ". Please provide a value in your mutation arguments.")) stores := by
  unfold generateKey
  have reads : (get : EStateM JSError KeyStores KeyStores) stores = .ok stores stores := rfl
  rw [EStateM.bind_of_ok reads]
  split
  · rfl
  · split <;> rfl

private theorem generateKey_spec (type : String) (stores : KeyStores) :
    (generateKey environment type stores).Satisfies
      (fun _ after => Registers mutationID stores after [])
      (fun after => Registers mutationID stores after []) := by
  rw [generateKey_eq]
  split
  · exact .read stores _
  · split
    · exact .read stores _
    · exact .refl mutationID stores

private theorem addKey_spec (path : ResponsePath) (type : String) (value : GraphQLValue)
    (stores : KeyStores) :
    (addKey environment mutationID path type value stores).Satisfies
      (fun key after => Registers mutationID stores after [{ mutationID, path, key }])
      (fun after => Registers mutationID stores after []) := by
  unfold addKey
  by_cases present : value.truthy = true
  · rw [if_pos present]
    exact .refl mutationID stores
  · rw [if_neg present]
    apply satisfies_bind
    refine (generateKey_spec environment mutationID type stores).mono ?_ fun _ => id
    intro key middle read
    exact read.trans (.register { mutationID, path, key } middle)

section Walks

variable {mutationID} {before middle after : KeyStores}

private theorem Added.trans (first : Added mutationID before middle)
    (second : Added mutationID middle after) : Added mutationID before after := by
  obtain ⟨added, first⟩ := first
  obtain ⟨more, second⟩ := second
  exact ⟨_, first.trans second⟩

private theorem AddedTracked.trans (first : AddedTracked mutationID before middle)
    (second : AddedTracked mutationID middle after) : AddedTracked mutationID before after := by
  obtain ⟨added, first, tracked⟩ := first
  obtain ⟨more, second, trackedMore⟩ := second
  refine ⟨_, first.trans second, fun some => ?_⟩
  by_cases none : more = []
  · have earlier : added ≠ [] := by
      intro empty
      exact some (by rw [empty, none, List.nil_append])
    exact second.tracked (tracked earlier)
  · exact trackedMore none

private theorem AddedTracked.added (tracked : AddedTracked mutationID before after) :
    Added mutationID before after :=
  ⟨_, tracked.choose_spec.1⟩

private theorem addNestedKeys_spec
    {walk : SubscriptionSelection → GraphQLObject → ResponsePath → Generating Unit}
    (walks : ∀ selection response path stores, (walk selection response path stores).Satisfies
      (fun _ after => AddedTracked mutationID stores after) (Added mutationID stores))
    (path : ResponsePath) (selection : Option SubscriptionSelection) (value : GraphQLValue)
    (stores : KeyStores) :
    (addNestedKeys walk path selection value stores).Satisfies
      (fun _ after => AddedTracked mutationID stores after) (Added mutationID stores) := by
  have nothing : AddedTracked mutationID stores stores :=
    ⟨[], .refl mutationID stores, fun some => absurd rfl some⟩
  unfold addNestedKeys
  split
  · refine satisfies_forM ?_ _ stores nothing
    intro (item, index) middle earlier
    cases item with
    | object fields =>
        exact (walks _ fields _ middle).mono (fun _ _ => earlier.trans)
          (fun _ => earlier.added.trans)
    | _ => exact earlier
  · exact walks _ _ path stores
  · exact nothing

/-- What holds between two fields: the new keys of the object are not tracked yet. -/
private def AddedUntracked (mutationID : Nat) (before : KeyStores)
    (found : GraphQLObject × List GraphQLValue) (after : KeyStores) : Prop :=
  ∃ added, Registers mutationID before after added ∧
    (added ≠ [] → found.2 ≠ [] ∨ after.objectIDs.get? mutationID ≠ none)

private theorem AddedUntracked.trans {found : GraphQLObject × List GraphQLValue}
    (first : AddedUntracked mutationID before found middle)
    (second : AddedTracked mutationID middle after) :
    AddedUntracked mutationID before found after := by
  obtain ⟨added, first, tracked⟩ := first
  obtain ⟨more, second, trackedMore⟩ := second
  refine ⟨_, first.trans second, fun some => ?_⟩
  by_cases none : more = []
  · have earlier : added ≠ [] := by
      intro empty
      exact some (by rw [empty, none, List.nil_append])
    exact (tracked earlier).imp_right second.tracked
  · exact .inr (trackedMore none)

private theorem addOwnKey_spec (path : ResponsePath) (found : GraphQLObject × List GraphQLValue)
    (name : String) (field : SelectionField) (stores : KeyStores)
    (holds : AddedUntracked mutationID before found stores) :
    (addOwnKey environment mutationID path found name field stores).Satisfies
      (AddedUntracked mutationID before) (Added mutationID before) := by
  obtain ⟨added, registers, tracked⟩ := holds
  unfold addOwnKey
  split
  · apply satisfies_bind
    refine (addKey_spec environment mutationID path field.type _ stores).mono ?_ ?_
    · intro key after more
      refine ⟨_, registers.trans more, fun _ => .inl ?_⟩
      exact List.append_ne_nil_of_right_ne_nil _ (List.cons_ne_nil _ _)
    · intro after more
      exact ⟨_, registers.trans more⟩
  · exact ⟨added, registers, tracked⟩

private theorem addFieldKeys_spec
    {walk : Option String → SubscriptionSelection → GraphQLObject → ResponsePath → Generating Unit}
    (walks : ∀ type selection response path stores,
      (walk type selection response path stores).Satisfies
        (fun _ after => AddedTracked mutationID stores after) (Added mutationID stores))
    (path : ResponsePath) (found : GraphQLObject × List GraphQLValue)
    (entry : String × SelectionField) (stores : KeyStores)
    (holds : AddedUntracked mutationID before found stores) :
    (addFieldKeys environment mutationID walk path found entry stores).Satisfies
      (AddedUntracked mutationID before) (Added mutationID before) := by
  unfold addFieldKeys
  apply satisfies_bind
  refine (addOwnKey_spec environment _ found entry.1 entry.2 stores holds).mono ?_ fun _ => id
  intro added middle holds
  apply satisfies_bind
  refine (addNestedKeys_spec (walks _) _ entry.2.selection _ middle).mono ?_ ?_
  · intro _ after nested
    exact holds.trans nested
  · intro after nested
    exact Added.trans ⟨_, holds.choose_spec.1⟩ nested

private theorem trackObjects_spec (objectID : String) (newKeys : List GraphQLValue)
    (stores : KeyStores) :
    (trackObjects mutationID objectID newKeys stores).Satisfies
      (fun _ after => Registers mutationID stores after [] ∧
        (newKeys ≠ [] → after.objectIDs.get? mutationID ≠ none))
      (Added mutationID stores) := by
  cases newKeys with
  | nil => exact ⟨.refl mutationID stores, fun some => absurd rfl some⟩
  | cons key rest =>
      let first := stores.trackObject mutationID key.propertyKey objectID
      have tracked : first.objectIDs.get? mutationID ≠ none := by
        intro untracked
        change (stores.objectIDs.set mutationID _).get? mutationID = none at untracked
        rw [OrderedMap.get?_set_self] at untracked
        cases untracked
      have kept : ∀ (key : GraphQLValue) (state : KeyStores),
          Registers mutationID stores state [] ∧ state.objectIDs.get? mutationID ≠ none →
          ((modify (·.trackObject mutationID key.propertyKey objectID) : Generating PUnit)
            state).Satisfies
            (fun _ after => Registers mutationID stores after [] ∧
              after.objectIDs.get? mutationID ≠ none)
            (Added mutationID stores) := by
        intro key state ⟨registers, known⟩
        have more := @Registers.trackObject mutationID state key.propertyKey objectID
        exact ⟨registers.trans more, more.tracked known⟩
      have others := satisfies_forM kept rest first ⟨.trackObject stores _ _, tracked⟩
      exact others.mono (fun _ _ holds => ⟨holds.1, fun _ => holds.2⟩) fun _ => id

theorem addKeysToResponse_spec (fuel : Nat) (type : Option String)
    (selection : SubscriptionSelection) (response : GraphQLObject) (path : ResponsePath)
    (stores : KeyStores) :
    (addKeysToResponse environment mutationID fuel type selection response path stores).Satisfies
      (fun _ after => AddedTracked mutationID stores after) (Added mutationID stores) := by
  induction fuel generalizing type selection response path stores with
  | zero => exact ⟨[], .refl mutationID stores, fun some => absurd rfl some⟩
  | succ fuel ih =>
      unfold addKeysToResponse
      cases getFieldsForType selection (response.property "__typename").text? with
      | none => exact ⟨[], .refl mutationID stores⟩
      | some targetSelection =>
          apply satisfies_bind
          have start : AddedUntracked mutationID stores (response, []) stores :=
            ⟨[], .refl mutationID stores, fun some => absurd rfl some⟩
          have walked := satisfies_foldlM
            (fun found entry middle => addFieldKeys_spec environment ih path found entry middle)
            targetSelection (response, []) stores start
          refine walked.mono ?_ fun _ => id
          intro found middle ⟨added, registers, tracked⟩
          refine (trackObjects_spec _ found.2 middle).mono ?_ ?_
          · intro _ after ⟨same, trackedOwn⟩
            refine ⟨added ++ [], registers.trans same, fun some => ?_⟩
            rw [List.append_nil] at some
            cases tracked some with
            | inl own => exact trackedOwn own
            | inr nested => exact same.tracked nested
          · intro after more
            exact Added.trans ⟨added, registers⟩ more

end Walks

end Start

namespace OptimisticKeys

def generatedTexts (plugin : OptimisticKeys) : List String :=
  plugin.generated.map GeneratedKey.text

def addedBy (environment : KeyEnvironment) (plugin : OptimisticKeys)
    (selection : SubscriptionSelection) (optimisticResponse : GraphQLObject) :
    List GeneratedKey :=
  match addKeysToResponse environment plugin.invocationCounter selection.depth none selection
      optimisticResponse [] plugin.toKeyStores with
  | .ok _ stores | .error _ stores => stores.generated.drop plugin.generated.length

section Steps

variable {environment : KeyEnvironment} {plugin next : OptimisticKeys}

theorem apply_start {selection : SubscriptionSelection} {optimisticResponse : GraphQLObject}
    (applied : plugin.apply environment (.start selection optimisticResponse) = some next) :
    ∃ stores mutation, next = { plugin with
        toKeyStores := stores
        mutations := plugin.mutations ++ [mutation] } ∧
      Registers plugin.invocationCounter plugin.toKeyStores stores
        (plugin.addedBy environment selection optimisticResponse) ∧
      mutation.selection = selection ∧ mutation.responded = false ∧
      (mutation.ended = false → plugin.addedBy environment selection optimisticResponse ≠ [] →
        stores.objectIDs.get? plugin.invocationCounter ≠ none) := by
  have spec := @addKeysToResponse_spec environment plugin.invocationCounter selection.depth none
    selection optimisticResponse [] plugin.toKeyStores
  unfold apply at applied
  unfold addedBy
  cases run : addKeysToResponse environment plugin.invocationCounter selection.depth none
      selection optimisticResponse [] plugin.toKeyStores with
  | ok _ stores =>
      rw [run] at spec
      simp only [run, Option.some.injEq] at applied
      obtain ⟨added, registers, tracked⟩ := spec
      have exactly : stores.generated.drop plugin.generated.length = added := by
        rw [registers.generated, List.drop_left]
      simp only [exactly]
      exact ⟨stores, _, applied.symm, registers, rfl, rfl, fun _ => tracked⟩
  | error _ stores =>
      rw [run] at spec
      simp only [run, Option.some.injEq] at applied
      obtain ⟨added, registers⟩ := spec
      have exactly : stores.generated.drop plugin.generated.length = added := by
        rw [registers.generated, List.drop_left]
      simp only [exactly]
      exact ⟨stores, _, applied.symm, registers, rfl, rfl, nofun⟩

theorem fireCallback_frame (request : Nat) (key : String) (value : GraphQLValue) :
    (plugin.fireCallback request key value).toKeyStores = plugin.toKeyStores ∧
      (plugin.fireCallback request key value).returned = plugin.returned ∧
      (plugin.fireCallback request key value).mutations = plugin.mutations := by
  unfold fireCallback
  cases plugin.blocked[request]? with
  | none => exact ⟨rfl, rfl, rfl⟩
  | some waiting =>
      simp only
      split <;> exact ⟨rfl, rfl, rfl⟩

def fireCallbacks (plugin : OptimisticKeys) (key : String) (value : GraphQLValue)
    (waiting : List Nat) : OptimisticKeys :=
  waiting.foldl (fun plugin request => plugin.fireCallback request key value) plugin

theorem fireCallbacks_frame (key : String) (value : GraphQLValue) (waiting : List Nat) :
    (plugin.fireCallbacks key value waiting).toKeyStores = plugin.toKeyStores ∧
      (plugin.fireCallbacks key value waiting).returned = plugin.returned ∧
      (plugin.fireCallbacks key value waiting).mutations = plugin.mutations := by
  induction waiting generalizing plugin with
  | nil => exact ⟨rfl, rfl, rfl⟩
  | cons request rest ih =>
      obtain ⟨stores, returned, mutations⟩ := plugin.fireCallback_frame request key value
      obtain ⟨stores', returned', mutations'⟩ := @ih (plugin.fireCallback request key value)
      exact ⟨stores'.trans stores, returned'.trans returned, mutations'.trans mutations⟩

theorem onNewKey_eq_ok {key : String} {value : GraphQLValue}
    (success : plugin.onNewKey key value = .ok next) :
    ∃ waiting, plugin.callbacks.get? key = some waiting ∧
      let fired := { plugin with returned := plugin.returned.set key value }.fireCallbacks key value
        waiting
      next = { fired with callbacks := fired.callbacks.erase key } := by
  unfold onNewKey at success
  cases found : plugin.callbacks.get? key with
  | none =>
      rw [found] at success
      cases success
  | some waiting =>
      rw [found] at success
      cases success
      exact ⟨waiting, rfl, rfl⟩

theorem onNewKey_frame {key : String} {value : GraphQLValue}
    (success : plugin.onNewKey key value = .ok next) :
    next.keys = plugin.keys ∧ next.objectIDs = plugin.objectIDs ∧
      next.generated = plugin.generated ∧ next.mutations = plugin.mutations := by
  obtain ⟨waiting, -, rfl⟩ := onNewKey_eq_ok success
  obtain ⟨stores, -, mutations⟩ := @fireCallbacks_frame
    { plugin with returned := plugin.returned.set key value } key value waiting
  refine ⟨?_, ?_, ?_, mutations⟩
  · change (fireCallbacks _ key value waiting).keys = plugin.keys
    rw [stores]
  · change (fireCallbacks _ key value waiting).objectIDs = plugin.objectIDs
    rw [stores]
  · change (fireCallbacks _ key value waiting).generated = plugin.generated
    rw [stores]

theorem addCallbacks_frame (request : Nat) (keys : List String) :
    ∃ callbacks, plugin.addCallbacks request keys = { plugin with callbacks } ∧
      ∀ text, callbacks.get? text = none ↔ plugin.callbacks.get? text = none := by
  induction keys generalizing plugin with
  | nil => exact ⟨plugin.callbacks, rfl, fun _ => Iff.rfl⟩
  | cons key rest ih =>
      unfold addCallbacks
      cases found : plugin.callbacks.get? key with
      | none => exact ⟨plugin.callbacks, rfl, fun _ => Iff.rfl⟩
      | some waiting =>
          obtain ⟨callbacks, same, pending⟩ := @ih
            { plugin with callbacks := plugin.callbacks.set key (waiting ++ [request]) }
          refine ⟨callbacks, same, fun text => (pending text).trans ?_⟩
          rw [OrderedMap.get?_set]
          split
          · rename_i same
            rw [same, found]
            exact iff_of_false nofun nofun
          · exact Iff.rfl

end Steps

end OptimisticKeys

end Houdini.Runtime.Client
