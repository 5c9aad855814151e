import Houdini.Runtime.Client.OptimisticKeysProperties

/-! Mutations whose optimistic response has at most one place for a key, or that fail before
they generate one. -/

set_option autoImplicit false

namespace Houdini.Runtime.Client

open EStateM GraphQLValue

/-- What `addKeysToResponse` comes across: a field that is marked as an optimistic key with
its type and the value it has so far, or a type without a selection. -/
inductive OptimisticVisit where
  | key (path : ResponsePath) (type : String) (value : GraphQLValue)
  | malformed

namespace OptimisticVisit

/-- No key is generated: there is a value already, or the type has no keys. -/
def fails : OptimisticVisit → Bool
  | .key _ type value => value.truthy || !(["Int", "String", "ID"].contains type)
  | .malformed => true

def path : OptimisticVisit → ResponsePath
  | .key path _ _ => path
  | .malformed => []

end OptimisticVisit

def ownVisits (path : ResponsePath) (response : GraphQLObject) (entry : String × SelectionField) :
    List OptimisticVisit :=
  if entry.2.optimisticKey then [.key path entry.2.type (response.property entry.1)] else []

def fieldVisits
    (walk : SubscriptionSelection → GraphQLObject → ResponsePath → List OptimisticVisit)
    (path : ResponsePath) (response : GraphQLObject) (entry : String × SelectionField) :
    List OptimisticVisit :=
  let pathSoFar := path ++ [.field entry.1]
  ownVisits pathSoFar response entry ++
    nestedVisits walk pathSoFar entry.2.selection (response.property entry.1)

def optimisticVisits : (fuel : Nat) → SubscriptionSelection → GraphQLObject → ResponsePath →
    List OptimisticVisit
  | 0, _, _, _ => []
  | fuel + 1, selection, response, path =>
      match getFieldsForType selection (response.property "__typename").text? with
      | none => [.malformed]
      | some targetSelection =>
          targetSelection.flatMap (fieldVisits (optimisticVisits fuel) path response)

section Start

variable (environment : KeyEnvironment) (mutationID : Nat)

def RegistersKey (path : ResponsePath) (key : GraphQLValue) (before after : KeyStores) : Prop :=
  key.propertyKey = environment.nextKey before ∧
    after = { before with readings := before.readings + 1 }.register { mutationID, path, key }

def AddsKey (path : ResponsePath) (before after : KeyStores) : Prop :=
  ∃ key registered objectID, RegistersKey environment mutationID path key before registered ∧
    after = registered.trackObject mutationID key.propertyKey objectID

/-- How a walk ends that comes across at most one key, or fails at once. -/
structure Follows {Value : Type} (visits : List OptimisticVisit) (stores : KeyStores)
    (result : Result JSError KeyStores Value) (nothing : Value → Prop)
    (single : OptimisticVisit → Value → KeyStores → Prop) : Prop where
  nothing : visits = [] → ∃ value, result = .ok value stores ∧ nothing value
  failure : ∀ visit rest, visits = visit :: rest → visit.fails = true →
    ∃ error, result = .error error stores
  single : ∀ visit, visits = [visit] → visit.fails = false →
    ∃ value after, result = .ok value after ∧ single visit value after

namespace Follows

variable {Value Output : Type} {visits more : List OptimisticVisit} {stores : KeyStores}
variable {nothing : Value → Prop} {single : OptimisticVisit → Value → KeyStores → Prop}
variable {nothing' : Output → Prop} {single' : OptimisticVisit → Output → KeyStores → Prop}

theorem done {value : Value} (holds : nothing value) :
    Follows [] stores (.ok value stores) nothing single where
  nothing := fun _ => ⟨value, rfl, holds⟩
  failure := nofun
  single := nofun

theorem bind {program : Generating Value} {next : Value → Generating Output}
    (first : Follows visits stores (program stores) nothing single)
    (second : ∀ value, nothing value → Follows more stores (next value stores) nothing' single')
    (rest : ∀ visit value after, single visit value after → more = [] →
      ∃ output final, next value after = .ok output final ∧ single' visit output final) :
    Follows (visits ++ more) stores ((program >>= next) stores) nothing' single' := by
  rw [bind_apply]
  cases visits with
  | nil =>
      obtain ⟨value, same, holds⟩ := first.nothing rfl
      rw [same]
      exact second value holds
  | cons visit later =>
      constructor
      · nofun
      · intro visit' rest' same fails
        cases same
        obtain ⟨error, same⟩ := first.failure visit later rfl fails
        exact ⟨error, by rw [same]⟩
      · intro visit' same succeeds
        cases later with
        | cons _ _ => cases same
        | nil =>
            obtain ⟨rfl, none⟩ := List.cons.inj same
            obtain ⟨value, after, found, holds⟩ := first.single visit rfl succeeds
            obtain ⟨output, final, finished, holds⟩ := rest visit value after holds none
            exact ⟨output, final, by rw [found]; exact finished, holds⟩

end Follows

def FollowsObject (visits : List OptimisticVisit) (stores : KeyStores)
    (result : Result JSError KeyStores Unit) : Prop :=
  Follows visits stores result (fun _ => True)
    fun visit _ after => AddsKey environment mutationID visit.path stores after

section Walks

variable {environment mutationID}

private theorem follows_forM {Item : Type} {step : Item → Generating Unit}
    {visits : Item → List OptimisticVisit}
    (follows : ∀ item stores, FollowsObject environment mutationID (visits item) stores
      (step item stores))
    (items : List Item) (stores : KeyStores) :
    FollowsObject environment mutationID (items.flatMap visits) stores
      (items.forM step stores) := by
  induction items generalizing stores with
  | nil => exact Follows.done trivial
  | cons item rest ih =>
      rw [List.flatMap_cons]
      change FollowsObject environment mutationID _ stores
        ((step item >>= fun _ => rest.forM step) stores)
      refine (follows item stores).bind (fun _ _ => ih stores) ?_
      intro visit _ after added none
      obtain ⟨_, same, _⟩ := (ih after).nothing none
      exact ⟨_, after, same, added⟩

private theorem follows_addKey (path : ResponsePath) (type : String) (value : GraphQLValue)
    (stores : KeyStores) :
    Follows [.key path type value] stores
      (addKey environment mutationID path type value stores) (fun _ => False)
      (fun visit key after => (∃ text, key = .string text ∨ key = .number text) ∧
        RegistersKey environment mutationID visit.path key stores after) where
  nothing := nofun
  failure := by
    intro visit rest same fails
    cases same
    simp only [OptimisticVisit.fails, Bool.or_eq_true, Bool.not_eq_true', List.contains_eq_mem,
      decide_eq_false_iff_not, List.mem_cons, List.not_mem_nil, or_false, not_or] at fails
    unfold addKey
    by_cases present : value.truthy = true
    · rw [if_pos present]
      exact ⟨_, rfl⟩
    · obtain ⟨notInt, notString, notID⟩ := fails.resolve_left present
      have generated := generateKey_eq environment type stores
      rw [if_neg notInt, if_neg (by tauto)] at generated
      rw [if_neg present]
      refine ⟨.error ("unsupported type for optimistic key: " ++ type ++
        ". Please provide a value in your mutation arguments."), ?_⟩
      change (generateKey environment type >>= _) stores = _
      rw [bind_apply, generated]
  single := by
    intro visit same succeeds
    cases same
    simp only [OptimisticVisit.fails, Bool.or_eq_false_iff, Bool.not_eq_false', List.contains_eq_mem,
      decide_eq_true_eq, List.mem_cons, List.not_mem_nil, or_false] at succeeds
    obtain ⟨falsy, keyed⟩ := succeeds
    have generated := generateKey_eq environment type stores
    unfold addKey
    rw [if_neg (by rw [falsy]; decide)]
    by_cases int : type = "Int"
    · rw [if_pos int] at generated
      refine ⟨_, _, ?_, ⟨_, .inr rfl⟩, rfl, rfl⟩
      change (generateKey environment type >>= _) stores = _
      rw [bind_apply, generated]
      rfl
    · rw [if_neg int, if_pos (keyed.resolve_left int)] at generated
      refine ⟨_, _, ?_, ⟨_, .inl rfl⟩, rfl, rfl⟩
      change (generateKey environment type >>= _) stores = _
      rw [bind_apply, generated]
      rfl

private theorem follows_addNestedKeys
    {walk : SubscriptionSelection → GraphQLObject → ResponsePath → Generating Unit}
    {visits : SubscriptionSelection → GraphQLObject → ResponsePath → List OptimisticVisit}
    (follows : ∀ selection response path stores, FollowsObject environment mutationID
      (visits selection response path) stores (walk selection response path stores))
    (path : ResponsePath) (selection : Option SubscriptionSelection) (value : GraphQLValue)
    (stores : KeyStores) :
    FollowsObject environment mutationID (nestedVisits visits path selection value) stores
      (addNestedKeys walk path selection value stores) := by
  cases selection with
  | none => exact Follows.done trivial
  | some selection =>
      cases value with
      | array items =>
          refine follows_forM ?_ _ stores
          intro (item, index) stores
          cases item with
          | object fields => exact follows selection fields _ stores
          | _ => exact Follows.done trivial
      | object fields => exact follows selection fields path stores
      | _ => exact Follows.done trivial

private def Agrees (response found : GraphQLObject) : Prop :=
  ∀ name, found.property name = response.property name ∨
    ∃ text, found.property name = .string text ∨ found.property name = .number text

/-- What the walk over some fields of an object did with a key: it is in the object itself,
whose id is not known yet, or in another one below. -/
private def SingleInFields (environment : KeyEnvironment) (mutationID : Nat) (stores : KeyStores)
    (response : GraphQLObject) (visit : OptimisticVisit)
    (found : GraphQLObject × List GraphQLValue) (after : KeyStores) : Prop :=
  Agrees response found.1 ∧
    ((∃ key, found.2 = [key] ∧
        RegistersKey environment mutationID visit.path key stores after) ∨
      found.2 = [] ∧ AddsKey environment mutationID visit.path stores after)

section Fields

variable {walk : Option String → SubscriptionSelection → GraphQLObject → ResponsePath →
  Generating Unit}
variable {visits : SubscriptionSelection → GraphQLObject → ResponsePath → List OptimisticVisit}
variable (follows : ∀ type selection response path stores, FollowsObject environment mutationID
  (visits selection response path) stores (walk type selection response path stores))
variable (path : ResponsePath) (response : GraphQLObject)

include follows

private theorem addFieldKeys_nothing {entry : String × SelectionField}
    (none : fieldVisits visits path response entry = [])
    {found : GraphQLObject × List GraphQLValue} (agrees : Agrees response found.1)
    (stores : KeyStores) :
    addFieldKeys environment mutationID walk path found entry stores = .ok found stores := by
  obtain ⟨own, nested⟩ := List.append_eq_nil_iff.mp none
  have unmarked : entry.2.optimisticKey = false := by
    unfold ownVisits at own
    split at own
    · cases own
    · rename_i unmarked
      exact eq_false_of_ne_true unmarked
  have ownStep : addOwnKey environment mutationID (path ++ [.field entry.1]) found entry.1
      entry.2 stores = .ok found stores := by
    unfold addOwnKey
    rw [unmarked]
    rfl
  have nestedStep : addNestedKeys (walk (some entry.2.type)) (path ++ [.field entry.1])
      entry.2.selection (found.1.property entry.1) stores = .ok ⟨⟩ stores := by
    rcases agrees entry.1 with same | ⟨text, string | number⟩
    · rw [same]
      obtain ⟨_, same, _⟩ := (follows_addNestedKeys (follows (some entry.2.type))
        (path ++ [.field entry.1]) entry.2.selection (response.property entry.1) stores).nothing
          nested
      exact same
    · rw [string]
      cases entry.2.selection <;> rfl
    · rw [number]
      cases entry.2.selection <;> rfl
  unfold addFieldKeys
  rw [bind_of_ok ownStep, bind_of_ok nestedStep]
  rfl

private theorem foldlM_nothing (entries : List (String × SelectionField))
    (none : entries.flatMap (fieldVisits visits path response) = [])
    {found : GraphQLObject × List GraphQLValue} (agrees : Agrees response found.1)
    (stores : KeyStores) :
    entries.foldlM (addFieldKeys environment mutationID walk path) found stores =
      .ok found stores := by
  induction entries with
  | nil => rfl
  | cons entry rest ih =>
      rw [List.flatMap_cons] at none
      obtain ⟨first, later⟩ := List.append_eq_nil_iff.mp none
      rw [List.foldlM_cons,
        bind_of_ok (addFieldKeys_nothing follows path response first agrees stores)]
      exact ih later

omit follows in
private theorem agrees_setProperty (name : String) {key : GraphQLValue}
    (leaf : ∃ text, key = .string text ∨ key = .number text) :
    Agrees response (response.setProperty name key) := by
  intro other
  rw [GraphQLObject.property_setProperty]
  by_cases same : other = name
  · rw [if_pos same]
    exact .inr leaf
  · rw [if_neg same]
    exact .inl rfl

omit follows in
private theorem follows_addOwnKey (entry : String × SelectionField) (stores : KeyStores) :
    Follows (ownVisits path response entry) stores
      (addOwnKey environment mutationID path (response, []) entry.1 entry.2 stores)
      (fun found => found = (response, []))
      (SingleInFields environment mutationID stores response) := by
  unfold ownVisits addOwnKey
  by_cases marked : entry.2.optimisticKey = true
  · rw [if_pos marked, if_pos marked]
    have added := @follows_addKey environment mutationID path entry.2.type
      (response.property entry.1) stores
    refine added.bind (fun _ impossible => impossible.elim) ?_
    intro visit key after ⟨leaf, registers⟩ _
    exact ⟨_, after, rfl, agrees_setProperty response entry.1 leaf, .inl ⟨key, rfl, registers⟩⟩
  · rw [if_neg marked, if_neg marked]
    exact Follows.done rfl

private theorem follows_addFieldKeys (entry : String × SelectionField) (stores : KeyStores) :
    Follows (fieldVisits visits path response entry) stores
      (addFieldKeys environment mutationID walk path (response, []) entry stores)
      (fun found => found = (response, []))
      (SingleInFields environment mutationID stores response) := by
  have own := @follows_addOwnKey environment mutationID (path ++ [.field entry.1]) response
    entry stores
  have nested := follows_addNestedKeys (follows (some entry.2.type)) (path ++ [.field entry.1])
    entry.2.selection (response.property entry.1)
  unfold addFieldKeys
  refine own.bind ?_ ?_
  · rintro _ rfl
    rw [← List.append_nil (nestedVisits _ _ _ _)]
    refine (nested stores).bind (fun _ _ => Follows.done rfl) ?_
    intro visit _ after added _
    exact ⟨_, after, rfl, fun _ => .inl rfl, .inr ⟨rfl, added⟩⟩
  · intro visit found after single none
    obtain ⟨_, same, _⟩ := (nested after).nothing none
    exact ⟨found, after, by rw [bind_of_ok same]; rfl, single⟩

private theorem follows_foldlM (entries : List (String × SelectionField)) (stores : KeyStores) :
    Follows (entries.flatMap (fieldVisits visits path response)) stores
      (entries.foldlM (addFieldKeys environment mutationID walk path) (response, []) stores)
      (fun found => found = (response, []))
      (SingleInFields environment mutationID stores response) := by
  induction entries with
  | nil => exact Follows.done rfl
  | cons entry rest ih =>
      rw [List.flatMap_cons, List.foldlM_cons]
      refine (follows_addFieldKeys follows path response entry stores).bind ?_ ?_
      · rintro _ rfl
        exact ih
      · intro visit found after single none
        exact ⟨found, after, foldlM_nothing follows path response rest none single.1 after, single⟩

end Fields

end Walks

theorem follows_addKeysToResponse (fuel : Nat) (type : Option String)
    (selection : SubscriptionSelection) (response : GraphQLObject) (path : ResponsePath)
    (stores : KeyStores) :
    FollowsObject environment mutationID (optimisticVisits fuel selection response path) stores
      (addKeysToResponse environment mutationID fuel type selection response path stores) := by
  induction fuel generalizing type selection response path stores with
  | zero => exact Follows.done trivial
  | succ fuel ih =>
      unfold optimisticVisits addKeysToResponse
      cases getFieldsForType selection (response.property "__typename").text? with
      | none =>
          constructor
          · intro same
            cases same
          · intro visit rest _ _
            exact ⟨.typeError, rfl⟩
          · intro visit same succeeds
            cases same
            cases succeeds
      | some targetSelection =>
          simp only
          rw [← List.append_nil (targetSelection.flatMap _)]
          refine (follows_foldlM ih path response targetSelection stores).bind ?_ ?_
          · rintro _ rfl
            exact Follows.done trivial
          · rintro visit ⟨found, newKeys⟩ after ⟨_, ⟨key, rfl, registers⟩ | ⟨rfl, added⟩⟩ _
            · exact ⟨_, _, rfl, key, after, _, registers, rfl⟩
            · exact ⟨_, after, rfl, added⟩

end Start

end Houdini.Runtime.Client
