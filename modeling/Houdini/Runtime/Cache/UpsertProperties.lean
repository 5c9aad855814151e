import Houdini.Runtime.Cache.ListOperations
import Houdini.Runtime.Cache.StoredCells

/-! When an upsert is an insert or an update, and nothing else. -/

set_option autoImplicit false

namespace Houdini.Runtime

theorem filterFields_eq_map (vars : GraphQLObject) (fields : List (String × ListFilter)) :
    filterFields vars fields = fields.map fun entry => (entry.1, filterValue vars entry.2) := by
  induction fields with
  | nil => rfl
  | cons entry rest ih => rw [filterFields, ih, List.map_cons]

theorem artifactFields_eq_map (kind : GraphQLValue → String)
    (fields : List (String × ListFilter)) :
    artifactFields kind fields = fields.map fun entry => (entry.1, entry.2.artifact kind) := by
  induction fields with
  | nil => rfl
  | cons entry rest ih => rw [artifactFields, ih, List.map_cons]

namespace Cache

def ListHandler.Filtered (list : ListHandler) (name : String) (value : GraphQLValue) : Prop :=
  (GraphQLObject.property list.filters name).deepEquals value = true

/-- A list is filtered by what a condition comes to, not by the condition as the artifact has it. -/
def ListHandler.Concrete (list : ListHandler) (kind : GraphQLValue → String)
    (conditions : OperationWhen) : Prop :=
  ∀ entry ∈ conditions.must.getD [] ++ conditions.mustNot.getD [],
    ¬ list.Filtered entry.1 (entry.2.artifact kind)

/-- What a list comes to with the conditions of an operation: without conditions that have to be
met no condition rules it out, and otherwise it does not meet them all. -/
def ListHandler.Indifferent (list : ListHandler) (vars : GraphQLObject)
    (conditions : OperationWhen) : Prop :=
  if conditions.must.getD [] = [] then
    ∀ entry ∈ conditions.mustNot.getD [], ¬ list.Filtered entry.1 (filterValue vars entry.2)
  else
    ¬ ((∀ entry ∈ conditions.must.getD [], list.Filtered entry.1 (filterValue vars entry.2)) ∧
      ∀ entry ∈ conditions.mustNot.getD [], ¬ list.Filtered entry.1 (filterValue vars entry.2))

section Conditions

variable {list : ListHandler} {conditions : OperationWhen}

theorem validateWhen_resolveWhen_iff {vars : GraphQLObject} :
    list.validateWhen (resolveWhen (some conditions) vars) = true ↔
      (∀ entry ∈ conditions.must.getD [], list.Filtered entry.1 (filterValue vars entry.2)) ∧
        ∀ entry ∈ conditions.mustNot.getD [],
          ¬ list.Filtered entry.1 (filterValue vars entry.2) := by
  have listed (fields : Option (List (String × ListFilter))) :
      (fields.map (filterFields vars)).getD [] =
        (fields.getD []).map fun entry => (entry.1, filterValue vars entry.2) := by
    cases fields with
    | none => rfl
    | some fields => exact filterFields_eq_map vars fields
  unfold ListHandler.validateWhen resolveWhen ListHandler.Filtered
  simp [listed]

theorem validateWhen_artifactWhen_iff {kind : GraphQLValue → String}
    (concrete : list.Concrete kind conditions) :
    list.validateWhen (artifactWhen kind (some conditions)) = true ↔
      conditions.must.getD [] = [] := by
  have listed (fields : Option (List (String × ListFilter))) :
      (fields.map (artifactFields kind)).getD [] =
        (fields.getD []).map fun entry => (entry.1, entry.2.artifact kind) := by
    cases fields with
    | none => rfl
    | some fields => exact artifactFields_eq_map kind fields
  unfold ListHandler.validateWhen artifactWhen
  simp only [Option.map_some, listed, Bool.and_eq_true, List.all_map, List.all_eq_true,
    Function.comp_apply, Bool.not_eq_true']
  constructor
  · rintro ⟨met, -⟩
    refine List.eq_nil_iff_forall_not_mem.mpr fun entry member => ?_
    exact concrete entry (List.mem_append_left _ member) (met entry member)
  · intro none
    refine ⟨fun entry member => ?_, fun entry member => ?_⟩
    · rw [none] at member
      exact absurd member List.not_mem_nil
    · exact Bool.eq_false_iff.mpr (concrete entry (List.mem_append_right _ member))

theorem validateWhen_alike_iff {kind : GraphQLValue → String} {vars : GraphQLObject}
    (concrete : list.Concrete kind conditions) :
    list.validateWhen (artifactWhen kind (some conditions)) =
        list.validateWhen (resolveWhen (some conditions) vars) ↔
      list.Indifferent vars conditions := by
  rw [Bool.eq_iff_iff, validateWhen_artifactWhen_iff concrete, validateWhen_resolveWhen_iff]
  unfold ListHandler.Indifferent
  split
  · next none => simp [none]
  · next some => simp [some]

end Conditions

theorem satisfying_alike_iff {lists : ListCollection} {kind : GraphQLValue → String}
    {vars : GraphQLObject} {conditions : OperationWhen}
    (concrete : ∀ list ∈ lists, list.Concrete kind conditions) :
    lists.satisfying (artifactWhen kind (some conditions)) =
        lists.satisfying (resolveWhen (some conditions) vars) ↔
      ∀ list ∈ lists, list.Indifferent vars conditions := by
  unfold ListCollection.satisfying
  constructor
  · intro same list member
    refine (validateWhen_alike_iff (concrete list member)).mp (Bool.eq_iff_iff.mpr ?_)
    have kept := congrArg (list ∈ ·) same
    simpa [List.mem_filter, member] using kept
  · intro indifferent
    exact List.filter_congr fun list member =>
      (validateWhen_alike_iff (concrete list member)).mpr (indifferent list member)

def WritesRecord (context : WriteContext) (selection : SubscriptionSelection)
    (data : GraphQLObject) (record other : String) : Prop :=
  other = record ∨ ∃ key written, Stores context selection record data other key written

def Unselected (selection : SubscriptionSelection) (data : GraphQLObject) : Prop :=
  ∀ property ∈ data, selectedField selection data property.1 = none

theorem writeFields_unselected {context : WriteContext} {layer : LayerID}
    {write : SubscriptionSelection → String → GraphQLObject → WriteM Unit} {parent : String}
    {fields : FieldSelections} {data : GraphQLObject}
    (unselected : ∀ property ∈ data, fields.lookup property.1 = none) :
    writeFields context layer write parent fields data = pure () := by
  induction data with
  | nil => rfl
  | cons property rest ih =>
      obtain ⟨name, value⟩ := property
      unfold writeFields
      rw [unselected (name, value) List.mem_cons_self]
      exact ih fun other member => unselected other (List.mem_cons_of_mem _ member)

theorem writeSelection_unselected {context : WriteContext} {layer : LayerID}
    {selection : SubscriptionSelection} {parent : String} {data : GraphQLObject}
    (unselected : Unselected selection data) (storage : InMemoryStorage) :
    resultState (writeSelection context layer selection parent data storage) = storage := by
  rw [writeSelection_eq]
  split
  · rfl
  · cases typed : getFieldsForType selection (data.property "__typename").text? with
    | none =>
        dsimp only
        split
        · rfl
        · rfl
    | some fields =>
        dsimp only
        rw [writeFields_unselected]
        · rfl
        · intro property member
          have none := unselected property member
          unfold selectedField at none
          rw [typed] at none
          exact none

theorem value_write_unselected {context : WriteContext} {selection : SubscriptionSelection}
    {parent : String} {data : GraphQLObject} {layer : Option LayerID}
    (unselected : Unselected selection data) (storage : InMemoryStorage) (id key : String) :
    (resultState (write context selection data parent layer storage)).value id key =
      storage.value id key := by
  have target : (resultState (writeLayer layer storage)).value id key = storage.value id key := by
    unfold writeLayer
    split
    · exact storage.value_topLayer id key
    · split
      · rfl
      · rfl
  unfold write
  rw [EStateM.bind_apply]
  cases result : writeLayer layer storage with
  | error error middle =>
      rw [result] at target
      exact target
  | ok target' middle =>
      rw [result] at target
      dsimp only
      rw [writeSelection_unselected unselected]
      exact target

namespace OperationCall

variable (call : OperationCall) (kind : GraphQLValue → String) (storage : InMemoryStorage)

structure Targets (list : ListHandler) (data : GraphQLObject) (dataID : String) : Prop where
  targeted : ∃ lists, call.lists = .ok (some lists) ∧ list ∈ lists.satisfying call.insertWhen
  element : data ∈ call.elements
  identified : list.elementID call.config data = some dataID

/-- An upsert is about the lists of an insert. It inserts an element that is not in the list, and
otherwise changes the record of the element and those that are nested in its data. -/
structure InsertsOrUpdates : Prop where
  sameLists : ∀ lists, call.lists = .ok (some lists) →
    lists.satisfying (call.upsertWhen kind) = lists.satisfying call.insertWhen
  absent : ∀ list data dataID, call.Targets list data dataID →
    list.contains storage dataID = .ok false →
    call.upsertInList list data storage = call.addToList list data storage
  present : ∀ list data dataID, call.Targets list data dataID →
    list.contains storage dataID = .ok true →
    ∀ record key, (resultState (call.upsertInList list data storage)).value record key ≠
        storage.value record key →
      WritesRecord { config := call.config, vars := call.vars } call.selection data dataID record

/-- The conditions do not tell the lists apart, and no element is in a list yet that something
would be written for. -/
structure Copes : Prop where
  concrete : ∀ lists conditions, call.lists = .ok (some lists) →
    call.operation.when = some conditions → ∀ list ∈ lists, list.Concrete kind conditions
  indifferent : ∀ lists conditions, call.lists = .ok (some lists) →
    call.operation.when = some conditions → ∀ list ∈ lists, list.Indifferent call.vars conditions
  unlisted : ∀ list data dataID, call.Targets list data dataID →
    list.contains storage dataID = .ok true → Unselected call.selection data

variable {call kind storage}

theorem upsertInList_eq_addToList {list : ListHandler} {data : GraphQLObject}
    (missing : ∀ dataID, list.elementID call.config data = some dataID →
      list.contains storage dataID = .ok false) :
    call.upsertInList list data storage = call.addToList list data storage := by
  unfold upsertInList ListHandler.upsertInList
  cases identified : list.elementID call.config data with
  | none =>
      unfold addToList ListHandler.addToList
      rw [identified]
      rfl
  | some dataID =>
      simp only [missing dataID identified]
      rfl

/-- An upsert that copes inserts or updates. -/
theorem insertsOrUpdates_of_copes (copes : call.Copes kind storage) :
    call.InsertsOrUpdates kind storage where
  sameLists := by
    intro lists found
    unfold upsertWhen insertWhen
    cases conditional : call.operation.when with
    | none => rfl
    | some conditions =>
        have concrete := copes.concrete lists conditions found conditional
        exact (satisfying_alike_iff concrete).mpr
          (copes.indifferent lists conditions found conditional)
  absent := by
    intro list data dataID targets missing
    refine upsertInList_eq_addToList fun other identified => ?_
    obtain rfl := Option.some.inj (targets.identified.symm.trans identified)
    exact missing
  present := by
    intro list data dataID targets listed record key changed
    refine absurd ?_ changed
    unfold upsertInList ListHandler.upsertInList
    simp only [targets.identified, listed]
    exact value_write_unselected (copes.unlisted list data dataID targets listed) storage record key

def NewAlong (call : OperationCall) :
    List (GraphQLObject × ListHandler) → InMemoryStorage → Prop
  | [], _ => True
  | (data, list) :: rest, storage =>
      (∀ dataID, list.elementID call.config data = some dataID →
        list.contains storage dataID = .ok false) ∧
      ∀ middle, call.addToList list data storage = .ok () middle → call.NewAlong rest middle

end OperationCall

theorem Stores.record_eq {context : WriteContext} {selection : SubscriptionSelection}
    {parent id key : String} {data : GraphQLObject} {written : CellWrite}
    (leaves : ∀ name field, selectedField selection data name = some field →
      field.selection = none)
    (stored : Stores context selection parent data id key written) : id = parent := by
  cases stored with
  | property typed _ selected value =>
      have leaf := leaves _ _ (Option.bind_eq_some_iff.mpr ⟨_, typed, selected⟩)
      cases value with
      | scalar => rfl
      | updated => rfl
      | null branch | object branch | withinObject branch | list branch | withinList branch
      | lost branch =>
          exact absurd (branch.symm.trans leaf) (Option.some_ne_none _)

def upsertedSelection : SubscriptionSelection where
  fields := [("id", { keyRaw := "id", type := "ID" }),
    ("firstName", { keyRaw := "firstName", type := "String" })]

def userData (id firstName : String) : GraphQLObject :=
  [("id", .string id), ("firstName", .string firstName)]

def storedUsers : InMemoryStorage :=
  resultState (write {}
    { fields := [("users", {
        keyRaw := "users", type := "User", selection := some upsertedSelection })] }
    [("users", .array [.object (userData "1" "Alice")])] rootID none {})

def teamUsers : ListHandler where
  name := "All_Users"
  connection := false
  recordID := rootID
  recordType := none
  key := "users"
  listType := "User"
  selection := upsertedSelection
  filters := [("team", .string "red")]

def upsertUser (id firstName : String) : OperationCall where
  manager := ListManager.add {} teamUsers
  operation := {
    action := .upsert
    list := some "All_Users"
    «when» := some { mustNot := some [("team", .variable "other")] } }
  selection := upsertedSelection
  value := .object (userData id firstName)
  vars := [("other", .string "blue")]
  layer := 1

/-- A second user is inserted. -/
theorem insertsOrUpdates_of_copes_secondUser :
    (upsertUser "2" "Bob").InsertsOrUpdates (fun _ => "String") storedUsers := by
  have teams {conditions : OperationWhen}
      (given : (upsertUser "2" "Bob").operation.when = some conditions) :
      conditions = { mustNot := some [("team", .variable "other")] } :=
    (Option.some.inj given).symm
  have only {lists : ListCollection}
      (found : (upsertUser "2" "Bob").lists = .ok (some lists)) : lists = [teamUsers] :=
    (Option.some.inj (Except.ok.inj found)).symm
  refine OperationCall.insertsOrUpdates_of_copes ⟨?_, ?_, ?_⟩
  · intro lists conditions found given list member
    obtain rfl := teams given
    obtain rfl := List.mem_singleton.mp (only found ▸ member)
    intro entry member
    obtain rfl := List.mem_singleton.mp member
    unfold ListHandler.Filtered
    decide
  · intro lists conditions found given list member
    obtain rfl := teams given
    obtain rfl := List.mem_singleton.mp (only found ▸ member)
    intro entry member
    obtain rfl := List.mem_singleton.mp member
    unfold ListHandler.Filtered
    decide
  · intro list data dataID targets listed
    obtain ⟨lists, found, member⟩ := targets.targeted
    obtain rfl := List.mem_singleton.mp (only found ▸ (List.mem_filter.mp member).1)
    obtain rfl := List.mem_singleton.mp targets.element
    obtain rfl := Option.some.inj targets.identified
    exact absurd listed (by decide)

/-- The new name of the first user ends up in the root record. -/
theorem not_insertsOrUpdates_firstUser :
    ¬ ∀ (call : OperationCall) (kind : GraphQLValue → String) (storage : InMemoryStorage),
      call.InsertsOrUpdates kind storage := by
  intro claim
  have upserts := claim (upsertUser "1" "Alicia") (fun _ => "String") storedUsers
  have targets : (upsertUser "1" "Alicia").Targets teamUsers (userData "1" "Alicia") "User:1" := {
    targeted := ⟨[teamUsers], rfl, List.mem_filter.mpr ⟨List.mem_cons_self, by decide⟩⟩
    element := List.mem_cons_self
    identified := rfl }
  have written := upserts.present _ _ _ targets rfl rootID "firstName" (by decide)
  rcases written with same | ⟨key, cell, stored⟩
  · exact absurd same (by decide)
  · have record := stored.record_eq fun name field selected => by
      have member : (name, field) ∈ upsertedSelection.fields := mem_of_lookup selected
      rcases List.mem_cons.mp member with same | later
      · rw [(Prod.mk.inj same).2]
      · rw [(Prod.mk.inj (List.mem_singleton.mp later)).2]
    exact absurd record (by decide)

end Cache

end Houdini.Runtime
