import Houdini.Runtime.Cache.FreshLists
import Houdini.Runtime.Cache.StoredCells

/-! Under which id an object is stored: as the value of a field, and as an entry of a list. -/

set_option autoImplicit false

namespace Houdini.Runtime.Cache

def Carries (data : GraphQLObject) (typename : String) : Prop :=
  data.property "__typename" = .string typename ∧ typename ≠ ""

/-- Wherever the object is written, a field of this type stores it under the same id of its own, or
as an embedded record. Entries that are embedded get an id from the list. -/
def PlacedAlike (config : ConfigFile) (field : SelectionField) (data : GraphQLObject) : Prop :=
  (∃ id, ∀ vars parent entries embedded,
    (linkedField field vars parent (.object data)).linkedID config data = .ok (some id) ∧
      (linkedField field vars parent (.array entries)).entryID config embedded data =
        .ok (some id)) ∨
  ∀ vars parent entries embedded,
    (linkedField field vars parent (.object data)).linkedID config data =
        .ok (some (embeddedID parent (field.key vars))) ∧
      (linkedField field vars parent (.array entries)).entryID config embedded data =
        .ok (some embedded)

mutual

def Whole : GraphQLValue → GraphQLValue → Prop
  | .array entries, .array links => WholeList entries links
  | .array _, _ => False
  | .null, link | .undefined, link => link = .null
  | _, link => ∃ id, link = .string id

def WholeList : List GraphQLValue → List GraphQLValue → Prop
  | [], links => links = []
  | entry :: rest, link :: links => Whole entry link ∧ WholeList rest links
  | _ :: _, [] => False

end

mutual

def leaves : GraphQLValue → List GraphQLValue
  | .array links => leavesOf links
  | link => [link]

def leavesOf : List GraphQLValue → List GraphQLValue
  | [] => []
  | link :: rest => leaves link ++ leavesOf rest

end

mutual

def TypedEntry : GraphQLValue → Prop
  | .array entries => TypedEntries entries
  | .null | .undefined => True
  | .object data => ∃ typename, Carries data typename
  | _ => False

def TypedEntries : List GraphQLValue → Prop
  | [] => True
  | entry :: rest => TypedEntry entry ∧ TypedEntries rest

end

/-- No entry of a list that is written is dropped, and none leaves a hole. -/
def ListedWhole (config : ConfigFile) (field : SelectionField) (entries : List GraphQLValue) :
    Prop :=
  ∀ vars parent write previousIDs storage ids final,
    extractNestedListIDs config (linkedField field vars parent (.array entries)) write previousIDs
        entries storage = .ok ids final →
      WholeList entries ids.nestedIDs ∧ ids.newIDs = leavesOf ids.nestedIDs

def HasKeys (config : ConfigFile) (type : String) (data : GraphQLObject) : Prop :=
  keyFieldsForType config type ≠ [] ∧
    ∀ key ∈ keyFieldsForType config type, data.property key ≠ .undefined

/-- The declared type and the type of the object agree about its keys, and they make up an id. -/
structure KeysAgree (config : ConfigFile) (declared typename : String) (data : GraphQLObject) :
    Prop where
  agree : HasKeys config declared data ↔ HasKeys config typename data
  named : HasKeys config typename data → ∀ key, keyFieldsForType config typename = [key] →
    (data.property key).propertyKey ≠ ""

theorem isEmbedded_eq_false_iff {config : ConfigFile} {type : String} {data : GraphQLObject} :
    isEmbedded config type data = false ↔ HasKeys config type data := by
  unfold isEmbedded HasKeys
  rw [Bool.or_eq_false_iff, List.isEmpty_eq_false_iff, List.any_eq_false]
  refine and_congr_right fun _ => forall₂_congr fun key _ => ?_
  rw [Bool.not_eq_true', Bool.not_eq_false, GraphQLValue.isDefined_iff]

theorem recordID_eq_none_iff {config : ConfigFile} {type : String} {data : GraphQLObject}
    (keys : HasKeys config type data) :
    recordID config type data = none ↔
      ∃ key, keyFieldsForType config type = [key] ∧ (data.property key).propertyKey = "" := by
  have empty : recordID config type data = none ↔ computeID config type data = "" := by
    unfold recordID
    dsimp only
    split
    · next empty => simp [empty]
    · next given =>
        simp only [given, iff_false]
        split <;> simp
  rw [empty]
  unfold computeID
  obtain ⟨some, _⟩ := keys
  cases fields : keyFieldsForType config type with
  | nil => exact absurd fields some
  | cons key rest =>
      cases rest with
      | nil => simp
      | cons other rest =>
          simp only [List.map_cons, List.cons.injEq, reduceCtorEq, and_false, false_and,
            exists_const, iff_false]
          intro same
          have length := congrArg String.length same
          rw [String.intercalate_cons_cons] at length
          simp at length

section Objects

variable {config : ConfigFile} {field : SelectionField} {data : GraphQLObject} {typename : String}

theorem Carries.unique (carries : Carries data typename) {other : String}
    (otherCarries : Carries data other) : other = typename :=
  GraphQLValue.string.inj (otherCarries.1.symm.trans carries.1)

theorem Carries.truthy (carries : Carries data typename) :
    (data.property "__typename").truthy = true := by
  rw [carries.1]
  simpa [GraphQLValue.truthy] using carries.2

theorem Carries.linkedID (carries : Carries data typename) (vars : GraphQLObject)
    (parent : String) :
    (linkedField field vars parent (.object data)).linkedID config data =
      if isEmbedded config typename data then .ok (some (embeddedID parent (field.key vars)))
      else .ok (recordID config typename data) := by
  have named : linkedType field (.object data) = typename := by
    unfold linkedType GraphQLValue.member
    dsimp only
    rw [if_pos carries.truthy, carries.1]
    rfl
  unfold LinkedField.linkedID linkedField
  dsimp only
  rw [named, carries.truthy, Bool.not_true, Bool.and_false, if_neg Bool.false_ne_true]

theorem Carries.entryID (carries : Carries data typename) (vars : GraphQLObject) (parent : String)
    (entries : List GraphQLValue) (embedded : String) :
    (linkedField field vars parent (.array entries)).entryID config embedded data =
      if isEmbedded config field.type data then .ok (some embedded)
      else .ok (recordID config typename data) := by
  have declared : linkedType field (.array entries) = field.type := rfl
  unfold LinkedField.entryID linkedField
  dsimp only
  rw [declared, carries.truthy, Bool.not_true, Bool.and_false, if_neg Bool.false_ne_true,
    if_pos rfl, carries.1]
  rfl

theorem embeddedID_moves (key id : String) : ∃ parent, embeddedID parent key ≠ id := by
  by_contra never
  have fixed (parent : String) : embeddedID parent key = id := by
    by_contra other
    exact never ⟨parent, other⟩
  have same := congrArg String.length ((fixed "").trans (fixed "a").symm)
  simp only [embeddedID, String.length_append] at same
  exact absurd same (by simp)

theorem exists_other (id : String) : ∃ embedded : String, embedded ≠ id := by
  by_cases same : id = ""
  · exact ⟨"a", by rw [same]; decide⟩
  · exact ⟨"", Ne.symm same⟩

theorem placedAlike_iff (carries : Carries data typename) :
    PlacedAlike config field data ↔ KeysAgree config field.type typename data := by
  constructor
  · rintro (⟨id, placed⟩ | placed)
    · have own : HasKeys config typename data := by
        obtain ⟨parent, moved⟩ := embeddedID_moves (field.key []) id
        rw [← isEmbedded_eq_false_iff]
        by_contra embedded
        have first := (placed [] parent [] "").1
        rw [carries.linkedID, if_pos (by simpa using embedded)] at first
        exact moved (Option.some.inj (Except.ok.inj first))
      have listed : HasKeys config field.type data := by
        obtain ⟨embedded, other⟩ := exists_other id
        rw [← isEmbedded_eq_false_iff]
        by_contra isEmbedded
        have second := (placed [] "" [] embedded).2
        rw [carries.entryID, if_pos (by simpa using isEmbedded)] at second
        exact other (Option.some.inj (Except.ok.inj second))
      refine ⟨⟨fun _ => own, fun _ => listed⟩, fun _ key single empty => ?_⟩
      have first := (placed [] "" [] "").1
      rw [carries.linkedID, isEmbedded_eq_false_iff.mpr own, if_neg Bool.false_ne_true,
        (recordID_eq_none_iff own).mpr ⟨key, single, empty⟩] at first
      cases first
    · have own : ¬ HasKeys config typename data := by
        intro keys
        have same (parent : String) :
            recordID config typename data = some (embeddedID parent (field.key [])) := by
          have first := (placed [] parent [] "").1
          rw [carries.linkedID, isEmbedded_eq_false_iff.mpr keys, if_neg Bool.false_ne_true]
            at first
          exact Except.ok.inj first
        obtain ⟨parent, moved⟩ := embeddedID_moves (field.key []) (embeddedID "" (field.key []))
        exact moved (Option.some.inj ((same parent).symm.trans (same "")))
      have listed : ¬ HasKeys config field.type data := by
        intro keys
        have same (embedded : String) : recordID config typename data = some embedded := by
          have second := (placed [] "" [] embedded).2
          rw [carries.entryID, isEmbedded_eq_false_iff.mpr keys, if_neg Bool.false_ne_true]
            at second
          exact Except.ok.inj second
        obtain ⟨embedded, other⟩ := exists_other ""
        exact other (Option.some.inj ((same embedded).symm.trans (same "")))
      exact ⟨⟨fun keys => absurd keys listed, fun keys => absurd keys own⟩,
        fun keys => absurd keys own⟩
  · rintro ⟨agree, named⟩
    by_cases keys : HasKeys config typename data
    · cases given : recordID config typename data with
      | none =>
          obtain ⟨key, single, empty⟩ := (recordID_eq_none_iff keys).mp given
          exact absurd empty (named keys key single)
      | some id =>
          refine .inl ⟨id, fun vars parent entries embedded => ?_⟩
          rw [carries.linkedID, carries.entryID, isEmbedded_eq_false_iff.mpr keys,
            isEmbedded_eq_false_iff.mpr (agree.mpr keys), given]
          exact ⟨rfl, rfl⟩
    · refine .inr fun vars parent entries embedded => ?_
      have own : isEmbedded config typename data = true :=
        (Bool.not_eq_false _).mp fun none => keys (isEmbedded_eq_false_iff.mp none)
      have listed : isEmbedded config field.type data = true :=
        (Bool.not_eq_false _).mp fun none => keys (agree.mp (isEmbedded_eq_false_iff.mp none))
      rw [carries.linkedID, carries.entryID, own, listed]
      exact ⟨rfl, rfl⟩

theorem PlacedAlike.listed (alike : PlacedAlike config field data) (vars : GraphQLObject)
    (parent : String) (entries : List GraphQLValue) (embedded : String) :
    ∃ id, (linkedField field vars parent (.array entries)).entryID config embedded data =
      .ok (some id) := by
  rcases alike with ⟨id, placed⟩ | placed
  · exact ⟨id, (placed vars parent entries embedded).2⟩
  · exact ⟨embedded, (placed vars parent entries embedded).2⟩

end Objects

section Lists

variable {config : ConfigFile} {field : LinkedField} {write : String → GraphQLObject → WriteM Unit}

def Identifies (config : ConfigFile) (field : LinkedField) (objects : List GraphQLObject) : Prop :=
  ∀ data ∈ objects, ∀ embedded, ∃ id, field.entryID config embedded data = .ok (some id)

mutual

theorem extractEntryIDs_whole : ∀ entry : GraphQLValue, TypedEntry entry →
    Identifies config field (entryObject entry) → ∀ previousID storage newIDs nestedID final,
      extractEntryIDs config field write previousID entry storage =
          .ok (newIDs, nestedID) final →
        ∃ link, nestedID = some link ∧ Whole entry link ∧ newIDs = leaves link
  | .array entries, typed, identified, previousID, storage, newIDs, nestedID, final, success => by
      unfold extractEntryIDs at success
      obtain ⟨inner, middle, first, last⟩ := EStateM.bind_eq_ok success
      obtain ⟨same, _⟩ := EStateM.pure_eq_ok last
      obtain ⟨rfl, rfl⟩ := Prod.mk.inj same
      obtain ⟨whole, flat⟩ := extractNestedListIDs_whole entries typed identified _ _ _ _ first
      exact ⟨_, rfl, whole, flat⟩
  | .null, _, _, _, _, _, _, _, success | .undefined, _, _, _, _, _, _, _, success => by
      unfold extractEntryIDs at success
      obtain ⟨same, _⟩ := EStateM.pure_eq_ok success
      obtain ⟨rfl, rfl⟩ := Prod.mk.inj same
      exact ⟨_, rfl, rfl, rfl⟩
  | .object data, _, identified, previousID, storage, newIDs, nestedID, final, success => by
      unfold extractEntryIDs writeEntry at success
      obtain ⟨id?, middle, first, last⟩ := EStateM.bind_eq_ok success
      obtain ⟨embedded, _, _, second⟩ := EStateM.bind_eq_ok first
      obtain ⟨id, given⟩ := identified data List.mem_cons_self embedded
      rw [given] at second
      obtain ⟨_, _, _, written⟩ := EStateM.bind_eq_ok second
      obtain ⟨rfl, _⟩ := EStateM.pure_eq_ok written
      obtain ⟨same, _⟩ := EStateM.pure_eq_ok last
      obtain ⟨rfl, rfl⟩ := Prod.mk.inj same
      exact ⟨.string id, rfl, ⟨id, rfl⟩, rfl⟩
  | .boolean _, typed, _, _, _, _, _, _, _ | .number _, typed, _, _, _, _, _, _, _
  | .string _, typed, _, _, _, _, _, _, _ | .component .., typed, _, _, _, _, _, _, _ =>
      typed.elim

theorem extractNestedListIDs_whole : ∀ entries : List GraphQLValue, TypedEntries entries →
    Identifies config field (entryObjects entries) → ∀ previousIDs storage ids final,
      extractNestedListIDs config field write previousIDs entries storage = .ok ids final →
        WholeList entries ids.nestedIDs ∧ ids.newIDs = leavesOf ids.nestedIDs
  | [], _, _, _, _, _, _, success => by
      unfold extractNestedListIDs at success
      obtain ⟨rfl, _⟩ := EStateM.pure_eq_ok success
      exact ⟨rfl, rfl⟩
  | entry :: rest, typed, identified, previousIDs, storage, ids, final, success => by
      unfold extractNestedListIDs at success
      obtain ⟨⟨newIDs, nestedID⟩, middle, first, second⟩ := EStateM.bind_eq_ok success
      obtain ⟨others, _, below, last⟩ := EStateM.bind_eq_ok second
      obtain ⟨rfl, _⟩ := EStateM.pure_eq_ok last
      obtain ⟨link, rfl, whole, flat⟩ := extractEntryIDs_whole entry typed.1
        (fun data member => identified data (List.mem_append_left _ member)) _ _ _ _ _ first
      obtain ⟨wholeRest, flatRest⟩ := extractNestedListIDs_whole rest typed.2
        (fun data member => identified data (List.mem_append_right _ member)) _ _ _ _ below
      refine ⟨⟨whole, wholeRest⟩, ?_⟩
      change newIDs ++ others.newIDs = leaves link ++ leavesOf others.nestedIDs
      rw [flat, flatRest]

end

mutual

theorem carries_of_entry : ∀ entry : GraphQLValue, TypedEntry entry →
    ∀ data ∈ entryObject entry, ∃ typename, Carries data typename
  | .array entries, typed, data, member => carries_of_entries entries typed data member
  | .object _, typed, _, member => by
      obtain rfl := List.mem_singleton.mp member
      exact typed
  | .null, _, _, member | .undefined, _, _, member | .boolean _, _, _, member
  | .number _, _, _, member | .string _, _, _, member | .component .., _, _, member =>
      absurd member List.not_mem_nil

theorem carries_of_entries : ∀ entries : List GraphQLValue, TypedEntries entries →
    ∀ data ∈ entryObjects entries, ∃ typename, Carries data typename
  | [], _, _, member => absurd member List.not_mem_nil
  | entry :: rest, typed, data, member => by
      rcases List.mem_append.mp member with first | later
      · exact carries_of_entry entry typed.1 data first
      · exact carries_of_entries rest typed.2 data later

end

end Lists

/-- The objects of a list are stored as they would be in a field of the list's type, and none is lost,
if and only if both types agree about the keys of each. -/
theorem placedAlike_listed_iff (config : ConfigFile) (field : SelectionField)
    (entries : List GraphQLValue) (typed : TypedEntries entries) :
    (∀ data ∈ entryObjects entries, PlacedAlike config field data) ∧
        ListedWhole config field entries ↔
      ∀ data ∈ entryObjects entries, ∀ typename, Carries data typename →
        KeysAgree config field.type typename data := by
  constructor
  · rintro ⟨alike, _⟩ data member typename carries
    exact (placedAlike_iff carries).mp (alike data member)
  · intro agree
    have alike : ∀ data ∈ entryObjects entries, PlacedAlike config field data := by
      intro data member
      obtain ⟨typename, carries⟩ := carries_of_entries entries typed data member
      exact (placedAlike_iff carries).mpr (agree data member typename carries)
    refine ⟨alike, fun vars parent write previousIDs storage ids final success => ?_⟩
    exact extractNestedListIDs_whole entries typed
      (fun data member => (alike data member).listed vars parent entries) _ _ _ _ success

def animals : SelectionField where
  keyRaw := "animals"
  type := "Animal"
  abstract := true

def users : List GraphQLValue :=
  [.object [("__typename", .string "User"), ("id", .string "1")], .null]

theorem placedAlike_listed_users :
    (∀ data ∈ entryObjects users, PlacedAlike {} animals data) ∧ ListedWhole {} animals users := by
  refine (placedAlike_listed_iff {} animals users ⟨⟨"User", rfl, by decide⟩, trivial, trivial⟩).mpr ?_
  intro data member typename carries
  obtain rfl := List.mem_singleton.mp member
  have user : typename = "User" := (Carries.unique ⟨rfl, by decide⟩ carries)
  subst user
  refine ⟨Iff.rfl, fun _ key single => ?_⟩
  obtain rfl : "id" = key := (List.cons.inj single).1
  decide

def ghosts : ConfigFile where
  types := [("Ghost", { keys := some ["aka"] })]

/-- A ghost is a record in a field, and embedded in a list of animals. -/
theorem not_placedAlike_ghost :
    ¬ ∀ config field entries, TypedEntries entries →
      (∀ data ∈ entryObjects entries, PlacedAlike config field data) ∧
        ListedWhole config field entries := by
  intro claim
  have ghost : Carries [("__typename", .string "Ghost"), ("aka", .string "Casper")] "Ghost" :=
    ⟨rfl, by decide⟩
  have alike := (claim ghosts animals
    [.object [("__typename", .string "Ghost"), ("aka", .string "Casper")]]
    ⟨⟨"Ghost", ghost⟩, trivial⟩).1 _ List.mem_cons_self
  obtain ⟨id, placed⟩ | placed := alike
  · have listed := (placed [] "" [] "other").2
    have again := (placed [] "" [] "").2
    rw [ghost.entryID] at listed again
    exact absurd (listed.trans again.symm) (by decide)
  · exact absurd (placed [] "" [] "").1 (by decide)

end Houdini.Runtime.Cache
