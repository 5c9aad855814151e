import Houdini.Runtime.Cache.ReadCompleteness

/-! Which objects of an answer are `null`, and what an object shows for its fields. -/

set_option autoImplicit false

namespace Houdini.Runtime.Cache

namespace Visit

section Stored

variable (context : ReadContext) (storage : InMemoryStorage)

def entries (visit : Visit) : FieldSelections :=
  (getFieldsForType visit.selection (storage.typename visit.record)).getD []

/-- The fields that the read looks at. A masked field is one of them if masking is
ignored, or if everything is checked. -/
def looked (visit : Visit) : List SelectionField :=
  context.fieldsRead (visit.entries storage)

def Shows (visit : Visit) (name : String) (field : SelectionField) : Prop :=
  context.reads field = true ∧ (field.visible || context.ignoreMasking) = true ∧
    ∃ before after, visit.entries storage = before ++ (name, field) :: after ∧
      ∀ other ∈ after, other.1 ≠ name

mutual

/-- The object of the record has to be `null`: a field that must not be `null` is, or
is a list with a record in it that must not be `null` and is. -/
inductive Cascades : Visit → Prop
  | field {visit : Visit} {field : SelectionField} (member : field ∈ visit.looked context storage)
      (null : ReadsNull visit field) (required : visit.Required context field) : Cascades visit
  | list {visit : Visit} {field : SelectionField} {inner : SubscriptionSelection} {record : String}
      (member : field ∈ visit.looked context storage) (required : field.nullable = false)
      (nested : field.selection = some inner)
      (list : (shown context storage visit.record field).isArray = true)
      (linked : record ∈ linkedRecords (shown context storage visit.record field))
      (null : Cascades ⟨nextStep field visit.stepsFromConnection, inner, record⟩) : Cascades visit

inductive ReadsNull : Visit → SelectionField → Prop
  | value {visit : Visit} {field : SelectionField}
      (null : shown context storage visit.record field = .undefined ∨
        shown context storage visit.record field = .null ∨
        (field.selection = none ∧ unmarshalScalar context.config field.type
          (shown context storage visit.record field) = .null)) : ReadsNull visit field
  | link {visit : Visit} {field : SelectionField} {inner : SubscriptionSelection} {record : String}
      (nested : field.selection = some inner)
      (single : (shown context storage visit.record field).isArray = false)
      (linked : record ∈ linkedRecords (shown context storage visit.record field))
      (null : Cascades ⟨nextStep field visit.stepsFromConnection, inner, record⟩) :
      ReadsNull visit field

end

mutual

/-- A sound answer for a record: `null` if it has to be, and otherwise an object with a
sound answer for every field that it shows. -/
inductive Answers : Visit → GraphQLValue → Prop
  | null {visit : Visit} (cascades : Cascades context storage visit) : Answers visit .null
  | object {visit : Visit} {target : GraphQLObject} (kept : ¬ Cascades context storage visit)
      (fields : ∀ name field, visit.Shows context storage name field →
        FieldAnswers visit field (target.property name)) : Answers visit (.object target)

/-- A sound answer for a field of a record: `null` only if the field is nullable, or is
the generated cursor of an edge. -/
inductive FieldAnswers : Visit → SelectionField → GraphQLValue → Prop
  | null {visit : Visit} {field : SelectionField} (null : ReadsNull context storage visit field)
      (allowed : field.nullable = true ∨ visit.Cursor context field) :
      FieldAnswers visit field .null
  | dummy {visit : Visit} {field : SelectionField} (null : ReadsNull context storage visit field)
      (marked : field.abstractHasRequired = true) : FieldAnswers visit field requiredFieldMissing
  | scalar {visit : Visit} {field : SelectionField} {value : GraphQLValue}
      (scalar : field.selection = none) (notNull : value ≠ .null) : FieldAnswers visit field value
  | link {visit : Visit} {field : SelectionField} {inner : SubscriptionSelection}
      {target : GraphQLObject} (nested : field.selection = some inner)
      (answers : Answers ⟨nextStep field visit.stepsFromConnection, inner,
        (shown context storage visit.record field).propertyKey⟩ (.object target)) :
      FieldAnswers visit field (attachListID visit.record field (.object target))
  | list {visit : Visit} {field : SelectionField} {inner : SubscriptionSelection}
      {items answered : List GraphQLValue} (nested : field.selection = some inner)
      (stored : shown context storage visit.record field = .array items)
      (entries : EntriesAnswer (nextStep field visit.stepsFromConnection) inner items answered) :
      FieldAnswers visit field (.array answered)

inductive EntryAnswers :
    Option Nat → SubscriptionSelection → GraphQLValue → GraphQLValue → Prop
  | null {stepsFromConnection : Option Nat} {selection : SubscriptionSelection} :
      EntryAnswers stepsFromConnection selection .null .null
  | record {stepsFromConnection : Option Nat} {selection : SubscriptionSelection}
      {entry answer : GraphQLValue} (single : entry.isArray = false) (linked : entry ≠ .null)
      (answers : Answers ⟨stepsFromConnection, selection, entryRecord entry⟩ answer) :
      EntryAnswers stepsFromConnection selection entry answer
  | list {stepsFromConnection : Option Nat} {selection : SubscriptionSelection}
      {items answered : List GraphQLValue}
      (entries : EntriesAnswer stepsFromConnection selection items answered) :
      EntryAnswers stepsFromConnection selection (.array items) (.array answered)

inductive EntriesAnswer :
    Option Nat → SubscriptionSelection → List GraphQLValue → List GraphQLValue → Prop
  | nil {stepsFromConnection : Option Nat} {selection : SubscriptionSelection} :
      EntriesAnswer stepsFromConnection selection [] []
  | cons {stepsFromConnection : Option Nat} {selection : SubscriptionSelection}
      {entry answer : GraphQLValue} {rest answered : List GraphQLValue}
      (head : EntryAnswers stepsFromConnection selection entry answer)
      (tail : EntriesAnswer stepsFromConnection selection rest answered) :
      EntriesAnswer stepsFromConnection selection (entry :: rest) (answer :: answered)

end

end Stored

section Sound

variable {context : ReadContext} {storage : InMemoryStorage} {root : Visit}

theorem attachListID_eq_null_iff {parent : String} {field : SelectionField} {value : GraphQLValue} :
    attachListID parent field value = .null ↔ value = .null := by
  unfold attachListID
  cases value with
  | object fields =>
      dsimp only
      split
      · split <;> simp
      · simp
  | _ => simp

theorem Answers.eq_null_iff {visit : Visit} {answer : GraphQLValue}
    (answers : Answers context storage visit answer) :
    answer = .null ↔ Cascades context storage visit := by
  cases answers with
  | null cascades => exact iff_of_true rfl cascades
  | object kept => exact iff_of_false (fun same => by cases same) kept

theorem mem_fields_of_looked {visit : Visit} {field : SelectionField}
    (member : field ∈ visit.looked context storage) : field ∈ visit.fields context storage := by
  obtain ⟨listed, reads⟩ := List.mem_filter.mp member
  have included : field.included context.vars = true := (Bool.and_eq_true_iff.mp reads).2
  unfold entries at listed
  unfold Visit.fields
  cases found : getFieldsForType visit.selection (storage.typename visit.record) with
  | none =>
      rw [found] at listed
      cases listed
  | some fields =>
      rw [found] at listed
      exact List.mem_filter.mpr ⟨listed, included⟩

def ReadsSoundly (context : ReadContext) (storage : InMemoryStorage) (root visit : Visit)
    (read : ReadM SelectionResult) : Prop :=
  ∀ current result next, ReadsAlike context storage root current →
    read current = .ok result next →
      ReadsAlike context storage root next ∧ Answers context storage visit result.data

section Lists

variable {stepsFromConnection : Option Nat} {selection : SubscriptionSelection}
  {read : String → ReadM SelectionResult} {nullable : Bool}

private theorem record_answers {entry : GraphQLValue} (single : entry.isArray = false)
    (linked : entry ≠ .null)
    (reads : ReadsSoundly context storage root ⟨stepsFromConnection, selection, entryRecord entry⟩
      (read (entryRecord entry))) {current next : InMemoryStorage} {result : NestedListResult}
    (alike : ReadsAlike context storage root current)
    (success : (do
      let result ← read (entryRecord entry)
      return ({ data := [result.data], isPartial := result.isPartial, stale := result.stale,
                hasData := result.hasData,
                cascadeNull := result.data == GraphQLValue.null && !nullable } :
        NestedListResult))
        current = .ok result next) :
    ReadsAlike context storage root next ∧
      EntriesAnswer context storage stepsFromConnection selection [entry] result.data ∧
      (result.cascadeNull = true ↔ nullable = false ∧
        ∃ record ∈ [entryRecord entry],
          Cascades context storage ⟨stepsFromConnection, selection, record⟩) := by
  obtain ⟨object, middle, first, last⟩ := EStateM.bind_eq_ok success
  obtain ⟨kept, answers⟩ := reads current object middle alike first
  obtain ⟨rfl, rfl⟩ := EStateM.pure_eq_ok last
  refine ⟨kept, .cons (.record single linked answers) .nil, ?_⟩
  rw [Bool.and_eq_true, beq_iff_eq, Bool.not_eq_true', answers.eq_null_iff]
  simp [and_comm]

private theorem EntriesAnswer.append {first second answered others : List GraphQLValue}
    (head : EntriesAnswer context storage stepsFromConnection selection first answered)
    (tail : EntriesAnswer context storage stepsFromConnection selection second others) :
    EntriesAnswer context storage stepsFromConnection selection (first ++ second)
      (answered ++ others) := by
  induction first generalizing answered with
  | nil =>
      cases head
      exact tail
  | cons entry rest ih =>
      cases head with
      | cons entryAnswers restAnswers => exact .cons entryAnswers (ih restAnswers)

mutual

private theorem hydrateEntry_answers (entry : GraphQLValue)
    (reads : ∀ record ∈ entryRecords entry,
      ReadsSoundly context storage root ⟨stepsFromConnection, selection, record⟩ (read record))
    {current next : InMemoryStorage} {result : NestedListResult}
    (alike : ReadsAlike context storage root current)
    (success : hydrateEntry read nullable entry current = .ok result next) :
    ReadsAlike context storage root next ∧
      EntriesAnswer context storage stepsFromConnection selection [entry] result.data ∧
      (result.cascadeNull = true ↔ nullable = false ∧ ∃ record ∈ entryRecords entry,
        Cascades context storage ⟨stepsFromConnection, selection, record⟩) := by
  cases entry with
  | array items =>
      unfold hydrateEntry at success
      obtain ⟨nested, middle, first, last⟩ := EStateM.bind_eq_ok success
      obtain ⟨kept, answers, cascades⟩ := hydrateNestedList_answers items reads alike first
      obtain ⟨rfl, rfl⟩ := EStateM.pure_eq_ok last
      exact ⟨kept, .cons (.list answers) .nil, cascades⟩
  | null =>
      unfold hydrateEntry at success
      obtain ⟨rfl, rfl⟩ := EStateM.pure_eq_ok success
      exact ⟨alike, .cons .null .nil, by simp [entryRecords]⟩
  | undefined | boolean | number | string | object | component =>
      unfold hydrateEntry at success
      exact record_answers rfl (fun same => by cases same) (reads _ List.mem_cons_self) alike success

theorem hydrateNestedList_answers (items : List GraphQLValue)
    (reads : ∀ record ∈ listedRecords items,
      ReadsSoundly context storage root ⟨stepsFromConnection, selection, record⟩ (read record))
    {current next : InMemoryStorage} {result : NestedListResult}
    (alike : ReadsAlike context storage root current)
    (success : hydrateNestedList read nullable items current = .ok result next) :
    ReadsAlike context storage root next ∧
      EntriesAnswer context storage stepsFromConnection selection items result.data ∧
      (result.cascadeNull = true ↔ nullable = false ∧ ∃ record ∈ listedRecords items,
        Cascades context storage ⟨stepsFromConnection, selection, record⟩) := by
  cases items with
  | nil =>
      unfold hydrateNestedList at success
      obtain ⟨rfl, rfl⟩ := EStateM.pure_eq_ok success
      exact ⟨alike, .nil, by simp [listedRecords]⟩
  | cons entry rest =>
      unfold hydrateNestedList at success
      obtain ⟨head, middle, first, others⟩ := EStateM.bind_eq_ok success
      obtain ⟨tail, last, second, final⟩ := EStateM.bind_eq_ok others
      have inHead := fun record member => reads record (List.mem_append_left _ member)
      have inTail := fun record member => reads record (List.mem_append_right _ member)
      obtain ⟨keptHead, headAnswers, headCascades⟩ := hydrateEntry_answers entry inHead alike first
      obtain ⟨keptTail, tailAnswers, tailCascades⟩ :=
        hydrateNestedList_answers rest inTail keptHead second
      obtain ⟨rfl, rfl⟩ := EStateM.pure_eq_ok final
      refine ⟨keptTail, headAnswers.append tailAnswers, ?_⟩
      simp only [Bool.or_eq_true, headCascades, tailCascades, listedRecords, List.mem_append,
        or_and_right, exists_or, and_or_left]

end

end Lists

/-- The list that the field links to has a record in it that must not be `null` and is. -/
def ListNulls (context : ReadContext) (storage : InMemoryStorage) (visit : Visit)
    (field : SelectionField) : Prop :=
  field.nullable = false ∧ ∃ inner, field.selection = some inner ∧
    (shown context storage visit.record field).isArray = true ∧
      ∃ record ∈ linkedRecords (shown context storage visit.record field),
        Cascades context storage ⟨nextStep field visit.stepsFromConnection, inner, record⟩

def FieldNulls (context : ReadContext) (storage : InMemoryStorage) (visit : Visit)
    (field : SelectionField) : Prop :=
  (ReadsNull context storage visit field ∧ visit.Required context field) ∨
    ListNulls context storage visit field

theorem cascades_iff {visit : Visit} :
    Cascades context storage visit ↔
      ∃ field ∈ visit.looked context storage, FieldNulls context storage visit field := by
  constructor
  · intro cascades
    cases cascades with
    | field member null required => exact ⟨_, member, .inl ⟨null, required⟩⟩
    | list member required nested list linked null =>
        exact ⟨_, member, .inr ⟨required, _, nested, list, _, linked, null⟩⟩
  · intro found
    obtain ⟨field, member, ⟨null, required⟩ | ⟨required, inner, nested, list, record, linked, null⟩⟩ :=
      found
    · exact .field member null required
    · exact .list member required nested list linked null

theorem readsNull_iff {visit : Visit} {field : SelectionField} :
    ReadsNull context storage visit field ↔
      shown context storage visit.record field = .undefined ∨
        shown context storage visit.record field = .null ∨
        (field.selection = none ∧ unmarshalScalar context.config field.type
          (shown context storage visit.record field) = .null) ∨
        ∃ inner, field.selection = some inner ∧
          (shown context storage visit.record field).isArray = false ∧
            ∃ record ∈ linkedRecords (shown context storage visit.record field),
              Cascades context storage ⟨nextStep field visit.stepsFromConnection, inner, record⟩ := by
  constructor
  · intro reads
    cases reads with
    | value null =>
        obtain missing | null | scalar := null
        · exact .inl missing
        · exact .inr (.inl null)
        · exact .inr (.inr (.inl scalar))
    | link nested single linked null =>
        exact .inr (.inr (.inr ⟨_, nested, single, _, linked, null⟩))
  · intro found
    obtain missing | null | scalar | ⟨inner, nested, single, record, linked, null⟩ := found
    · exact .value (.inl missing)
    · exact .value (.inr (.inl null))
    · exact .value (.inr (.inr scalar))
    · exact .link nested single linked null

structure ValueAnswers (context : ReadContext) (storage : InMemoryStorage) (visit : Visit)
    (field : SelectionField) (result : FieldValueResult) : Prop where
  isNull : result.value = .null ↔ ReadsNull context storage visit field
  cascadeNull : result.cascadeNull = true ↔ ListNulls context storage visit field
  answers : result.value ≠ .null →
    FieldAnswers context storage visit field (attachListID visit.record field result.value)

private theorem scalar_answers {visit : Visit} {field : SelectionField} {value : GraphQLValue}
    (scalar : field.selection = none) (defined : value ≠ .undefined) (notNull : value ≠ .null)
    (same : SameRead context field value (shown context storage visit.record field)) :
    ValueAnswers context storage visit field
      { value := unmarshalScalar context.config field.type value, hasData := true } := by
  have answers (notNull : unmarshalScalar context.config field.type value ≠ .null) :
      FieldAnswers context storage visit field
        (attachListID visit.record field (unmarshalScalar context.config field.type value)) :=
    .scalar scalar (fun null => notNull (attachListID_eq_null_iff.mp null))
  obtain rfl | ⟨_, plain, component, otherComponent⟩ := same
  · exact ⟨by simp [readsNull_iff, scalar, defined, notNull], by simp [ListNulls, scalar], answers⟩
  · refine ⟨?_, by simp [ListNulls, scalar], answers⟩
    have read : unmarshalScalar context.config field.type value ≠ .null := by
      unfold unmarshalScalar
      rw [plain]
      exact notNull
    have stays : unmarshalScalar context.config field.type
        (shown context storage visit.record field) =
          shown context storage visit.record field := by
      unfold unmarshalScalar
      rw [plain]
    refine iff_of_false read (fun null => ?_)
    rw [readsNull_iff, stays, scalar] at null
    obtain missing | null | ⟨_, null⟩ | ⟨_, nested, _⟩ := null
    · rw [missing] at otherComponent
      cases otherComponent
    · rw [null] at otherComponent
      cases otherComponent
    · rw [null] at otherComponent
      cases otherComponent
    · cases nested

private theorem link_answers {visit : Visit} {field : SelectionField}
    {inner : SubscriptionSelection} {object : SelectionResult}
    (nested : field.selection = some inner)
    (single : (shown context storage visit.record field).isArray = false)
    (linked : linkedRecords (shown context storage visit.record field) =
      [(shown context storage visit.record field).propertyKey])
    (answers : Answers context storage ⟨nextStep field visit.stepsFromConnection, inner,
      (shown context storage visit.record field).propertyKey⟩ object.data) :
    ValueAnswers context storage visit field
      { value := object.data, isPartial := object.isPartial, stale := object.stale
        hasData := object.hasData } where
  isNull := by
    have defined : shown context storage visit.record field ≠ .undefined := by
      intro missing
      rw [missing] at linked
      cases linked
    have notNull : shown context storage visit.record field ≠ .null := by
      intro null
      rw [null] at linked
      cases linked
    rw [answers.eq_null_iff, readsNull_iff, linked]
    simp [defined, notNull, nested, single]
  cascadeNull := by simp [ListNulls, single]
  answers := by
    intro notNull
    cases data : object.data with
    | object target =>
        rw [data] at answers
        exact .link nested answers
    | null => exact absurd data notNull
    | undefined | boolean | number | string | array | component =>
        rw [data] at answers
        cases answers

private theorem readValue_answers {visit : Visit} {field : SelectionField} {value : GraphQLValue}
    {read : SubscriptionSelection → String → ReadM SelectionResult}
    (same : SameRead context field value (shown context storage visit.record field))
    (reads : ∀ inner, field.selection = some inner →
      ∀ record ∈ linkedRecords (shown context storage visit.record field),
        ReadsSoundly context storage root
          ⟨nextStep field visit.stepsFromConnection, inner, record⟩ (read inner record))
    {current next : InMemoryStorage} {result : FieldValueResult}
    (alike : ReadsAlike context storage root current)
    (success : readValue context read field value current = .ok result next) :
    ReadsAlike context storage root next ∧ ValueAnswers context storage visit field result := by
  have component : value.isComponent = false → value = shown context storage visit.record field := by
    intro plain
    obtain same | ⟨_, _, isComponent, _⟩ := same
    · exact same
    · rw [plain] at isComponent
      cases isComponent
  unfold readValue at success
  cases nested : field.selection with
  | none =>
      cases value with
      | undefined =>
          obtain ⟨rfl, rfl⟩ := EStateM.pure_eq_ok success
          exact ⟨alike, by simp [readsNull_iff, ← component rfl], by simp [ListNulls, nested],
            fun notNull => absurd rfl notNull⟩
      | null =>
          obtain ⟨rfl, rfl⟩ := EStateM.pure_eq_ok success
          exact ⟨alike, by simp [readsNull_iff, ← component rfl], by simp [ListNulls, nested],
            fun notNull => absurd rfl notNull⟩
      | boolean | number | string | array | object | component =>
          simp only [nested] at success
          obtain ⟨rfl, rfl⟩ := EStateM.pure_eq_ok success
          exact ⟨alike, scalar_answers nested (fun same => by cases same)
            (fun same => by cases same) same⟩
  | some inner =>
      have value_eq : value = shown context storage visit.record field := by
        obtain same | ⟨scalar, _⟩ := same
        · exact same
        · rw [nested] at scalar
          cases scalar
      have reads := reads inner nested
      rw [← value_eq] at reads
      have link (single : value.isArray = false) (linked : linkedRecords value = [value.propertyKey])
          (run : (do
            let object ← read inner value.propertyKey
            return ({ value := object.data, isPartial := object.isPartial,
                      stale := object.stale, hasData := object.hasData } : FieldValueResult))
            current = .ok result next) :
          ReadsAlike context storage root next ∧ ValueAnswers context storage visit field result := by
        obtain ⟨object, middle, first, last⟩ := EStateM.bind_eq_ok run
        obtain ⟨kept, answers⟩ := reads _ (by simp [linked]) current object middle alike first
        obtain ⟨rfl, rfl⟩ := EStateM.pure_eq_ok last
        rw [value_eq] at single linked answers
        exact ⟨kept, link_answers nested single linked answers⟩
      cases value with
      | undefined =>
          obtain ⟨rfl, rfl⟩ := EStateM.pure_eq_ok success
          exact ⟨alike, by simp [readsNull_iff, ← value_eq],
            by simp [ListNulls, ← value_eq, GraphQLValue.isArray], fun notNull => absurd rfl notNull⟩
      | null =>
          obtain ⟨rfl, rfl⟩ := EStateM.pure_eq_ok success
          exact ⟨alike, by simp [readsNull_iff, ← value_eq],
            by simp [ListNulls, ← value_eq, GraphQLValue.isArray], fun notNull => absurd rfl notNull⟩
      | array items =>
          simp only [nested] at success
          obtain ⟨list, middle, first, last⟩ := EStateM.bind_eq_ok success
          obtain ⟨kept, answers, cascades⟩ := hydrateNestedList_answers items reads alike first
          obtain ⟨rfl, rfl⟩ := EStateM.pure_eq_ok last
          refine ⟨kept, ?_, ?_, fun _ => .list nested value_eq.symm answers⟩
          · simp [readsNull_iff, ← value_eq, nested, GraphQLValue.isArray]
          · simp [ListNulls, ← value_eq, nested, GraphQLValue.isArray, linkedRecords, cascades]
      | boolean | number | string | object | component =>
          exact link rfl rfl (by simpa only [nested] using success)

section Objects

variable {read : Option Nat → SubscriptionSelection → String → ReadM SelectionResult}
  {visit : Visit}

def FieldsReadSoundly (context : ReadContext) (storage : InMemoryStorage) (root visit : Visit)
    (read : Option Nat → SubscriptionSelection → String → ReadM SelectionResult)
    (field : SelectionField) : Prop :=
  ∀ inner, field.selection = some inner →
    ∀ record ∈ linkedRecords (shown context storage visit.record field),
      ReadsSoundly context storage root
        ⟨nextStep field visit.stepsFromConnection, inner, record⟩
        (read (nextStep field visit.stepsFromConnection) inner record)

private theorem shown_answers {field : SelectionField} {result : FieldValueResult}
    (answers : ValueAnswers context storage visit field result)
    (kept : ¬ FieldNulls context storage visit field) :
    let value := attachListID visit.record field result.value
    let cursor := embeddedCursor (field.key context.vars) visit.stepsFromConnection
    FieldAnswers context storage visit field
      (if value == .null && !field.nullable && !cursor && field.abstractHasRequired then
        requiredFieldMissing
      else value) := by
  intro value cursor
  by_cases null : result.value = .null
  · have reads : ReadsNull context storage visit field := answers.isNull.mp null
    have value_null : value = .null := attachListID_eq_null_iff.mpr null
    cases marked : (value == .null && !field.nullable && !cursor && field.abstractHasRequired) with
    | true =>
        rw [if_pos rfl]
        exact .dummy reads (Bool.and_eq_true_iff.mp marked).2
    | false =>
        rw [if_neg Bool.false_ne_true, value_null]
        refine .null reads ?_
        by_contra strict
        obtain ⟨required, ordinary⟩ := not_or.mp strict
        have required := Bool.eq_false_iff.mpr required
        have ordinary : cursor = false := Bool.eq_false_iff.mpr ordinary
        rw [value_null, required, ordinary] at marked
        exact kept (.inl ⟨reads, required, by simpa using marked, Bool.eq_false_iff.mp ordinary⟩)
  · have notNull : (value == .null) = false :=
      beq_eq_false_iff_ne.mpr fun same => null (attachListID_eq_null_iff.mp same)
    rw [notNull]
    exact answers.answers null

structure FieldAdds (context : ReadContext) (storage : InMemoryStorage) (visit : Visit)
    (state final : SelectionState) (name : String) (field : SelectionField) : Prop where
  cascadeNull : final.cascadeNull = true ↔ state.cascadeNull = true ∨
    (context.reads field = true ∧ FieldNulls context storage visit field)
  others : ∀ other, other ≠ name → final.target.property other = state.target.property other
  shows : context.reads field = true → (field.visible || context.ignoreMasking) = true →
    ¬ FieldNulls context storage visit field →
      FieldAnswers context storage visit field (final.target.property name)

private theorem readField_answers {name : String} {field : SelectionField}
    {state final : SelectionState} (apart : ComponentsApart context storage root)
    (reached : Relation.ReflTransGen (Follows context storage) root visit)
    (member : context.reads field = true → field ∈ visit.fields context storage)
    (reads : context.reads field = true → FieldsReadSoundly context storage root visit read field)
    {current next : InMemoryStorage} (alike : ReadsAlike context storage root current)
    (success : readField context read visit.stepsFromConnection visit.record state (name, field)
      current = .ok final next) :
    ReadsAlike context storage root next ∧
      FieldAdds context storage visit state final name field := by
  unfold readField at success
  dsimp only at success
  cases looked : context.reads field with
  | false =>
      simp only [looked, Bool.not_false, if_true] at success
      obtain ⟨rfl, rfl⟩ := EStateM.pure_eq_ok success
      exact ⟨alike, by simp [looked], fun _ _ => rfl, fun reads => by simp [looked] at reads⟩
  | true =>
      simp only [looked, Bool.not_true, Bool.false_eq_true, if_false] at success
      obtain ⟨value, middle, first, others⟩ := EStateM.bind_eq_ok success
      obtain ⟨keptStored, same⟩ := alike.readStored apart reached (member looked) first
      obtain ⟨result, last, second, finish⟩ := EStateM.bind_eq_ok others
      obtain ⟨rfl, rfl⟩ := EStateM.pure_eq_ok finish
      obtain ⟨kept, answers⟩ := readValue_answers same (reads looked) keptStored second
      refine ⟨kept, ?_, ?_, ?_⟩
      · simp only [looked, true_and, Bool.or_eq_true, Bool.and_eq_true, Bool.not_eq_true',
          beq_iff_eq, attachListID_eq_null_iff, answers.isNull, answers.cascadeNull, FieldNulls,
          Required, Cursor, Bool.not_eq_true, and_assoc, or_assoc]
        tauto
      · intro other different
        dsimp only
        split <;> split <;> simp [GraphQLObject.property_setProperty, different]
      · intro _ visible strict
        have shows := shown_answers answers strict
        dsimp only at shows ⊢
        rw [if_pos visible]
        split at shows
        · rename_i marked
          rw [if_pos marked, GraphQLObject.property_setProperty, if_pos rfl]
          exact shows
        · rename_i unmarked
          rw [if_neg unmarked, GraphQLObject.property_setProperty, if_pos rfl]
          exact shows

private theorem readFields_answers {fields : FieldSelections} {state final : SelectionState}
    (apart : ComponentsApart context storage root)
    (reached : Relation.ReflTransGen (Follows context storage) root visit)
    (member : ∀ entry ∈ fields, context.reads entry.2 = true →
      entry.2 ∈ visit.fields context storage)
    (reads : ∀ entry ∈ fields, context.reads entry.2 = true →
      FieldsReadSoundly context storage root visit read entry.2)
    {current next : InMemoryStorage} (alike : ReadsAlike context storage root current)
    (success : readFields context read visit.stepsFromConnection visit.record fields state
      current = .ok final next) :
    ReadsAlike context storage root next ∧
      (final.cascadeNull = true ↔ state.cascadeNull = true ∨
        ∃ field ∈ context.fieldsRead fields, FieldNulls context storage visit field) ∧
      (∀ other, (∀ entry ∈ fields, entry.1 ≠ other) →
        final.target.property other = state.target.property other) ∧
      ∀ before after name field, fields = before ++ (name, field) :: after →
        (∀ other ∈ after, other.1 ≠ name) → context.reads field = true →
        (field.visible || context.ignoreMasking) = true →
        ¬ FieldNulls context storage visit field →
          FieldAnswers context storage visit field (final.target.property name) := by
  induction fields generalizing state current with
  | nil =>
      obtain ⟨rfl, rfl⟩ := EStateM.pure_eq_ok success
      refine ⟨alike, by simp [ReadContext.fieldsRead], fun _ _ => rfl, ?_⟩
      intro before after name field split
      cases before <;> cases split
  | cons entry rest ih =>
      obtain ⟨first, head⟩ := entry
      unfold readFields at success
      obtain ⟨middle, between, run, others⟩ := EStateM.bind_eq_ok success
      obtain ⟨kept, adds⟩ := readField_answers apart reached (member _ List.mem_cons_self)
        (reads _ List.mem_cons_self) alike run
      obtain ⟨keptAll, cascades, untouched, shows⟩ :=
        ih (fun other listed => member other (List.mem_cons_of_mem _ listed))
          (fun other listed => reads other (List.mem_cons_of_mem _ listed)) kept others
      refine ⟨keptAll, ?_, ?_, ?_⟩
      · rw [cascades, adds.cascadeNull]
        cases looked : context.reads head <;> simp [ReadContext.fieldsRead, looked, or_assoc]
      · intro other absent
        rw [untouched other fun entry listed => absent entry (List.mem_cons_of_mem _ listed)]
        exact adds.others other (absent _ List.mem_cons_self).symm
      · intro before after name field split last looked visible strict
        cases before with
        | nil =>
            obtain ⟨same, rfl⟩ := List.cons.inj split
            cases same
            rw [untouched first last]
            exact adds.shows looked visible strict
        | cons entry before =>
            obtain ⟨_, split⟩ := List.cons.inj split
            exact shows before after name field split last looked visible strict

end Objects

theorem getSelection_answers {visit : Visit} (apart : ComponentsApart context storage root)
    (reached : Relation.ReflTransGen (Follows context storage) root visit) :
    ReadsSoundly context storage root visit
      (getSelection context visit.stepsFromConnection visit.selection visit.record) := by
  induction depth : visit.selection.depth using Nat.strongRecOn generalizing visit with
  | ind depth ih =>
      intro current result next alike success
      rw [getSelection_eq] at success
      obtain ⟨typename, middle, first, others⟩ := EStateM.bind_eq_ok success
      obtain ⟨keptType, rfl⟩ := alike.readTypename first
      cases typed : getFieldsForType visit.selection (storage.typename visit.record) with
      | none =>
          simp only [typed] at others
          exact absurd others EStateM.throw_ne_ok
      | some fields =>
          simp only [typed] at others
          obtain ⟨final, last, second, finish⟩ := EStateM.bind_eq_ok others
          obtain ⟨rfl, rfl⟩ := EStateM.pure_eq_ok finish
          have entries : visit.entries storage = fields := by
            unfold Visit.entries
            rw [typed]
            rfl
          have member : ∀ entry ∈ fields, context.reads entry.2 = true →
              entry.2 ∈ visit.fields context storage := by
            intro entry listed looked
            refine mem_fields_of_looked (List.mem_filter.mpr ⟨?_, looked⟩)
            rw [entries]
            exact List.mem_map_of_mem listed
          have reads : ∀ entry ∈ fields, context.reads entry.2 = true →
              FieldsReadSoundly context storage root visit (getSelection context) entry.2 := by
            intro entry listed looked inner nested record linked
            have shallower := depth_lt_of_getFieldsForType typed listed nested
            rw [depth] at shallower
            have follows : Follows context storage visit _ :=
              .link (member entry listed looked) nested linked
            exact ih _ shallower (reached.tail follows) rfl
          obtain ⟨kept, cascades, _, shows⟩ :=
            readFields_answers apart reached member reads keptType second
          have startNull :
              (SelectionState.start visit.selection context.vars visit.record).cascadeNull = false := by
            unfold SelectionState.start
            cases visit.selection.fragments <;> rfl
          rw [startNull] at cascades
          have cascades : final.cascadeNull = true ↔ Cascades context storage visit := by
            rw [cascades, cascades_iff, looked, entries]
            simp
          refine ⟨kept, ?_⟩
          unfold SelectionState.result
          cases isNull : final.cascadeNull with
          | true => exact .null (cascades.mp isNull)
          | false =>
              have strict : ¬ Cascades context storage visit := by
                rw [← cascades, isNull]
                exact Bool.false_ne_true
              refine .object strict fun name field shown => ?_
              obtain ⟨looks, visible, before, after, split, last⟩ := shown
              rw [entries] at split
              refine shows before after name field split last looks visible fun nulls => ?_
              refine strict (cascades_iff.mpr ⟨field, List.mem_filter.mpr ⟨?_, looks⟩, nulls⟩)
              rw [entries, split]
              simp

end Sound

end Visit

open Visit

variable {context : ReadContext} {storage next : InMemoryStorage}
  {stepsFromConnection : Option Nat} {selection : SubscriptionSelection} {parent : String}
  {result : ReadResult}

/-- A read answers soundly at every depth, or with `null` because it has found no data. -/
theorem read_answersSoundly (distinct : storage.DistinctLayers)
    (apart : ComponentsApart context storage ⟨stepsFromConnection, selection, parent⟩)
    (success : read context selection parent stepsFromConnection storage = .ok result next) :
    ∃ object after, getSelection context stepsFromConnection selection parent storage =
        .ok object after ∧
      Answers context storage ⟨stepsFromConnection, selection, parent⟩ object.data ∧
      result.data = if object.hasData then object.data else .null := by
  obtain ⟨object, after, first, last⟩ := EStateM.bind_eq_ok success
  have alike : ReadsAlike context storage ⟨stepsFromConnection, selection, parent⟩ storage :=
    .refl distinct apart
  obtain ⟨_, answers⟩ := getSelection_answers apart .refl storage object after alike first
  refine ⟨object, after, first, answers, ?_⟩
  cases data : object.hasData with
  | true =>
      simp only [data, if_true] at last ⊢
      obtain ⟨rfl, rfl⟩ := EStateM.pure_eq_ok last
      rfl
  | false =>
      simp only [data, Bool.false_eq_true, if_false] at last ⊢
      obtain ⟨rfl, rfl⟩ := EStateM.pure_eq_ok last
      rfl

private def ownerName : SelectionField where
  type := "String"
  keyRaw := "name"

private def ownerSelection : SubscriptionSelection where
  fields := [("id", { type := "ID", keyRaw := "id", visible := true }), ("name", ownerName)]

private def ownerField : SelectionField where
  type := "User"
  keyRaw := "owner"
  nullable := true
  visible := true
  selection := some ownerSelection

/-- A compiled field of an abstract type with a `@required` field is nullable too. -/
private def petField : SelectionField where
  type := "Pet"
  keyRaw := "pet"
  nullable := true
  abstractHasRequired := true
  visible := true
  selection := some {}

private def houseSelection : SubscriptionSelection where
  fields := [("owner", ownerField), ("pet", petField)]

private def houseStorage : InMemoryStorage where
  data := [{
    id := 1
    fields := OrderedMap.ofList [
      ("User:1", OrderedMap.ofList [("id", .string "1"), ("name", .null)])]
    links := OrderedMap.ofList [
      (rootID, OrderedMap.ofList [("owner", .string "User:1"), ("pet", .null)])] }]
  idCount := 2

private theorem houseStorage_distinct : houseStorage.DistinctLayers where
  nodup := by simp [houseStorage]
  fresh := by simp [houseStorage]

private theorem houseSelection_apart (context : ReadContext) (storage : InMemoryStorage) :
    ComponentsApart context storage ⟨none, houseSelection, rootID⟩ := by
  refine @ComponentsApart.of_closed _ _ _
    (fun selection => selection = houseSelection ∨ selection = ownerSelection ∨ selection = {})
    (.inl rfl) ?_ ?_
  · intro selection same
    obtain rfl | rfl | rfl := same <;> rfl
  · intro selection same
    obtain rfl | rfl | rfl := same
    · simp [houseSelection, ownerField, petField]
    · simp [ownerSelection, ownerName]
    · simp

/-- If everything is checked, the name that is missing behind the mask nulls the owner. -/
theorem read_answersSoundly_house :
    ∃ object after, getSelection { fullCheck := true } none houseSelection rootID houseStorage =
        .ok object after ∧
      Answers { fullCheck := true } houseStorage ⟨none, houseSelection, rootID⟩ object.data ∧
      GraphQLValue.object [("owner", .null), ("pet", .null)] =
        if object.hasData then object.data else .null :=
  @read_answersSoundly { fullCheck := true } houseStorage _ none houseSelection rootID
    { data := .object [("owner", .null), ("pet", .null)], isPartial := false, stale := false }
    houseStorage_distinct (houseSelection_apart _ _) rfl

/-- An ordinary read keeps the owner, whose name is `null` behind the mask, and answers
`null` for the marked field. -/
theorem read_unsound_house :
    ∃ result next, read {} houseSelection rootID none houseStorage = .ok result next ∧
      result.data = .object [("owner", .object [("id", .string "1")]), ("pet", .null)] ∧
      (("name", ownerName) ∈ ownerSelection.fields ∧ ownerName.nullable = false ∧
        houseStorage.value "User:1" "name" = .null) ∧
      (("pet", petField) ∈ houseSelection.fields ∧ petField.visible = true ∧
        petField.abstractHasRequired = true) :=
  ⟨_, _, rfl, rfl, ⟨.tail _ (.head _), rfl, rfl⟩, .tail _ (.head _), rfl, rfl⟩

end Houdini.Runtime.Cache
