import Houdini.Data.Outcome
import Houdini.Runtime.Cache.Reading
import Houdini.Runtime.SelectionProperties

/-! The steps of a successful read. -/

set_option autoImplicit false

namespace Houdini.Runtime.Cache

section Depth

variable {context : ReadContext} {stepsFromConnection : Option Nat} {parent : String}
  {first second : Option Nat → SubscriptionSelection → String → ReadM SelectionResult}

private theorem readValue_congr {field : SelectionField} {steps : Option Nat}
    (agree : ∀ inner, field.selection = some inner → first steps inner = second steps inner)
    (value : GraphQLValue) :
    readValue context (first steps) field value = readValue context (second steps) field value := by
  unfold readValue
  cases nested : field.selection with
  | none => cases value <;> rfl
  | some inner => cases value <;> simp only [agree inner nested]

private theorem readFields_congr {fields : FieldSelections}
    (agree : ∀ entry ∈ fields, ∀ steps inner, entry.2.selection = some inner →
      first steps inner = second steps inner) (state : SelectionState) :
    readFields context first stepsFromConnection parent fields state =
      readFields context second stepsFromConnection parent fields state := by
  induction fields generalizing state with
  | nil => rfl
  | cons entry rest ih =>
      have head : readField context first stepsFromConnection parent state entry =
          readField context second stepsFromConnection parent state entry := by
        unfold readField
        dsimp only
        simp only [readValue_congr (agree entry List.mem_cons_self _)]
      unfold readFields
      rw [head]
      refine congrArg _ (funext fun next => ?_)
      exact ih (fun other member => agree other (List.mem_cons_of_mem _ member)) next

private theorem depth_pos (selection : SubscriptionSelection) : 0 < selection.depth := by
  rw [selection.depth_eq]
  exact Nat.succ_pos _

private theorem getSelectionWithin_agree (context : ReadContext) {bound other : Nat}
    {stepsFromConnection : Option Nat} {selection : SubscriptionSelection}
    (enough : selection.depth ≤ bound) (otherEnough : selection.depth ≤ other) (parent : String) :
    getSelectionWithin context bound stepsFromConnection selection parent =
      getSelectionWithin context other stepsFromConnection selection parent := by
  induction bound generalizing other stepsFromConnection selection parent with
  | zero => exact absurd (depth_pos selection) (Nat.not_lt.mpr enough)
  | succ bound ih =>
      cases other with
      | zero => exact absurd (depth_pos selection) (Nat.not_lt.mpr otherEnough)
      | succ other =>
          unfold getSelectionWithin
          refine congrArg _ (funext fun typename => ?_)
          cases found : getFieldsForType selection typename with
          | none => rfl
          | some fields =>
              dsimp only
              rw [readFields_congr]
              intro entry member steps inner nested
              have shallower := depth_lt_of_getFieldsForType found member nested
              exact funext fun record => ih (Nat.le_of_lt_succ (Nat.lt_of_lt_of_le shallower enough))
                (Nat.le_of_lt_succ (Nat.lt_of_lt_of_le shallower otherEnough)) record

theorem getSelection_eq (context : ReadContext) (stepsFromConnection : Option Nat)
    (selection : SubscriptionSelection) (parent : String) :
    getSelection context stepsFromConnection selection parent = do
      let typename ← readTypename parent
      match getFieldsForType selection typename with
      | none => throw .typeError
      | some fields =>
          let state ← readFields context (getSelection context) stepsFromConnection
            parent fields (.start selection context.vars parent)
          return state.result := by
  have deeper := @getSelectionWithin_agree context _ _ stepsFromConnection _
    (Nat.le_refl selection.depth) (Nat.le_succ selection.depth) parent
  unfold getSelection
  rw [deeper, getSelectionWithin]
  refine congrArg _ (funext fun typename => ?_)
  cases found : getFieldsForType selection typename with
  | none => rfl
  | some fields =>
      dsimp only
      rw [readFields_congr]
      intro entry member steps inner nested
      have shallower := depth_lt_of_getFieldsForType found member nested
      exact funext fun record =>
        getSelectionWithin_agree context (Nat.le_of_lt shallower) (Nat.le_refl _) record

end Depth

mutual

def listedRecords : List GraphQLValue → List String
  | [] => []
  | entry :: rest => entryRecords entry ++ listedRecords rest

def entryRecords : GraphQLValue → List String
  | .array items => listedRecords items
  | .null => []
  | entry => [entryRecord entry]

end

def linkedRecords : GraphQLValue → List String
  | .undefined | .null => []
  | .array items => listedRecords items
  | value => [value.propertyKey]

def directEntry : GraphQLValue → List String
  | .array _ | .null => []
  | entry => [entryRecord entry]

def directRecords : GraphQLValue → List String
  | .undefined | .null => []
  | .array items => items.flatMap directEntry
  | value => [value.propertyKey]

structure ReadFlags where
  hasData : Prop
  isPartial : Prop
  stale : Prop
  isNull : Prop

structure SelectionResult.Reports (result : SelectionResult) (flags : ReadFlags) : Prop where
  hasData : result.hasData = true ↔ flags.hasData
  isPartial : result.isPartial = true ↔ flags.isPartial
  stale : result.stale = true ↔ flags.stale
  isNull : result.data = .null ↔ flags.isNull

def ReadsAs (invariant : InMemoryStorage → Prop) (flags : ReadFlags)
    (read : ReadM SelectionResult) : Prop :=
  ∀ storage result next, invariant storage → read storage = .ok result next →
    invariant next ∧ result.Reports flags

section Lists

variable {invariant : InMemoryStorage → Prop} {read : String → ReadM SelectionResult}
  {flags : String → ReadFlags} {nullable : Bool}

structure NestedListResult.Reports (result : NestedListResult) (flags : String → ReadFlags)
    (nullable : Bool) (direct listed : List String) : Prop where
  hasData : result.hasData = true ↔ ∃ record ∈ direct, (flags record).hasData
  isPartial : result.isPartial = true ↔ ∃ record ∈ listed, (flags record).isPartial
  stale : result.stale = true ↔ ∃ record ∈ direct, (flags record).stale
  cascadeNull : result.cascadeNull = true ↔
    nullable = false ∧ ∃ record ∈ listed, (flags record).isNull

private theorem reports_of_result {result : SelectionResult} {record : String}
    (reports : result.Reports (flags record)) :
    NestedListResult.Reports
      { data := [result.data], isPartial := result.isPartial, stale := result.stale,
        hasData := result.hasData, cascadeNull := result.data == .null && !nullable }
      flags nullable [record] [record] where
  hasData := by simpa using reports.hasData
  isPartial := by simpa using reports.isPartial
  stale := by simpa using reports.stale
  cascadeNull := by
    rw [Bool.and_eq_true, beq_iff_eq, Bool.not_eq_true', reports.isNull]
    simp [and_comm]

private theorem record_reports {record : String}
    (reads : ReadsAs invariant (flags record) (read record)) {storage next : InMemoryStorage}
    {result : NestedListResult} (holds : invariant storage)
    (success : (do
      let result ← read record
      return ({ data := [result.data], isPartial := result.isPartial, stale := result.stale,
                hasData := result.hasData,
                cascadeNull := result.data == GraphQLValue.null && !nullable } :
        NestedListResult))
        storage = .ok result next) :
    invariant next ∧ result.Reports flags nullable [record] [record] := by
  obtain ⟨object, middle, first, last⟩ := EStateM.bind_eq_ok success
  obtain ⟨kept, reports⟩ := reads storage object middle holds first
  obtain ⟨rfl, rfl⟩ := EStateM.pure_eq_ok last
  exact ⟨kept, reports_of_result reports⟩

mutual

private theorem hydrateEntry_reports (entry : GraphQLValue)
    (reads : ∀ record ∈ entryRecords entry, ReadsAs invariant (flags record) (read record))
    {storage next : InMemoryStorage} {result : NestedListResult} (holds : invariant storage)
    (success : hydrateEntry read nullable entry storage = .ok result next) :
    invariant next ∧ result.Reports flags nullable (directEntry entry) (entryRecords entry) := by
  cases entry with
  | array items =>
      unfold hydrateEntry at success
      obtain ⟨nested, middle, first, last⟩ := EStateM.bind_eq_ok success
      obtain ⟨kept, reports⟩ := hydrateNestedList_reports items reads holds first
      obtain ⟨rfl, rfl⟩ := EStateM.pure_eq_ok last
      exact ⟨kept, by simp [directEntry], reports.isPartial, by simp [directEntry],
        reports.cascadeNull⟩
  | null =>
      unfold hydrateEntry at success
      obtain ⟨rfl, rfl⟩ := EStateM.pure_eq_ok success
      exact ⟨holds, by simp [directEntry], by simp [entryRecords], by simp [directEntry],
        by simp [entryRecords]⟩
  | undefined | boolean | number | string | object | component =>
      unfold hydrateEntry at success
      exact record_reports (reads _ List.mem_cons_self) holds success

theorem hydrateNestedList_reports (items : List GraphQLValue)
    (reads : ∀ record ∈ listedRecords items, ReadsAs invariant (flags record) (read record))
    {storage next : InMemoryStorage} {result : NestedListResult} (holds : invariant storage)
    (success : hydrateNestedList read nullable items storage = .ok result next) :
    invariant next ∧
      result.Reports flags nullable (items.flatMap directEntry) (listedRecords items) := by
  cases items with
  | nil =>
      unfold hydrateNestedList at success
      obtain ⟨rfl, rfl⟩ := EStateM.pure_eq_ok success
      exact ⟨holds, by simp, by simp [listedRecords], by simp, by simp [listedRecords]⟩
  | cons entry rest =>
      unfold hydrateNestedList at success
      obtain ⟨head, middle, first, others⟩ := EStateM.bind_eq_ok success
      obtain ⟨tail, last, second, final⟩ := EStateM.bind_eq_ok others
      have inHead := fun record member => reads record (List.mem_append_left _ member)
      have inTail := fun record member => reads record (List.mem_append_right _ member)
      obtain ⟨keptHead, headReports⟩ := hydrateEntry_reports entry inHead holds first
      obtain ⟨keptTail, tailReports⟩ := hydrateNestedList_reports rest inTail keptHead second
      obtain ⟨rfl, rfl⟩ := EStateM.pure_eq_ok final
      refine ⟨keptTail, ?_, ?_, ?_, ?_⟩
      · simp only [Bool.or_eq_true, headReports.hasData, tailReports.hasData, List.flatMap_cons,
          List.mem_append, or_and_right, exists_or]
      · simp only [Bool.or_eq_true, headReports.isPartial, tailReports.isPartial, listedRecords,
          List.mem_append, or_and_right, exists_or]
      · simp only [Bool.or_eq_true, headReports.stale, tailReports.stale, List.flatMap_cons,
          List.mem_append, or_and_right, exists_or]
      · simp only [Bool.or_eq_true, headReports.cascadeNull, tailReports.cascadeNull,
          listedRecords, List.mem_append, or_and_right, exists_or, and_or_left]

end

end Lists

/-- What the value of one field reports. -/
structure LinkFlags where
  hasData : Prop
  isPartial : Prop
  stale : Prop
  isNull : Prop
  cascadeNull : Prop

def linkFlags (context : ReadContext) (field : SelectionField) (value : GraphQLValue)
    (below : SubscriptionSelection → String → ReadFlags) : LinkFlags where
  hasData :=
    value = .null ∨ value = .array [] ∨ (value ≠ .undefined ∧ field.selection = none) ∨
      ∃ inner, field.selection = some inner ∧
        ∃ record ∈ directRecords value, (below inner record).hasData
  isPartial :=
    ∃ inner, field.selection = some inner ∧
      ∃ record ∈ linkedRecords value, (below inner record).isPartial
  stale :=
    ∃ inner, field.selection = some inner ∧
      ∃ record ∈ directRecords value, (below inner record).stale
  isNull :=
    value = .undefined ∨ value = .null ∨
      (field.selection = none ∧ unmarshalScalar context.config field.type value = .null) ∨
      ∃ inner, field.selection = some inner ∧ value.isArray = false ∧
        ∃ record ∈ linkedRecords value, (below inner record).isNull
  cascadeNull :=
    field.nullable = false ∧ ∃ inner, field.selection = some inner ∧ value.isArray = true ∧
      ∃ record ∈ linkedRecords value, (below inner record).isNull

structure FieldValueResult.Reports (result : FieldValueResult) (flags : LinkFlags) : Prop where
  hasData : result.hasData = true ↔ flags.hasData
  isPartial : result.isPartial = true ↔ flags.isPartial
  stale : result.stale = true ↔ flags.stale
  isNull : result.value = .null ↔ flags.isNull
  cascadeNull : result.cascadeNull = true ↔ flags.cascadeNull

section Fields

variable {context : ReadContext} {invariant : InMemoryStorage → Prop}
  {below : SubscriptionSelection → String → ReadFlags}

theorem readValue_reports {read : SubscriptionSelection → String → ReadM SelectionResult}
    {field : SelectionField} {value : GraphQLValue}
    (reads : ∀ inner, field.selection = some inner → ∀ record ∈ linkedRecords value,
      ReadsAs invariant (below inner record) (read inner record))
    {storage next : InMemoryStorage} {result : FieldValueResult} (holds : invariant storage)
    (success : readValue context read field value storage = .ok result next) :
    invariant next ∧ result.Reports (linkFlags context field value below) := by
  cases nested : field.selection with
  | none =>
      have scalar (defined : value ≠ .undefined) (notNull : value ≠ .null)
          (run : readValue context read field value storage =
            .ok { value := unmarshalScalar context.config field.type value, hasData := true }
              storage) :
          invariant next ∧ result.Reports (linkFlags context field value below) := by
        rw [run] at success
        cases success
        exact ⟨holds, by simp [linkFlags, nested, defined], by simp [linkFlags, nested],
          by simp [linkFlags, nested], by simp [linkFlags, nested, defined, notNull],
          by simp [linkFlags, nested]⟩
      unfold readValue at success scalar
      cases value with
      | undefined =>
          obtain ⟨rfl, rfl⟩ := EStateM.pure_eq_ok success
          exact ⟨holds, by simp [linkFlags, nested], by simp [linkFlags, nested],
            by simp [linkFlags, nested], by simp [linkFlags], by simp [linkFlags, nested]⟩
      | null =>
          obtain ⟨rfl, rfl⟩ := EStateM.pure_eq_ok success
          exact ⟨holds, by simp [linkFlags], by simp [linkFlags, nested],
            by simp [linkFlags, nested], by simp [linkFlags], by simp [linkFlags, nested]⟩
      | boolean | number | string | array | object | component =>
          exact scalar nofun nofun (by simp only [nested]; rfl)
  | some inner =>
      have reads := reads inner nested
      have link (record : String) (linked : linkedRecords value = [record])
          (direct : directRecords value = [record]) (notArray : value.isArray = false)
          (defined : value ≠ .undefined) (notNull : value ≠ .null)
          (run : readValue context read field value storage = (do
            let object ← read inner record
            return ({ value := object.data, isPartial := object.isPartial,
                      stale := object.stale, hasData := object.hasData } : FieldValueResult))
            storage) :
          invariant next ∧ result.Reports (linkFlags context field value below) := by
        rw [run] at success
        obtain ⟨object, middle, first, last⟩ := EStateM.bind_eq_ok success
        obtain ⟨kept, reports⟩ := reads record (by simp [linked]) storage object middle holds first
        obtain ⟨rfl, rfl⟩ := EStateM.pure_eq_ok last
        have notList : value ≠ .array [] := by
          intro same
          rw [same] at notArray
          cases notArray
        refine ⟨kept, ?_, ?_, ?_, ?_, ?_⟩
        · simp [linkFlags, nested, direct, reports.hasData, notNull, notList]
        · simp [linkFlags, nested, linked, reports.isPartial]
        · simp [linkFlags, nested, direct, reports.stale]
        · simp [linkFlags, nested, linked, reports.isNull, defined, notNull, notArray]
        · simp [linkFlags, nested, notArray]
      unfold readValue at success link
      cases value with
      | undefined =>
          obtain ⟨rfl, rfl⟩ := EStateM.pure_eq_ok success
          exact ⟨holds, by simp [linkFlags, nested, directRecords],
            by simp [linkFlags, nested, linkedRecords],
            by simp [linkFlags, nested, directRecords], by simp [linkFlags],
            by simp [linkFlags, nested, GraphQLValue.isArray]⟩
      | null =>
          obtain ⟨rfl, rfl⟩ := EStateM.pure_eq_ok success
          exact ⟨holds, by simp [linkFlags], by simp [linkFlags, nested, linkedRecords],
            by simp [linkFlags, nested, directRecords], by simp [linkFlags],
            by simp [linkFlags, nested, GraphQLValue.isArray]⟩
      | array items =>
          simp only [nested] at success
          obtain ⟨list, middle, first, last⟩ := EStateM.bind_eq_ok success
          obtain ⟨kept, reports⟩ := hydrateNestedList_reports items reads holds first
          obtain ⟨rfl, rfl⟩ := EStateM.pure_eq_ok last
          refine ⟨kept, ?_, ?_, ?_, ?_, ?_⟩
          · simp [linkFlags, nested, directRecords, reports.hasData, or_comm]
          · simp [linkFlags, nested, linkedRecords, reports.isPartial]
          · simp [linkFlags, nested, directRecords, reports.stale]
          · simp [linkFlags, nested, GraphQLValue.isArray]
          · simp [linkFlags, nested, linkedRecords, GraphQLValue.isArray, reports.cascadeNull]
      | boolean | number | string | object | component =>
          exact link _ rfl rfl rfl nofun nofun (by simp only [nested])

/-- What the object reports about one of its fields. -/
structure EntryFlags where
  hasData : Prop
  isPartial : Prop
  stale : Prop
  cascadeNull : Prop

def entryFlags (context : ReadContext) (stepsFromConnection : Option Nat) (parent : String)
    (field : SelectionField) (value : GraphQLValue)
    (below : Option Nat → SubscriptionSelection → String → ReadFlags) : EntryFlags :=
  let cursor := embeddedCursor (field.key context.vars) stepsFromConnection
  let link := linkFlags context field value (below (nextStep field stepsFromConnection))
  { hasData := link.hasData
    isPartial := (value = .undefined ∧ cursor = false) ∨ link.isPartial
    stale := context.staleManager.isStale parent (field.key context.vars) = true ∨ link.stale
    cascadeNull :=
      link.cascadeNull ∨
        (link.isNull ∧ field.nullable = false ∧ cursor = false ∧ field.abstractHasRequired = false) }

def SameRead (context : ReadContext) (field : SelectionField) (value other : GraphQLValue) : Prop :=
  value = other ∨
    (field.selection = none ∧ context.config.unmarshal field.type = none ∧
      value.isComponent = true ∧ other.isComponent = true)

private theorem attachListID_eq_null {parent : String} {field : SelectionField}
    {value : GraphQLValue} : attachListID parent field value = .null ↔ value = .null := by
  unfold attachListID
  cases value with
  | object fields =>
      dsimp only
      split
      · split <;> simp
      · simp
  | _ => simp

private theorem linkFlags_component {field : SelectionField} {value : GraphQLValue}
    (scalar : field.selection = none) (plain : context.config.unmarshal field.type = none)
    (component : value.isComponent = true) :
    linkFlags context field value below = ⟨True, False, False, False, False⟩ := by
  cases value <;> simp_all [GraphQLValue.isComponent, linkFlags, unmarshalScalar]

private theorem SameRead.entryFlags_eq {stepsFromConnection : Option Nat} {parent : String}
    {field : SelectionField} {value other : GraphQLValue}
    {below : Option Nat → SubscriptionSelection → String → ReadFlags}
    (same : SameRead context field value other) :
    entryFlags context stepsFromConnection parent field value below =
      entryFlags context stepsFromConnection parent field other below := by
  obtain rfl | ⟨scalar, plain, component, otherComponent⟩ := same
  · rfl
  · unfold entryFlags
    rw [linkFlags_component scalar plain component, linkFlags_component scalar plain otherComponent]
    have defined : value ≠ .undefined := by
      rintro rfl
      cases component
    have otherDefined : other ≠ .undefined := by
      rintro rfl
      cases otherComponent
    simp [defined, otherDefined]

structure SelectionState.Adds (final state : SelectionState) (flags : SelectionField → EntryFlags)
    (read : List SelectionField) : Prop where
  hasData : final.hasData = true ↔
    state.hasData = true ∨ ∃ field ∈ read, (flags field).hasData
  isPartial : final.isPartial = true ↔
    state.isPartial = true ∨ ∃ field ∈ read, (flags field).isPartial
  stale : final.stale = true ↔
    state.stale = true ∨ ∃ field ∈ read, (flags field).stale
  cascadeNull : final.cascadeNull = true ↔
    state.cascadeNull = true ∨ ∃ field ∈ read, (flags field).cascadeNull

private theorem SelectionState.Adds.trans {first second third : SelectionState}
    {flags : SelectionField → EntryFlags} {earlier later : List SelectionField}
    (here : second.Adds first flags earlier) (there : third.Adds second flags later) :
    third.Adds first flags (earlier ++ later) where
  hasData := by
    simp only [there.hasData, here.hasData, List.mem_append, or_and_right, exists_or, or_assoc]
  isPartial := by
    simp only [there.isPartial, here.isPartial, List.mem_append, or_and_right, exists_or, or_assoc]
  stale := by
    simp only [there.stale, here.stale, List.mem_append, or_and_right, exists_or, or_assoc]
  cascadeNull := by
    simp only [there.cascadeNull, here.cascadeNull, List.mem_append, or_and_right, exists_or,
      or_assoc]

def ReadContext.fieldsRead (context : ReadContext) (fields : FieldSelections) :
    List SelectionField :=
  (fields.map Prod.snd).filter context.reads

variable {read : Option Nat → SubscriptionSelection → String → ReadM SelectionResult}
  {flags : Option Nat → SubscriptionSelection → String → ReadFlags}
  {stepsFromConnection : Option Nat} {parent : String} {shown : SelectionField → GraphQLValue}

structure FieldReads (context : ReadContext) (invariant : InMemoryStorage → Prop)
    (read : Option Nat → SubscriptionSelection → String → ReadM SelectionResult)
    (flags : Option Nat → SubscriptionSelection → String → ReadFlags)
    (stepsFromConnection : Option Nat) (parent : String) (field : SelectionField)
    (shown : GraphQLValue) : Prop where
  stored : ∀ storage value next, invariant storage →
    readStored context parent field storage = .ok value next →
      invariant next ∧ SameRead context field value shown
  linked : ∀ inner, field.selection = some inner → ∀ record ∈ linkedRecords shown,
    ReadsAs invariant (flags (nextStep field stepsFromConnection) inner record)
      (read (nextStep field stepsFromConnection) inner record)

theorem readField_adds {entry : String × SelectionField} {state final : SelectionState}
    (reads : context.reads entry.2 = true → FieldReads context invariant read flags
      stepsFromConnection parent entry.2 (shown entry.2))
    {storage next : InMemoryStorage} (holds : invariant storage)
    (success : readField context read stepsFromConnection parent state entry storage =
      .ok final next) :
    invariant next ∧ final.Adds state
      (fun field => entryFlags context stepsFromConnection parent field (shown field) flags)
      (context.fieldsRead [entry]) := by
  obtain ⟨name, field⟩ := entry
  unfold readField at success
  dsimp only at success reads
  cases visited : context.reads field with
  | false =>
      simp only [visited, Bool.not_false, if_true] at success
      obtain ⟨rfl, rfl⟩ := EStateM.pure_eq_ok success
      exact ⟨holds, by simp [ReadContext.fieldsRead, visited],
        by simp [ReadContext.fieldsRead, visited], by simp [ReadContext.fieldsRead, visited],
        by simp [ReadContext.fieldsRead, visited]⟩
  | true =>
      simp only [visited, Bool.not_true, Bool.false_eq_true, if_false] at success
      have reads := reads visited
      obtain ⟨value, middle, first, others⟩ := EStateM.bind_eq_ok success
      obtain ⟨keptStored, same⟩ := reads.stored storage value middle holds first
      obtain ⟨result, last, second, finish⟩ := EStateM.bind_eq_ok others
      obtain ⟨rfl, rfl⟩ := EStateM.pure_eq_ok finish
      have linked : ∀ inner, field.selection = some inner → ∀ record ∈ linkedRecords value,
          ReadsAs invariant (flags (nextStep field stepsFromConnection) inner record)
            (read (nextStep field stepsFromConnection) inner record) := by
        intro inner nested record member
        obtain rfl | ⟨scalar, _⟩ := same
        · exact reads.linked inner nested record member
        · rw [scalar] at nested
          cases nested
      obtain ⟨kept, reports⟩ := readValue_reports linked keptStored second
      have only : context.fieldsRead [(name, field)] = [field] := by
        simp [ReadContext.fieldsRead, visited]
      rw [only]
      refine ⟨kept, ?_, ?_, ?_, ?_⟩
      · simp only [Bool.or_eq_true, reports.hasData, List.mem_singleton, exists_eq_left,
          ← same.entryFlags_eq]
        rfl
      · simp only [Bool.or_eq_true, reports.isPartial, List.mem_singleton,
          exists_eq_left, ← same.entryFlags_eq, Bool.and_eq_true, Bool.not_eq_true',
          GraphQLValue.isDefined_eq_false_iff, or_assoc]
        rfl
      · simp only [Bool.or_eq_true, reports.stale, List.mem_singleton, exists_eq_left,
          ← same.entryFlags_eq, or_assoc]
        rfl
      · simp only [Bool.or_eq_true, Bool.and_eq_true, Bool.not_eq_true', beq_iff_eq,
          attachListID_eq_null, reports.isNull, reports.cascadeNull, List.mem_singleton,
          exists_eq_left, ← same.entryFlags_eq, or_assoc, and_assoc]
        rfl

theorem readFields_adds {fields : FieldSelections} {state final : SelectionState}
    (reads : ∀ entry ∈ fields, context.reads entry.2 = true → FieldReads context invariant read
      flags stepsFromConnection parent entry.2 (shown entry.2))
    {storage next : InMemoryStorage} (holds : invariant storage)
    (success : readFields context read stepsFromConnection parent fields state storage =
      .ok final next) :
    invariant next ∧ final.Adds state
      (fun field => entryFlags context stepsFromConnection parent field (shown field) flags)
      (context.fieldsRead fields) := by
  induction fields generalizing state storage with
  | nil =>
      obtain ⟨rfl, rfl⟩ := EStateM.pure_eq_ok success
      exact ⟨holds, by simp [ReadContext.fieldsRead], by simp [ReadContext.fieldsRead],
        by simp [ReadContext.fieldsRead], by simp [ReadContext.fieldsRead]⟩
  | cons entry rest ih =>
      unfold readFields at success
      obtain ⟨middle, between, first, others⟩ := EStateM.bind_eq_ok success
      obtain ⟨kept, adds⟩ := readField_adds (reads entry List.mem_cons_self) holds first
      obtain ⟨keptAll, addsRest⟩ :=
        ih (fun other member => reads other (List.mem_cons_of_mem _ member)) kept others
      have all := adds.trans addsRest
      rw [ReadContext.fieldsRead, ReadContext.fieldsRead, ← List.filter_append,
        ← List.map_append] at all
      exact ⟨keptAll, all⟩

theorem getSelection_reports {selection : SubscriptionSelection} {typename : Option String}
    (types : ∀ storage found next, invariant storage →
      readTypename parent storage = .ok found next → invariant next ∧ found = typename)
    (reads : ∀ fields, getFieldsForType selection typename = some fields → ∀ entry ∈ fields,
      context.reads entry.2 = true → FieldReads context invariant (getSelection context)
        flags stepsFromConnection parent entry.2 (shown entry.2))
    {storage next : InMemoryStorage} {result : SelectionResult} (holds : invariant storage)
    (success : getSelection context stepsFromConnection selection parent storage =
      .ok result next) :
    invariant next ∧ ∃ fields, getFieldsForType selection typename = some fields ∧
      let entry (field : SelectionField) : EntryFlags :=
        entryFlags context stepsFromConnection parent field (shown field) flags
      let hasData : Prop :=
        selection.fragments.isSome = true ∨ ∃ field ∈ context.fieldsRead fields, (entry field).hasData
      result.Reports
        { hasData
          isPartial := hasData ∧ ∃ field ∈ context.fieldsRead fields, (entry field).isPartial
          stale := hasData ∧ ∃ field ∈ context.fieldsRead fields, (entry field).stale
          isNull := ∃ field ∈ context.fieldsRead fields, (entry field).cascadeNull } := by
  rw [getSelection_eq] at success
  obtain ⟨found, middle, first, others⟩ := EStateM.bind_eq_ok success
  obtain ⟨keptType, rfl⟩ := types storage found middle holds first
  cases typed : getFieldsForType selection found with
  | none =>
      simp only [typed] at others
      exact absurd others EStateM.throw_ne_ok
  | some fields =>
      simp only [typed] at others
      obtain ⟨final, last, second, finish⟩ := EStateM.bind_eq_ok others
      obtain ⟨kept, adds⟩ := readFields_adds (reads fields typed) keptType second
      obtain ⟨rfl, rfl⟩ := EStateM.pure_eq_ok finish
      have startData : (SelectionState.start selection context.vars parent).hasData = true ↔
          selection.fragments.isSome = true := by
        unfold SelectionState.start
        cases selection.fragments <;> simp
      have startPartial : (SelectionState.start selection context.vars parent).isPartial = false := by
        unfold SelectionState.start
        cases selection.fragments <;> rfl
      have startStale : (SelectionState.start selection context.vars parent).stale = false := by
        unfold SelectionState.start
        cases selection.fragments <;> rfl
      have startNull : (SelectionState.start selection context.vars parent).cascadeNull = false := by
        unfold SelectionState.start
        cases selection.fragments <;> rfl
      have data := adds.hasData
      have isPartial := adds.isPartial
      have stale := adds.stale
      have cascadeNull := adds.cascadeNull
      rw [startData] at data
      rw [startPartial] at isPartial
      rw [startStale] at stale
      rw [startNull] at cascadeNull
      refine ⟨kept, fields, rfl, data, ?_, ?_, ?_⟩
      · simp only [SelectionState.result, Bool.and_eq_true, data, isPartial, Bool.false_eq_true,
          false_or]
      · simp only [SelectionState.result, Bool.and_eq_true, data, stale, Bool.false_eq_true,
          false_or]
      · simp only [Bool.false_eq_true, false_or] at cascadeNull
        rw [← cascadeNull]
        unfold SelectionState.result
        cases final.cascadeNull <;> simp

end Fields

end Houdini.Runtime.Cache
