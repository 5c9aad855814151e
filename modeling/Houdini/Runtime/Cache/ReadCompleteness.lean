import Houdini.Runtime.Cache.ReadingProperties
import Houdini.Runtime.Cache.StorageWrites

/-! When a read that reports complete data has visited no missing field. -/

set_option autoImplicit false

namespace Houdini.Runtime.Cache

/-- A record, the selection that it is read with, and how far the last connection is. -/
structure Visit where
  stepsFromConnection : Option Nat
  selection : SubscriptionSelection
  record : String

namespace Visit

section Stored

variable (context : ReadContext) (storage : InMemoryStorage)

def fields (visit : Visit) : List SelectionField :=
  match getFieldsForType visit.selection (storage.typename visit.record) with
  | none => []
  | some fields => (fields.map Prod.snd).filter (·.included context.vars)

/-- What a field of the record holds. A component field is filled in, unless there is
no layer at all. -/
def shown (record : String) (field : SelectionField) : GraphQLValue :=
  match field.component with
  | none => storage.value record (field.key context.vars)
  | some component =>
      if storage.data.isEmpty then .undefined
      else defaultComponentField component context.vars record

def Cursor (visit : Visit) (field : SelectionField) : Prop :=
  embeddedCursor (field.key context.vars) visit.stepsFromConnection = true

inductive Follows : Visit → Visit → Prop
  | link {visit : Visit} {field : SelectionField} {inner : SubscriptionSelection} {record : String}
      (member : field ∈ visit.fields context storage) (nested : field.selection = some inner)
      (linked : record ∈ linkedRecords (shown context storage visit.record field)) :
      Follows visit ⟨nextStep field visit.stepsFromConnection, inner, record⟩

def Missing (visit : Visit) : Prop :=
  ∃ field ∈ visit.fields context storage, field.component = none ∧
    storage.value visit.record (field.key context.vars) = .undefined ∧
    ¬ visit.Cursor context field

def Complete (root : Visit) : Prop :=
  ∀ visit, Relation.ReflTransGen (Follows context storage) root visit →
    ¬ visit.Missing context storage

/-- The record holds something of its selection: a fragment, a value, `null` or an empty
list, or a link, not inside of an inner list, to a record that holds something. -/
inductive Holds : Visit → Prop
  | fragments {visit : Visit} (spread : visit.selection.fragments.isSome = true) : Holds visit
  | value {visit : Visit} {field : SelectionField} (member : field ∈ visit.fields context storage)
      (ends : shown context storage visit.record field = .null ∨
        shown context storage visit.record field = .array [] ∨
        (shown context storage visit.record field ≠ .undefined ∧ field.selection = none)) :
      Holds visit
  | link {visit : Visit} {field : SelectionField} {inner : SubscriptionSelection} {record : String}
      (member : field ∈ visit.fields context storage) (nested : field.selection = some inner)
      (linked : record ∈ directRecords (shown context storage visit.record field))
      (holds : Holds ⟨nextStep field visit.stepsFromConnection, inner, record⟩) : Holds visit

/-- A missing field is reached through records that all hold something. -/
inductive Reveals : Visit → Prop
  | here {visit : Visit} {field : SelectionField} (member : field ∈ visit.fields context storage)
      (missing : shown context storage visit.record field = .undefined)
      (ordinary : ¬ visit.Cursor context field)
      (holds : Holds context storage visit) : Reveals visit
  | link {visit next : Visit} (follows : Follows context storage visit next)
      (holds : Holds context storage visit) (reveals : Reveals next) :
      Reveals visit

def Stale (visit : Visit) (field : SelectionField) : Prop :=
  context.staleManager.isStale visit.record (field.key context.vars) = true

/-- A stale field is reached through records that all hold something, not inside of an
inner list. -/
inductive TellsStale : Visit → Prop
  | here {visit : Visit} {field : SelectionField} (member : field ∈ visit.fields context storage)
      (stale : visit.Stale context field) (holds : Holds context storage visit) : TellsStale visit
  | link {visit : Visit} {field : SelectionField} {inner : SubscriptionSelection} {record : String}
      (member : field ∈ visit.fields context storage) (nested : field.selection = some inner)
      (linked : record ∈ directRecords (shown context storage visit.record field))
      (holds : Holds context storage visit)
      (tells : TellsStale ⟨nextStep field visit.stepsFromConnection, inner, record⟩) :
      TellsStale visit

/-- `null` for this field makes its object `null`. -/
def Required (visit : Visit) (field : SelectionField) : Prop :=
  field.nullable = false ∧ field.abstractHasRequired = false ∧ ¬ visit.Cursor context field

/-- The object of the record is `null` because of a field that must not be. -/
inductive Nulled : Visit → Prop
  | value {visit : Visit} {field : SelectionField} (member : field ∈ visit.fields context storage)
      (required : visit.Required context field)
      (null : shown context storage visit.record field = .undefined ∨
        shown context storage visit.record field = .null ∨
        (field.selection = none ∧ unmarshalScalar context.config field.type
          (shown context storage visit.record field) = .null)) : Nulled visit
  | link {visit : Visit} {field : SelectionField} {inner : SubscriptionSelection} {record : String}
      (member : field ∈ visit.fields context storage) (nested : field.selection = some inner)
      (required : visit.Required context field)
      (single : (shown context storage visit.record field).isArray = false)
      (linked : record ∈ linkedRecords (shown context storage visit.record field))
      (null : Nulled ⟨nextStep field visit.stepsFromConnection, inner, record⟩) : Nulled visit
  | list {visit : Visit} {field : SelectionField} {inner : SubscriptionSelection} {record : String}
      (member : field ∈ visit.fields context storage) (nested : field.selection = some inner)
      (required : field.nullable = false)
      (list : (shown context storage visit.record field).isArray = true)
      (linked : record ∈ linkedRecords (shown context storage visit.record field))
      (null : Nulled ⟨nextStep field visit.stepsFromConnection, inner, record⟩) : Nulled visit

def flags (stepsFromConnection : Option Nat) (selection : SubscriptionSelection)
    (record : String) : ReadFlags where
  hasData := Holds context storage ⟨stepsFromConnection, selection, record⟩
  isPartial := Reveals context storage ⟨stepsFromConnection, selection, record⟩
  stale := TellsStale context storage ⟨stepsFromConnection, selection, record⟩
  isNull := Nulled context storage ⟨stepsFromConnection, selection, record⟩

def ComponentCell (root : Visit) (id key : String) : Prop :=
  ∃ visit, Relation.ReflTransGen (Follows context storage) root visit ∧
    ∃ field ∈ visit.fields context storage, field.component.isSome = true ∧
      key = field.key context.vars ∧ (storage.recordIDs visit.record).head? = some id

/-- Component fields have cache keys of their own, where only components are stored. -/
structure ComponentsApart (root : Visit) : Prop where
  scalar : ∀ visit, Relation.ReflTransGen (Follows context storage) root visit →
    ∀ field ∈ visit.fields context storage, field.component.isSome = true →
      field.selection = none ∧ context.config.unmarshal field.type = none
  typename : ∀ id, ¬ ComponentCell context storage root id "__typename"
  apart : ∀ visit, Relation.ReflTransGen (Follows context storage) root visit →
    ∀ field ∈ visit.fields context storage, field.component = none →
      ∀ id ∈ storage.recordIDs visit.record,
        ¬ ComponentCell context storage root id (field.key context.vars)
  stored : ∀ id key, ComponentCell context storage root id key →
    ∀ layer ∈ storage.data.getLast?,
      layer.value id key = .undefined ∨ (layer.value id key).isComponent = true

end Stored

section Flags

variable {context : ReadContext} {storage : InMemoryStorage}

theorem fields_of_some {visit : Visit} {fields : FieldSelections}
    (full : context.fullCheck = true)
    (found : getFieldsForType visit.selection (storage.typename visit.record) = some fields) :
    context.fieldsRead fields = visit.fields context storage := by
  unfold Visit.fields ReadContext.fieldsRead
  rw [found]
  refine List.filter_congr fun field _ => ?_
  simp [ReadContext.reads, full]

theorem mem_selection_of_mem_fields {visit : Visit} {field : SelectionField}
    (concrete : visit.selection.abstractFields = none)
    (member : field ∈ visit.fields context storage) :
    ∃ name, (name, field) ∈ visit.selection.fields := by
  have typed : getFieldsForType visit.selection (storage.typename visit.record) =
      some visit.selection.fields := by
    unfold getFieldsForType
    rw [concrete]
  unfold Visit.fields at member
  rw [typed] at member
  obtain ⟨⟨name, _⟩, listed, rfl⟩ := List.mem_map.mp (List.mem_filter.mp member).1
  exact ⟨name, listed⟩

def entry (context : ReadContext) (storage : InMemoryStorage) (visit : Visit)
    (field : SelectionField) : EntryFlags :=
  entryFlags context visit.stepsFromConnection visit.record field
    (shown context storage visit.record field) (flags context storage)

theorem holds_iff {visit : Visit} :
    Holds context storage visit ↔
      visit.selection.fragments.isSome = true ∨
        ∃ field ∈ visit.fields context storage, (visit.entry context storage field).hasData := by
  constructor
  · intro holds
    cases holds with
    | fragments spread => exact .inl spread
    | value member ends =>
        refine .inr ⟨_, member, ?_⟩
        obtain null | empty | scalar := ends
        · exact .inl null
        · exact .inr (.inl empty)
        · exact .inr (.inr (.inl scalar))
    | link member nested linked holds =>
        exact .inr ⟨_, member, .inr (.inr (.inr ⟨_, nested, _, linked, holds⟩))⟩
  · intro reported
    obtain spread | ⟨field, member, null | empty | scalar | ⟨inner, nested, record, linked, holds⟩⟩ :=
      reported
    · exact .fragments spread
    · exact .value member (.inl null)
    · exact .value member (.inr (.inl empty))
    · exact .value member (.inr (.inr scalar))
    · exact .link member nested linked holds

theorem reveals_iff {visit : Visit} :
    Reveals context storage visit ↔
      Holds context storage visit ∧
        ∃ field ∈ visit.fields context storage, (visit.entry context storage field).isPartial := by
  constructor
  · intro reveals
    cases reveals with
    | here member missing ordinary holds =>
        exact ⟨holds, _, member, .inl ⟨missing, Bool.eq_false_iff.mpr ordinary⟩⟩
    | link follows holds reveals =>
        cases follows with
        | link member nested linked =>
            exact ⟨holds, _, member, .inr ⟨_, nested, _, linked, reveals⟩⟩
  · intro reported
    obtain ⟨holds, field, member, ⟨missing, ordinary⟩ | ⟨inner, nested, record, linked, reveals⟩⟩ :=
      reported
    · exact .here member missing (Bool.eq_false_iff.mp ordinary) holds
    · exact .link (.link member nested linked) holds reveals

theorem tellsStale_iff {visit : Visit} :
    TellsStale context storage visit ↔
      Holds context storage visit ∧
        ∃ field ∈ visit.fields context storage, (visit.entry context storage field).stale := by
  constructor
  · intro tells
    cases tells with
    | here member stale holds => exact ⟨holds, _, member, .inl stale⟩
    | link member nested linked holds tells =>
        exact ⟨holds, _, member, .inr ⟨_, nested, _, linked, tells⟩⟩
  · intro reported
    obtain ⟨holds, field, member, stale | ⟨inner, nested, record, linked, tells⟩⟩ := reported
    · exact .here member stale holds
    · exact .link member nested linked holds tells

theorem nulled_iff {visit : Visit} :
    Nulled context storage visit ↔
      ∃ field ∈ visit.fields context storage, (visit.entry context storage field).cascadeNull := by
  constructor
  · intro nulled
    cases nulled with
    | value member required null =>
        obtain ⟨nullable, abstractHasRequired, ordinary⟩ := required
        refine ⟨_, member, .inr ⟨?_, nullable, Bool.eq_false_iff.mpr ordinary, abstractHasRequired⟩⟩
        obtain missing | null | scalar := null
        · exact .inl missing
        · exact .inr (.inl null)
        · exact .inr (.inr (.inl scalar))
    | link member nested required single linked null =>
        obtain ⟨nullable, abstractHasRequired, ordinary⟩ := required
        exact ⟨_, member, .inr ⟨.inr (.inr (.inr ⟨_, nested, single, _, linked, null⟩)), nullable,
          Bool.eq_false_iff.mpr ordinary, abstractHasRequired⟩⟩
    | list member nested required list linked null =>
        exact ⟨_, member, .inl ⟨required, _, nested, list, _, linked, null⟩⟩
  · intro reported
    obtain ⟨field, member, ⟨required, inner, nested, list, record, linked, null⟩ |
      ⟨isNull, nullable, ordinary, abstractHasRequired⟩⟩ := reported
    · exact .list member nested required list linked null
    · have required : visit.Required context field :=
        ⟨nullable, abstractHasRequired, Bool.eq_false_iff.mp ordinary⟩
      obtain missing | null | scalar | ⟨inner, nested, single, record, linked, null⟩ := isNull
      · exact .value member required (.inl missing)
      · exact .value member required (.inr (.inl null))
      · exact .value member required (.inr (.inr scalar))
      · exact .link member nested required single linked null

end Flags

section Root

variable {context : ReadContext} {storage : InMemoryStorage} {root : Visit}

/-- The storage, after a part of the read from the root, still reads as it did before. -/
structure ReadsAlike (context : ReadContext) (storage : InMemoryStorage) (root : Visit)
    (current : InMemoryStorage) : Prop where
  distinct : current.DistinctLayers
  empty : current.data.isEmpty = storage.data.isEmpty
  idMaps : current.idMaps = storage.idMaps
  value : ∀ record key,
    (∀ id ∈ storage.recordIDs record, ¬ ComponentCell context storage root id key) →
      current.value record key = storage.value record key
  typename : ∀ record, current.typename record = storage.typename record
  stored : ∀ id key, ComponentCell context storage root id key →
    ∀ layer ∈ current.data.getLast?,
      layer.value id key = .undefined ∨ (layer.value id key).isComponent = true

theorem ReadsAlike.refl (distinct : storage.DistinctLayers)
    (apart : ComponentsApart context storage root) : ReadsAlike context storage root storage where
  distinct := distinct
  empty := rfl
  idMaps := rfl
  value := fun _ _ _ => rfl
  typename := fun _ => rfl
  stored := apart.stored

theorem ReadsAlike.readTypename {current next : InMemoryStorage} {record : String}
    {found : Option String} (alike : ReadsAlike context storage root current)
    (success : readTypename record current = .ok found next) :
    ReadsAlike context storage root next ∧ found = storage.typename record := by
  have same : found = current.typename record ∧ next = (current.getTypename record).2 := by
    cases success
    exact ⟨rfl, rfl⟩
  obtain ⟨rfl, rfl⟩ := same
  obtain ⟨kept, types⟩ := current.getTypename_storage record
  refine ⟨?_, alike.typename record⟩
  rw [kept]
  exact {
    distinct := ⟨alike.distinct.nodup, alike.distinct.fresh⟩
    empty := alike.empty
    idMaps := alike.idMaps
    value := alike.value
    typename := by
      intro other
      rw [← kept]
      exact (types other).trans (alike.typename other)
    stored := alike.stored }

theorem ReadsAlike.recordIDs {current : InMemoryStorage}
    (alike : ReadsAlike context storage root current) (record : String) :
    current.recordIDs record = storage.recordIDs record := by
  unfold InMemoryStorage.recordIDs
  rw [alike.idMaps]

theorem ReadsAlike.writeField {current : InMemoryStorage} {id key : String} {value : GraphQLValue}
    (apart : ComponentsApart context storage root)
    (alike : ReadsAlike context storage root current)
    (cell : ComponentCell context storage root id key) (component : value.isComponent = true)
    (layered : current.data.isEmpty = false) :
    ReadsAlike context storage root (current.writeField id key value) where
  distinct := alike.distinct.writeField
  empty := by
    rw [← alike.empty, layered, ← Bool.not_eq_true, List.isEmpty_iff]
    intro empty
    have last := @InMemoryStorage.writeField_getLast? current id key value
    rw [empty] at last
    cases last
  idMaps := InMemoryStorage.writeField_idMaps.trans alike.idMaps
  value := by
    intro record name untouched
    refine (InMemoryStorage.value_writeField alike.distinct ?_).trans
      (alike.value record name untouched)
    intro hit
    obtain ⟨member, rfl⟩ := hit
    rw [alike.recordIDs] at member
    exact untouched id member cell
  typename := by
    intro record
    refine Eq.trans ?_ (alike.typename record)
    refine InMemoryStorage.typename_congr (by rw [InMemoryStorage.writeField_typenames]) ?_
    refine InMemoryStorage.value_writeField alike.distinct ?_
    intro hit
    rw [← hit.2] at cell
    exact apart.typename id cell
  stored := by
    intro other name otherCell layer last
    rw [InMemoryStorage.writeField_getLast?] at last
    cases last
    have before : current.topLayer.1.value other name = .undefined ∨
        (current.topLayer.1.value other name).isComponent = true := by
      obtain kept | blank := current.topLayer_value
      · exact alike.stored other name otherCell _ kept
      · exact .inl (blank other name)
    by_cases same : other = id ∧ name = key
    · obtain ⟨rfl, rfl⟩ := same
      obtain stored | kept := current.topLayer.1.value_writeField_self other name value
      · rw [stored]
        exact .inr component
      · rw [kept]
        exact before
    · rw [Layer.value_writeField_of_ne _ _ same]
      exact before

theorem ReadsAlike.readStored {current next : InMemoryStorage} {visit : Visit}
    {field : SelectionField} {value : GraphQLValue}
    (apart : ComponentsApart context storage root)
    (reached : Relation.ReflTransGen (Follows context storage) root visit)
    (member : field ∈ visit.fields context storage)
    (alike : ReadsAlike context storage root current)
    (success : readStored context visit.record field current = .ok value next) :
    ReadsAlike context storage root next ∧
      SameRead context field value (shown context storage visit.record field) := by
  unfold Cache.readStored at success
  unfold shown
  cases kind : field.component with
  | none =>
      rw [kind] at success
      cases success
      exact ⟨alike, .inl (alike.value _ _ (apart.apart visit reached field member kind))⟩
  | some component =>
      rw [kind] at success
      have isComponent : field.component.isSome = true := by rw [kind]; rfl
      obtain ⟨selection, unmarshal⟩ := apart.scalar visit reached field member isComponent
      obtain ⟨id, head⟩ := storage.recordIDs_head? visit.record
      have cell : ComponentCell context storage root id (field.key context.vars) :=
        ⟨visit, reached, field, member, isComponent, rfl, head⟩
      rw [← alike.recordIDs] at head
      dsimp only at success ⊢
      cases success
      have truthy : (defaultComponentField component context.vars visit.record).truthy = true := rfl
      obtain ⟨found, defined⟩ | ⟨filled, written, layer, last, missing⟩ :=
        InMemoryStorage.getOrWrite_cases head truthy
      · rw [found]
        refine ⟨alike, ?_⟩
        cases last : current.data.getLast? with
        | none =>
            have empty : current.data = [] := List.getLast?_eq_none_iff.mp last
            rw [← alike.empty, empty]
            refine .inl ?_
            unfold InMemoryStorage.get
            rw [empty]
            rfl
        | some layer =>
            have layered : storage.data.isEmpty = false := by
              rw [← alike.empty]
              cases stack : current.data with
              | nil =>
                  rw [stack] at last
                  cases last
              | cons => rfl
            have stored := (alike.stored id _ cell layer last).resolve_left (defined layer last)
            have notArray : (layer.value id (field.key context.vars)).isArray = false := by
              cases top : layer.value id (field.key context.vars) <;>
                simp_all [GraphQLValue.isComponent, GraphQLValue.isArray]
            have shown := InMemoryStorage.value_of_getLast? last head (defined layer last) notArray
            unfold InMemoryStorage.value at shown
            rw [layered, shown]
            exact .inr ⟨selection, unmarshal, stored, rfl⟩
      · have layered : current.data.isEmpty = false := by
          cases stack : current.data with
          | nil =>
              rw [stack] at last
              cases last
          | cons => rfl
        rw [filled, written, ← alike.empty, layered]
        exact ⟨alike.writeField apart cell rfl layered, .inl rfl⟩

theorem getSelection_flags {visit : Visit} (full : context.fullCheck = true)
    (apart : ComponentsApart context storage root)
    (reached : Relation.ReflTransGen (Follows context storage) root visit) :
    ReadsAs (ReadsAlike context storage root)
      (flags context storage visit.stepsFromConnection visit.selection visit.record)
      (getSelection context visit.stepsFromConnection visit.selection visit.record) := by
  induction depth : visit.selection.depth using Nat.strongRecOn generalizing visit with
  | ind depth ih =>
      intro current result next alike success
      have memberOf {fields : FieldSelections} {entry : String × SelectionField}
          (found : getFieldsForType visit.selection (storage.typename visit.record) = some fields)
          (member : entry ∈ fields) (reads : context.reads entry.2 = true) :
          entry.2 ∈ visit.fields context storage := by
        rw [← fields_of_some full found]
        exact List.mem_filter.mpr ⟨List.mem_map_of_mem member, reads⟩
      have reads : ∀ fields,
          getFieldsForType visit.selection (storage.typename visit.record) = some fields →
          ∀ entry ∈ fields, context.reads entry.2 = true →
            FieldReads context (ReadsAlike context storage root) (getSelection context)
              (flags context storage) visit.stepsFromConnection visit.record entry.2
              (shown context storage visit.record entry.2) := by
        intro fields found entry member visible
        have inSelection := memberOf found member visible
        constructor
        · intro _ _ _ holds looked
          exact holds.readStored apart reached inSelection looked
        · intro inner nested record linked
          have shallower := depth_lt_of_getFieldsForType found member nested
          rw [depth] at shallower
          have follows : Follows context storage visit _ := .link inSelection nested linked
          exact ih _ shallower (reached.tail follows) rfl
      obtain ⟨kept, fields, found, reports⟩ := getSelection_reports
        (fun _ _ _ holds looked => ReadsAlike.readTypename holds looked) reads alike success
      refine ⟨kept, ?_⟩
      rw [fields_of_some full found] at reports
      refine ⟨reports.hasData.trans holds_iff.symm, ?_, ?_, reports.isNull.trans nulled_iff.symm⟩
      · refine reports.isPartial.trans (Iff.trans ?_ reveals_iff.symm)
        exact and_congr holds_iff.symm Iff.rfl
      · refine reports.stale.trans (Iff.trans ?_ tellsStale_iff.symm)
        exact and_congr holds_iff.symm Iff.rfl

theorem ComponentsApart.of_none
    (none : ∀ visit, Relation.ReflTransGen (Follows context storage) root visit →
      ∀ field ∈ visit.fields context storage, field.component = none) :
    ComponentsApart context storage root := by
  have noCell (id key : String) : ¬ ComponentCell context storage root id key := by
    intro cell
    obtain ⟨visit, reached, field, member, component, _⟩ := cell
    rw [none visit reached field member] at component
    cases component
  constructor
  · intro visit reached field member component
    rw [none visit reached field member] at component
    cases component
  · exact fun id => noCell id _
  · exact fun _ _ _ _ _ id _ => noCell id _
  · exact fun id key cell => absurd cell (noCell id key)

/-- Nor is there among selections without component and abstract fields that are closed
under the selections of their fields. -/
theorem ComponentsApart.of_closed {plain : SubscriptionSelection → Prop}
    (start : plain root.selection)
    (concrete : ∀ selection, plain selection → selection.abstractFields = none)
    (closed : ∀ selection, plain selection → ∀ entry ∈ selection.fields,
      entry.2.component = none ∧ ∀ inner, entry.2.selection = some inner → plain inner) :
    ComponentsApart context storage root := by
  have visited {visit : Visit}
      (reached : Relation.ReflTransGen (Follows context storage) root visit) :
      plain visit.selection := by
    induction reached with
    | refl => exact start
    | tail _ follows ih =>
        cases follows with
        | link member nested _ =>
            obtain ⟨name, listed⟩ := mem_selection_of_mem_fields (concrete _ ih) member
            exact (closed _ ih _ listed).2 _ nested
  refine .of_none fun visit reached field member => ?_
  obtain ⟨name, listed⟩ := mem_selection_of_mem_fields (concrete _ (visited reached)) member
  exact (closed _ (visited reached) _ listed).1

end Root

end Visit

open Visit

variable {context : ReadContext} {storage next : InMemoryStorage}
  {selection : SubscriptionSelection} {parent : String} {result : ReadResult}

theorem read_answers (full : context.fullCheck = true) (distinct : storage.DistinctLayers)
    (apart : ComponentsApart context storage ⟨none, selection, parent⟩)
    (success : read context selection parent none storage = .ok result next) :
    (result.data ≠ .null ↔ Holds context storage ⟨none, selection, parent⟩ ∧
      ¬ Nulled context storage ⟨none, selection, parent⟩) ∧
    (result.isPartial = true ↔ Reveals context storage ⟨none, selection, parent⟩) ∧
    (result.stale = true ↔ TellsStale context storage ⟨none, selection, parent⟩) := by
  obtain ⟨object, middle, first, last⟩ := EStateM.bind_eq_ok success
  have alike : ReadsAlike context storage ⟨none, selection, parent⟩ storage := .refl distinct apart
  obtain ⟨_, reports⟩ := getSelection_flags full apart .refl storage object middle alike first
  have needsData (reveals : Reveals context storage ⟨none, selection, parent⟩) :
      Holds context storage ⟨none, selection, parent⟩ := (reveals_iff.mp reveals).1
  have tellsData (tells : TellsStale context storage ⟨none, selection, parent⟩) :
      Holds context storage ⟨none, selection, parent⟩ := (tellsStale_iff.mp tells).1
  have hasData := reports.hasData
  have isPartial := reports.isPartial
  have stale := reports.stale
  have isNull := reports.isNull
  dsimp only [flags] at hasData isPartial stale isNull
  cases data : object.hasData with
  | true =>
      simp only [data, if_true] at last
      obtain ⟨rfl, rfl⟩ := EStateM.pure_eq_ok last
      have holds := hasData.mp data
      exact ⟨by rw [ne_eq, isNull]; exact (and_iff_right holds).symm, isPartial, stale⟩
  | false =>
      simp only [data, Bool.false_eq_true, if_false] at last
      obtain ⟨rfl, rfl⟩ := EStateM.pure_eq_ok last
      have blank : ¬ Holds context storage ⟨none, selection, parent⟩ := by
        rw [← hasData, data]
        exact Bool.false_ne_true
      refine ⟨?_, ?_, ?_⟩
      · exact ⟨fun notNull => absurd rfl notNull, fun holds => absurd holds.1 blank⟩
      · exact ⟨fun isPartial => absurd isPartial Bool.false_ne_true,
          fun reveals => absurd (needsData reveals) blank⟩
      · exact ⟨fun stale => absurd stale Bool.false_ne_true,
          fun tells => absurd (tellsData tells) blank⟩

/-- `{ id firstName }` -/
private def userSelection : SubscriptionSelection where
  fields := [
    ("id", { type := "ID", keyRaw := "id", visible := true }),
    ("firstName", { type := "String", keyRaw := "firstName", nullable := true, visible := true })]

private def viewerField : SelectionField where
  type := "User"
  keyRaw := "viewer"
  nullable := true
  visible := true
  selection := some userSelection

private def viewerSelection : SubscriptionSelection where
  fields := [
    ("version", { type := "String", keyRaw := "version", nullable := true, visible := true }),
    ("viewer", viewerField)]

private def viewerStorage (viewer : List (String × GraphQLValue)) : InMemoryStorage where
  data := [{
    id := 1
    fields := OrderedMap.ofList [(rootID, OrderedMap.ofList [("version", .string "2")]),
      ("User:1", OrderedMap.ofList viewer)]
    links := OrderedMap.ofList [(rootID, OrderedMap.ofList [("viewer", .string "User:1")])] }]
  idCount := 2

private theorem viewerSelection_apart (context : ReadContext) (storage : InMemoryStorage) :
    ComponentsApart context storage ⟨none, viewerSelection, rootID⟩ := by
  refine @ComponentsApart.of_closed _ _ _
    (fun selection => selection = viewerSelection ∨ selection = userSelection) (.inl rfl) ?_ ?_
  · intro selection same
    obtain rfl | rfl := same <;> rfl
  · intro selection same
    obtain rfl | rfl := same
    · simp [viewerSelection, viewerField]
    · simp [userSelection]

private theorem viewerStorage_distinct (viewer : List (String × GraphQLValue)) :
    (viewerStorage viewer).DistinctLayers where
  nodup := by simp [viewerStorage]
  fresh := by simp [viewerStorage]

end Houdini.Runtime.Cache
