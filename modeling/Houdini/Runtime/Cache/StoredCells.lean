import Houdini.Runtime.Cache.SettledWrites

/-! What an object stores when it is written, and where: a write leaves everything else as it
is. -/

set_option autoImplicit false

namespace Houdini.Runtime.Cache

mutual

def entryObjects : List GraphQLValue → List GraphQLObject
  | [] => []
  | entry :: rest => entryObject entry ++ entryObjects rest

def entryObject : GraphQLValue → List GraphQLObject
  | .array entries => entryObjects entries
  | .object data => [data]
  | _ => []

end

theorem entryObjects_map_object (objects : List GraphQLObject) :
    entryObjects (objects.map .object) = objects := by
  induction objects with
  | nil => rfl
  | cons data rest ih =>
      rw [List.map_cons, entryObjects, ih]
      rfl

def linkedField (field : SelectionField) (vars : GraphQLObject) (parent : String)
    (value : GraphQLValue) : LinkedField where
  parent
  key := field.key vars
  linkedType := linkedType field value
  abstract := field.abstract

mutual

/-- Writing an object to a record can do this to a field of some record. -/
inductive Stores (context : WriteContext) :
    SubscriptionSelection → String → GraphQLObject → String → String → CellWrite → Prop
  | property {selection : SubscriptionSelection} {parent : String} {data : GraphQLObject}
      {fields : FieldSelections} {name : String} {value : GraphQLValue} {field : SelectionField}
      {id key : String} {written : CellWrite}
      (typed : getFieldsForType selection (data.property "__typename").text? = some fields)
      (member : (name, value) ∈ data) (selected : fields.lookup name = some field)
      (stored : StoresValue context parent field value id key written) :
      Stores context selection parent data id key written

inductive StoresValue (context : WriteContext) :
    String → SelectionField → GraphQLValue → String → String → CellWrite → Prop
  | scalar {parent : String} {field : SelectionField} {value : GraphQLValue}
      (leaf : field.selection = none)
      (replaced : field.updates = none ∨ context.applyUpdates = none) :
      StoresValue context parent field value parent (field.key context.vars) (.scalar value)
  | updated {parent : String} {field : SelectionField} {value : GraphQLValue}
      (leaf : field.selection = none) (updates : field.updates ≠ none) (result : GraphQLValue) :
      StoresValue context parent field value parent (field.key context.vars) (.scalar result)
  | null {parent : String} {field : SelectionField} {selection : SubscriptionSelection}
      (branch : field.selection = some selection) :
      StoresValue context parent field .null parent (field.key context.vars) (.link .null)
  | object {parent : String} {field : SelectionField} {data : GraphQLObject}
      {selection : SubscriptionSelection} {id : Option String}
      (branch : field.selection = some selection)
      (linked : (linkedField field context.vars parent (.object data)).linkedID
        context.config data = .ok id) :
      StoresValue context parent field (.object data) parent (field.key context.vars)
        (.link ((id.map .string).getD .null))
  | withinObject {parent : String} {field : SelectionField} {data : GraphQLObject}
      {selection : SubscriptionSelection} {record id key : String} {written : CellWrite}
      (branch : field.selection = some selection)
      (linked : (linkedField field context.vars parent (.object data)).linkedID
        context.config data = .ok (some record))
      (stored : Stores context selection record data id key written) :
      StoresValue context parent field (.object data) id key written
  | list {parent : String} {field : SelectionField} {entries : List GraphQLValue}
      {selection : SubscriptionSelection} (branch : field.selection = some selection)
      (links : List GraphQLValue) :
      StoresValue context parent field (.array entries) parent (field.key context.vars)
        (.link (.array links))
  | withinList {parent : String} {field : SelectionField} {entries : List GraphQLValue}
      {data : GraphQLObject} {selection : SubscriptionSelection}
      {embedded record id key : String} {written : CellWrite}
      (branch : field.selection = some selection) (member : data ∈ entryObjects entries)
      (owned : (linkedField field context.vars parent (.array entries)).ownsEntry
        embedded = true)
      (linked : (linkedField field context.vars parent (.array entries)).entryID
        context.config embedded data = .ok (some record))
      (stored : Stores context selection record data id key written) :
      StoresValue context parent field (.array entries) id key written
  | lost {parent : String} {field : SelectionField} {entries : List GraphQLValue}
      {selection : SubscriptionSelection} {id : String}
      (branch : field.selection = some selection) (key : String)
      (owned : (linkedField field context.vars parent (.array entries)).ownsEntry
        id = true) :
      StoresValue context parent field (.array entries) id key .remove

end

def Closed (fine : String → String → FieldCell → Prop)
    (stores : String → String → CellWrite → Prop) : Prop :=
  ∀ id key written, stores id key written →
    ∀ cell, fine id key cell → fine id key (cell.after written)

/-- The store has a single layer, has given out some ranks, and every field is fine. -/
structure Keeping (layer : LayerID) (rank : Nat) (fine : String → String → FieldCell → Prop)
    (storage : InMemoryStorage) : Prop where
  settled : storage.Settled layer
  ranked : rank ≤ storage.rank
  fine : ∀ id key, fine id key (storage.cell id key)

section Keeping

variable {layer : LayerID} {rank : Nat} {fine : String → String → FieldCell → Prop}
  {storage : InMemoryStorage} (keeping : Keeping layer rank fine storage)

include keeping

theorem Keeping.putLink {id key : String} {value : GraphQLValue}
    (better : fine id key ((storage.cell id key).after (.link value))) :
    Keeping layer rank fine (storage.putLink id key value) where
  settled := keeping.settled.putLink id key value
  ranked := keeping.ranked
  fine := by
    intro other name
    rw [InMemoryStorage.cell_putLink]
    split
    · rename_i same
      obtain ⟨rfl, rfl⟩ := same
      exact better
    · exact keeping.fine other name

theorem Keeping.putScalar {id key : String} {value : GraphQLValue}
    (better : fine id key ((storage.cell id key).after (.scalar value))) :
    Keeping layer rank fine (storage.putScalar id key value) where
  settled := keeping.settled.putScalar id key value
  ranked := keeping.ranked
  fine := by
    intro other name
    rw [InMemoryStorage.cell_putScalar]
    split
    · rename_i same
      obtain ⟨rfl, rfl⟩ := same
      exact better
    · exact keeping.fine other name

theorem Keeping.withTypenames (typenames : OrderedMap String String) :
    Keeping layer rank fine { storage with typenames } where
  settled := keeping.settled.withTypenames typenames
  ranked := keeping.ranked
  fine := keeping.fine

theorem Keeping.nextRank : Keeping layer rank fine storage.nextRank.2 where
  settled := keeping.settled.nextRank
  ranked := Nat.le_succ_of_le keeping.ranked
  fine := keeping.fine

theorem Keeping.removeEmbeddedRecord {id : String} (better : ∀ key, fine id key {}) :
    Keeping layer rank fine (storage.removeEmbeddedRecord id) where
  settled := (keeping.settled.removeEmbeddedRecord id).1
  ranked := keeping.ranked
  fine := by
    intro other name
    rw [(keeping.settled.removeEmbeddedRecord id).2]
    split
    · rename_i same
      subst same
      exact better name
    · exact keeping.fine other name

end Keeping

section Writing

variable {context : WriteContext} {layer : LayerID} {rank : Nat}
  {fine : String → String → FieldCell → Prop}

abbrev KeepsFine (layer : LayerID) (rank : Nat) (fine : String → String → FieldCell → Prop)
    {Value : Type} (program : WriteM Value) : Prop :=
  program.Keeps (Keeping layer rank fine)

theorem writeScalar_keeps {field : SelectionField} {parent : String} {previous value : GraphQLValue}
    (leaf : field.selection = none)
    (closed : Closed fine (StoresValue context parent field value)) :
    KeepsFine layer rank fine
      (writeScalar context layer field parent (field.key context.vars) previous value) := by
  intro storage keeping
  have stored (result : GraphQLValue)
      (scalar : scalarValue context.applyUpdates field.updates previous value = .ok result) :
      StoresValue context parent field value parent (field.key context.vars) (.scalar result) := by
    cases updates : field.updates with
    | none =>
        rw [updates] at scalar
        cases scalar
        exact .scalar leaf (.inl updates)
    | some _ => exact .updated leaf (by rw [updates]; exact Option.some_ne_none _) result
  unfold writeScalar
  cases scalar : scalarValue context.applyUpdates field.updates previous value with
  | error error => exact keeping
  | ok result =>
      have kept : Keeping layer rank fine
          (storage.putScalar parent (field.key context.vars) result) :=
        keeping.putScalar (closed _ _ _ (stored result scalar) _ (keeping.fine _ _))
      dsimp only
      rw [EStateM.bind_of_ok (writeFieldTo_settled keeping.settled _ _ _)]
      unfold rememberTypename
      split
      · split
        · exact kept.withTypenames _
        · exact kept
      · exact kept

theorem writeLinkTo_keeps {id key : String} {value : GraphQLValue}
    (better : ∀ cell, fine id key cell → fine id key (cell.after (.link value))) :
    KeepsFine layer rank fine (writeLinkTo layer id key value) := by
  intro storage keeping
  rw [writeLinkTo_settled keeping.settled]
  exact keeping.putLink (better _ (keeping.fine _ _))

theorem removeLostEntries_keeps {field : LinkedField}
    (better : ∀ id, field.ownsEntry id = true → ∀ key cell, fine id key cell → fine id key {})
    (oldIDs linkedIDs : List GraphQLValue) :
    KeepsFine layer rank fine (removeLostEntries layer field oldIDs linkedIDs) := by
  intro storage keeping
  have removed (lost : List String) (owned : ∀ id ∈ lost, field.ownsEntry id = true)
      (storage : InMemoryStorage) (keeping : Keeping layer rank fine storage) :
      Keeping layer rank fine (lost.foldl .removeEmbeddedRecord storage) := by
    induction lost generalizing storage with
    | nil => exact keeping
    | cons id rest ih =>
        have mine := owned id List.mem_cons_self
        exact ih (fun other member => owned other (List.mem_cons_of_mem _ member)) _
          (keeping.removeEmbeddedRecord fun key => better id mine key _ (keeping.fine id key))
  unfold removeLostEntries
  split
  · exact keeping
  · refine removed _ (fun id member => ?_) storage keeping
    have left := (List.mem_filter.mp member).2
    exact (Bool.and_eq_true_iff.mp left).2

theorem embeddedEntry_owned (field : LinkedField) (previousID : GraphQLValue)
    {storage : InMemoryStorage} (keeping : Keeping layer rank fine storage) :
    (embeddedEntry field previousID storage).Satisfies
      (fun id final => field.ownsEntry id = true ∧ Keeping layer rank fine final)
      (Keeping layer rank fine) := by
  have generated (number : Nat) :
      field.ownsEntry (embeddedEntryID field.parent field.key number) = true := by
    unfold LinkedField.ownsEntry embeddedEntryID
    rw [List.isPrefixOf_iff_prefix]
    exact ⟨number.repr.toList ++ "]".toList, by simp [String.toList_append]⟩
  unfold embeddedEntry
  cases previousID with
  | string id =>
      dsimp only
      split
      · rename_i owned
        exact ⟨owned, keeping⟩
      · exact ⟨generated _, keeping.nextRank⟩
  | _ => exact ⟨generated _, keeping.nextRank⟩

section Entries

variable {field : LinkedField} {config : ConfigFile}
  {write : String → GraphQLObject → WriteM Unit}

def KeepsEntries (layer : LayerID) (rank : Nat) (fine : String → String → FieldCell → Prop)
    (config : ConfigFile) (field : LinkedField) (write : String → GraphQLObject → WriteM Unit)
    (objects : List GraphQLObject) : Prop :=
  ∀ data ∈ objects, ∀ embedded record, field.ownsEntry embedded = true →
    field.entryID config embedded data = .ok (some record) →
    KeepsFine layer rank fine (write record data)

theorem writeEntry_keeps {data : GraphQLObject}
    (nested : KeepsEntries layer rank fine config field write [data]) (previousID : GraphQLValue) :
    KeepsFine layer rank fine (writeEntry config field write previousID data) := by
  intro storage keeping
  unfold writeEntry
  apply EStateM.satisfies_bind
  refine (embeddedEntry_owned field previousID keeping).mono ?_ fun _ => id
  intro embedded middle ⟨owned, kept⟩
  cases linked : field.entryID config embedded data with
  | error error => exact kept
  | ok id =>
      cases id with
      | none => exact kept
      | some record =>
          exact ((nested data List.mem_cons_self embedded record owned linked).bind
            fun _ => .pure _) middle kept

mutual

theorem extractEntryIDs_keeps (empty : KeepsEntries layer rank fine config field write [[]]) :
    ∀ previousID entry : GraphQLValue,
    KeepsEntries layer rank fine config field write (entryObject entry) →
    KeepsFine layer rank fine (extractEntryIDs config field write previousID entry)
  | previousID, .array entries, nested => by
      unfold entryObject at nested
      unfold extractEntryIDs
      exact (extractNestedListIDs_keeps empty previousID.items entries nested).bind fun _ => .pure _
  | _, .null, _ | _, .undefined, _ => by
      unfold extractEntryIDs
      exact .pure _
  | previousID, .object data, nested => by
      unfold extractEntryIDs
      exact (writeEntry_keeps nested previousID).bind fun _ => .pure _
  | previousID, .boolean _, _ | previousID, .number _, _ | previousID, .string _, _
  | previousID, .component .., _ => by
      unfold extractEntryIDs
      exact (writeEntry_keeps empty previousID).bind fun _ => .pure _

theorem extractNestedListIDs_keeps (empty : KeepsEntries layer rank fine config field write [[]]) :
    ∀ previousIDs entries : List GraphQLValue,
    KeepsEntries layer rank fine config field write (entryObjects entries) →
    KeepsFine layer rank fine (extractNestedListIDs config field write previousIDs entries)
  | _, [], _ => by
      unfold extractNestedListIDs
      exact .pure _
  | previousIDs, entry :: rest, nested => by
      unfold entryObjects at nested
      unfold extractNestedListIDs
      have first : KeepsEntries layer rank fine config field write (entryObject entry) :=
        fun data member => nested data (List.mem_append_left _ member)
      have others : KeepsEntries layer rank fine config field write (entryObjects rest) :=
        fun data member => nested data (List.mem_append_right _ member)
      refine (extractEntryIDs_keeps empty _ entry first).bind fun _ => ?_
      exact (extractNestedListIDs_keeps empty previousIDs.tail rest others).bind fun _ => .pure _

end

end Entries

def KeepsNested (context : WriteContext) (layer : LayerID) (rank : Nat)
    (fine : String → String → FieldCell → Prop) (selection : SubscriptionSelection)
    (write : String → GraphQLObject → WriteM Unit) : Prop :=
  ∀ id data, Closed fine (Stores context selection id data) →
    KeepsFine layer rank fine (write id data)

theorem writeObject_keeps {parent : String} {field : SelectionField} {data : GraphQLObject}
    {selection : SubscriptionSelection} {write : String → GraphQLObject → WriteM Unit}
    (branch : field.selection = some selection)
    (nested : KeepsNested context layer rank fine selection write)
    (closed : Closed fine (StoresValue context parent field (.object data))) :
    KeepsFine layer rank fine
      (writeObject context layer write (linkedField field context.vars parent (.object data))
        data) := by
  unfold writeObject
  cases linked : (linkedField field context.vars parent (.object data)).linkedID
      context.config data with
  | error error => exact .throw _
  | ok id =>
      have link := closed _ _ _ (.object branch linked)
      cases id with
      | none => exact writeLinkTo_keeps link
      | some record =>
          exact (writeLinkTo_keeps link).bind fun _ => nested record data
            fun id key written stored => closed id key written (.withinObject branch linked stored)

theorem writeList_keeps {parent : String} {field : SelectionField} {entries : List GraphQLValue}
    {selection : SubscriptionSelection} {write : String → GraphQLObject → WriteM Unit}
    (branch : field.selection = some selection)
    (nested : KeepsNested context layer rank fine selection write)
    (closed : Closed fine (StoresValue context parent field (.array entries)))
    (previous : GraphQLValue) :
    KeepsFine layer rank fine
      (writeList context layer write field.updates
        (linkedField field context.vars parent (.array entries)) previous entries) := by
  have inside : KeepsEntries layer rank fine context.config
      (linkedField field context.vars parent (.array entries)) write (entryObjects entries) := by
    intro data member embedded record owned linked
    exact nested record data fun id key written stored =>
      closed id key written (.withinList branch member owned linked stored)
  have empty : KeepsEntries layer rank fine context.config
      (linkedField field context.vars parent (.array entries)) write [[]] := by
    intro data member embedded record _ _
    obtain rfl := List.mem_singleton.mp member
    refine nested record [] fun id key written stored => ?_
    cases stored with
    | property _ member => cases member
  have lost := @removeLostEntries_keeps layer rank _
    (linkedField field context.vars parent (.array entries))
    fun id owned key cell good => closed id key .remove (.lost branch key owned) cell good
  intro storage keeping
  have prepared : (prepareList context layer write field.updates
      (linkedField field context.vars parent (.array entries)) previous entries storage).Satisfies
      (fun list final => list.update.action = .link ∧ Keeping layer rank fine final)
      (Keeping layer rank fine) := by
    unfold prepareList
    apply EStateM.satisfies_bind
    change (EStateM.Result.ok storage storage).Satisfies _ _
    apply EStateM.satisfies_bind
    refine (extractNestedListIDs_keeps empty _ entries inside storage keeping).mono ?_ fun _ => id
    intro ids middle kept
    apply EStateM.satisfies_bind
    change (EStateM.Result.ok middle middle).Satisfies _ _
    apply EStateM.satisfies_bind
    refine (lost _ _ middle kept).mono ?_ fun _ => id
    intro _ final good
    exact ⟨updateList_settled kept.settled context field.updates ids _, good⟩
  unfold writeList
  apply EStateM.satisfies_bind
  refine prepared.mono ?_ fun _ => id
  intro list middle ⟨linked, kept⟩
  cases changed : list.changed with
  | false => exact kept
  | true =>
      change (linkList layer _ list middle).Satisfies _ _
      unfold linkList
      rw [linked]
      exact writeLinkTo_keeps (closed _ _ _ (.list branch _)) middle kept

theorem writeProperty_keeps {field : SelectionField}
    {write : SubscriptionSelection → String → GraphQLObject → WriteM Unit}
    (nested : ∀ selection, field.selection = some selection →
      KeepsNested context layer rank fine selection (write selection))
    {parent : String} {value : GraphQLValue}
    (closed : Closed fine (StoresValue context parent field value)) :
    KeepsFine layer rank fine (writeProperty context layer write parent field value) := by
  unfold writeProperty
  refine EStateM.Keeps.get.bind fun storage => ?_
  dsimp only
  cases branch : field.selection with
  | none => exact writeScalar_keeps branch closed
  | some selection =>
      cases value with
      | null =>
          dsimp only
          split
          · exact .pure _
          · exact writeLinkTo_keeps (closed _ _ _ (.null branch))
      | object data => exact writeObject_keeps branch (nested selection branch) closed
      | array entries =>
          dsimp only
          split
          · exact writeList_keeps branch (nested selection branch) closed _
          · exact .pure _
      | _ => exact .pure _

def ClosedProperties (context : WriteContext) (fine : String → String → FieldCell → Prop)
    (fields : FieldSelections) (parent : String) (data : GraphQLObject) : Prop :=
  ∀ name value, (name, value) ∈ data → ∀ field, fields.lookup name = some field →
    Closed fine (StoresValue context parent field value)

theorem writeFields_keeps {fields : FieldSelections}
    {write : SubscriptionSelection → String → GraphQLObject → WriteM Unit}
    (nested : ∀ entry ∈ fields, ∀ selection, entry.2.selection = some selection →
      KeepsNested context layer rank fine selection (write selection))
    {parent : String} {data : GraphQLObject}
    (closed : ClosedProperties context fine fields parent data) :
    KeepsFine layer rank fine (writeFields context layer write parent fields data) := by
  induction data with
  | nil => exact .pure _
  | cons property rest ih =>
      obtain ⟨name, value⟩ := property
      have others : ClosedProperties context fine fields parent rest :=
        fun name value member => closed name value (List.mem_cons_of_mem _ member)
      unfold writeFields
      cases selected : fields.lookup name with
      | none => exact ih others
      | some field =>
          refine EStateM.Keeps.bind ?_ fun _ => ih others
          exact writeProperty_keeps (nested (name, field) (mem_of_lookup selected))
            (closed name value List.mem_cons_self field selected)

theorem writeSelection_keeps (context : WriteContext) (selection : SubscriptionSelection) :
    KeepsNested context layer rank fine selection (writeSelection context layer selection) := by
  have bounded (depth : Nat) (selection : SubscriptionSelection) :
      KeepsNested context layer rank fine selection
        (writeSelectionWithin context layer depth selection) := by
    induction depth generalizing selection with
    | zero => exact fun _ _ _ => .throw _
    | succ depth ih =>
        intro parent data closed
        unfold writeSelectionWithin
        split
        · exact .pure _
        · cases typed : getFieldsForType selection (data.property "__typename").text? with
          | none =>
              dsimp only
              split
              · exact .pure _
              · exact .throw _
          | some fields =>
              refine writeFields_keeps (fun _ _ selection _ => ih selection) ?_
              intro name value member field selected id key written stored
              exact closed id key written (.property typed member selected stored)
  exact bounded selection.depth selection

def selectedField (selection : SubscriptionSelection) (data : GraphQLObject) (name : String) :
    Option SelectionField :=
  (getFieldsForType selection (data.property "__typename").text?).bind (·.lookup name)

theorem writeSelection_through {selection : SubscriptionSelection} {fields : FieldSelections}
    {parent name : String} {front back : GraphQLObject} {value : GraphQLValue}
    {field : SelectionField} (enabled : context.disabled = false)
    (typed : getFieldsForType selection
      (GraphQLObject.property (front ++ (name, value) :: back) "__typename").text? = some fields)
    (selected : fields.lookup name = some field)
    (before : ClosedProperties context fine fields parent front)
    {storage final : InMemoryStorage} (keeping : Keeping layer rank fine storage)
    (success : writeSelection context layer selection parent (front ++ (name, value) :: back)
      storage = .ok () final) :
    ∃ middle stored, Keeping layer rank fine middle ∧
      writeProperty context layer (writeSelection context layer) parent field value middle =
        .ok () stored ∧
      ∀ ranked fineAfter, ClosedProperties context fineAfter fields parent back →
        Keeping layer ranked fineAfter stored → Keeping layer ranked fineAfter final := by
  rw [writeSelection_eq, enabled, typed] at success
  simp only [Bool.false_eq_true, ↓reduceIte] at success
  rw [writeFields_append] at success
  obtain ⟨_, middle, first, rest⟩ := EStateM.bind_eq_ok success
  rw [writeFields, selected] at rest
  obtain ⟨_, stored, second, last⟩ := EStateM.bind_eq_ok rest
  have kept := writeFields_keeps
    (fun _ _ selection _ => writeSelection_keeps context selection) before storage keeping
  rw [first] at kept
  refine ⟨middle, stored, kept, second, fun ranked fineAfter after made => ?_⟩
  have left := writeFields_keeps
    (fun _ _ selection _ => writeSelection_keeps context selection) after stored made
  rw [last] at left
  exact left

theorem Closed.properties {selection : SubscriptionSelection} {fields : FieldSelections}
    {parent : String} {data among : GraphQLObject}
    (closed : Closed fine (Stores context selection parent data))
    (typed : getFieldsForType selection (data.property "__typename").text? = some fields)
    (sub : among ⊆ data) : ClosedProperties context fine fields parent among :=
  fun _ _ member _ selected id key written stored =>
    closed id key written (.property typed (sub member) selected stored)

theorem exists_of_property {data : GraphQLObject} {name : String} {value : GraphQLValue}
    (found : data.property name = value) (defined : value ≠ .undefined) :
    ∃ front back, data = front ++ (name, value) :: back := by
  unfold GraphQLObject.property at found
  cases lookup : data.lookup name with
  | none =>
      rw [lookup] at found
      exact absurd found.symm defined
  | some held =>
      rw [lookup] at found
      obtain rfl : held = value := found
      obtain ⟨front, back, split, -⟩ := List.lookup_eq_some_iff.mp lookup
      exact ⟨front, back, split⟩

theorem exists_of_selectedField {selection : SubscriptionSelection} {data : GraphQLObject}
    {name : String} {field : SelectionField}
    (selected : selectedField selection data name = some field) :
    ∃ fields, getFieldsForType selection (data.property "__typename").text? = some fields ∧
      fields.lookup name = some field := Option.bind_eq_some_iff.mp selected

/-- One property of an object makes something out of what was fine before, and whatever the
object stores leaves both alone. -/
theorem writeSelection_property {ranked : Nat} {fineAfter : String → String → FieldCell → Prop}
    {selection : SubscriptionSelection} {parent name : String} {data : GraphQLObject}
    {value : GraphQLValue} {field : SelectionField} (enabled : context.disabled = false)
    (selected : selectedField selection data name = some field)
    (found : data.property name = value) (defined : value ≠ .undefined)
    (before : Closed fine (Stores context selection parent data))
    (after : Closed fineAfter (Stores context selection parent data))
    (through : ∀ storage final, Keeping layer rank fine storage →
      writeProperty context layer (writeSelection context layer) parent field value storage =
        .ok () final → Keeping layer ranked fineAfter final)
    {storage final : InMemoryStorage} (keeping : Keeping layer rank fine storage)
    (success : writeSelection context layer selection parent data storage = .ok () final) :
    Keeping layer ranked fineAfter final := by
  obtain ⟨front, back, split⟩ := exists_of_property found defined
  obtain ⟨fields, typed, chosen⟩ := exists_of_selectedField selected
  have first : front ⊆ data := fun entry member => by
    rw [split]
    exact List.mem_append_left _ member
  have last : back ⊆ data := fun entry member => by
    rw [split]
    exact List.mem_append_right _ (List.mem_cons_of_mem _ member)
  have beforeFront := before.properties typed first
  have afterBack := after.properties typed last
  subst split
  obtain ⟨middle, stored, kept, wrote, rest⟩ :=
    writeSelection_through enabled typed chosen beforeFront keeping success
  exact rest ranked fineAfter afterBack (through middle stored kept wrote)

def ClosedOthers (context : WriteContext) (fine : String → String → FieldCell → Prop)
    (selection : SubscriptionSelection) (parent name : String) (data : GraphQLObject) : Prop :=
  ∀ other value, (other, value) ∈ data → other ≠ name → ∀ field,
    selectedField selection data other = some field →
    Closed fine (StoresValue context parent field value)

theorem writeSelection_named {selection : SubscriptionSelection} {parent name : String}
    {data : GraphQLObject} {value : GraphQLValue} {field : SelectionField}
    (enabled : context.disabled = false)
    (selected : selectedField selection data name = some field)
    (found : data.property name = value) (defined : value ≠ .undefined)
    (names : (data.map Prod.fst).Nodup)
    (before : ClosedOthers context fine selection parent name data)
    {storage final : InMemoryStorage} (keeping : Keeping layer rank fine storage)
    (success : writeSelection context layer selection parent data storage = .ok () final) :
    ∃ middle stored, Keeping layer rank fine middle ∧
      writeProperty context layer (writeSelection context layer) parent field value middle =
        .ok () stored ∧
      ∀ ranked fineAfter, ClosedOthers context fineAfter selection parent name data →
        Keeping layer ranked fineAfter stored → Keeping layer ranked fineAfter final := by
  obtain ⟨front, back, split⟩ := exists_of_property found defined
  obtain ⟨fields, typed, chosen⟩ := exists_of_selectedField selected
  have chooses {other : String} {field : SelectionField}
      (listed : fields.lookup other = some field) : selectedField selection data other = some field :=
    Option.bind_eq_some_iff.mpr ⟨fields, typed, listed⟩
  have distinct : name ∉ front.map Prod.fst ∧ name ∉ back.map Prod.fst := by
    rw [split, List.map_append, List.map_cons, List.nodup_append, List.nodup_cons] at names
    exact ⟨fun member => names.2.2 name member name List.mem_cons_self rfl, names.2.1.1⟩
  have first {other : String} {sibling : GraphQLValue} (member : (other, sibling) ∈ front) :
      (other, sibling) ∈ data ∧ other ≠ name := by
    refine ⟨split ▸ List.mem_append_left _ member, fun same => distinct.1 ?_⟩
    rw [← same]
    exact List.mem_map_of_mem member
  have last {other : String} {sibling : GraphQLValue} (member : (other, sibling) ∈ back) :
      (other, sibling) ∈ data ∧ other ≠ name := by
    refine ⟨split ▸ List.mem_append_right _ (List.mem_cons_of_mem _ member), fun same =>
      distinct.2 ?_⟩
    rw [← same]
    exact List.mem_map_of_mem member
  have beforeFront : ClosedProperties context fine fields parent front :=
    fun other sibling member found listed =>
      before other sibling (first member).1 (first member).2 found (chooses listed)
  have afterBack {fineAfter : String → String → FieldCell → Prop}
      (after : ClosedOthers context fineAfter selection parent name data) :
      ClosedProperties context fineAfter fields parent back :=
    fun other sibling member found listed =>
      after other sibling (last member).1 (last member).2 found (chooses listed)
  rw [split] at success typed
  obtain ⟨middle, stored, kept, wrote, rest⟩ :=
    writeSelection_through enabled typed chosen beforeFront keeping success
  exact ⟨middle, stored, kept, wrote, fun ranked fineAfter after made =>
    rest ranked fineAfter (afterBack after) made⟩

theorem Stores.within {selection nested : SubscriptionSelection} {parent name record : String}
    {data object : GraphQLObject} {field : SelectionField}
    (selected : selectedField selection data name = some field)
    (found : data.property name = .object object) (branch : field.selection = some nested)
    (linked : (linkedField field context.vars parent (.object object)).linkedID context.config
      object = .ok (some record)) {id key : String} {written : CellWrite}
    (stored : Stores context nested record object id key written) :
    Stores context selection parent data id key written := by
  obtain ⟨front, back, split⟩ := exists_of_property found nofun
  obtain ⟨fields, typed, chosen⟩ := exists_of_selectedField selected
  have member : (name, .object object) ∈ data := by
    rw [split]
    exact List.mem_append_right _ List.mem_cons_self
  exact .property typed member chosen (.withinObject branch linked stored)

end Writing

end Houdini.Runtime.Cache
