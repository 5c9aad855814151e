import Houdini.Data.Outcome
import Houdini.Runtime.Cache.StorageRuns
import Houdini.Runtime.Cache.Writing
import Houdini.Runtime.SelectionProperties

/-! A write is a run of the storage that changes a single layer. -/

set_option autoImplicit false

namespace Houdini.Runtime.Cache

section Depth

variable {context : WriteContext} {layer : LayerID} {parent : String}
  {first second : SubscriptionSelection → String → GraphQLObject → WriteM Unit}

private theorem writeProperty_congr {field : SelectionField}
    (agree : ∀ inner, field.selection = some inner → first inner = second inner)
    (value : GraphQLValue) :
    writeProperty context layer first parent field value =
      writeProperty context layer second parent field value := by
  unfold writeProperty
  cases nested : field.selection with
  | none => rfl
  | some inner => simp only [agree inner nested]

private theorem writeFields_congr {fields : FieldSelections}
    (agree : ∀ entry ∈ fields, ∀ inner, entry.2.selection = some inner →
      first inner = second inner) (data : GraphQLObject) :
    writeFields context layer first parent fields data =
      writeFields context layer second parent fields data := by
  induction data with
  | nil => rfl
  | cons property rest ih =>
      obtain ⟨name, value⟩ := property
      unfold writeFields
      cases found : fields.lookup name with
      | none => exact ih
      | some field =>
          dsimp only
          rw [writeProperty_congr fun inner nested =>
            agree (name, field) (mem_of_lookup found) inner nested, ih]

private theorem one_le_depth (selection : SubscriptionSelection) : 0 < selection.depth := by
  rw [selection.depth_eq]
  exact Nat.succ_pos _

private theorem writeSelectionWithin_agree (context : WriteContext) (layer : LayerID)
    {bound other : Nat} {selection : SubscriptionSelection} (enough : selection.depth ≤ bound)
    (otherEnough : selection.depth ≤ other) (parent : String) (data : GraphQLObject) :
    writeSelectionWithin context layer bound selection parent data =
      writeSelectionWithin context layer other selection parent data := by
  induction bound generalizing other selection parent data with
  | zero => exact absurd (one_le_depth selection) (Nat.not_lt.mpr enough)
  | succ bound ih =>
      cases other with
      | zero => exact absurd (one_le_depth selection) (Nat.not_lt.mpr otherEnough)
      | succ other =>
          unfold writeSelectionWithin
          cases found : getFieldsForType selection (data.property "__typename").text? with
          | none => rfl
          | some fields =>
              dsimp only
              rw [writeFields_congr]
              intro entry member inner nested
              have shallower := depth_lt_of_getFieldsForType found member nested
              funext record object
              exact ih (Nat.le_of_lt_succ (Nat.lt_of_lt_of_le shallower enough))
                (Nat.le_of_lt_succ (Nat.lt_of_lt_of_le shallower otherEnough)) record object

theorem writeSelection_eq (context : WriteContext) (layer : LayerID)
    (selection : SubscriptionSelection) (parent : String) (data : GraphQLObject) :
    writeSelection context layer selection parent data =
      if context.disabled then pure ()
      else
        match getFieldsForType selection (data.property "__typename").text? with
        | none => if data.isEmpty then pure () else throw .typeError
        | some fields => writeFields context layer (writeSelection context layer) parent fields data := by
  have deeper := writeSelectionWithin_agree context layer (Nat.le_refl selection.depth)
    (Nat.le_succ selection.depth) parent data
  rw [writeSelection, deeper, writeSelectionWithin]
  cases found : getFieldsForType selection (data.property "__typename").text? with
  | none => rfl
  | some fields =>
      dsimp only
      rw [writeFields_congr]
      intro entry member inner nested
      have shallower := depth_lt_of_getFieldsForType found member nested
      funext record object
      exact writeSelectionWithin_agree context layer (Nat.le_of_lt shallower) (Nat.le_refl _)
        record object

end Depth

theorem writeFields_append {context : WriteContext} {layer : LayerID}
    {write : SubscriptionSelection → String → GraphQLObject → WriteM Unit} {parent : String}
    {fields : FieldSelections} (first last : GraphQLObject) :
    writeFields context layer write parent fields (first ++ last) =
      (writeFields context layer write parent fields first >>= fun _ =>
        writeFields context layer write parent fields last) := by
  induction first with
  | nil => rfl
  | cons property rest ih =>
      obtain ⟨name, value⟩ := property
      rw [List.cons_append, writeFields, writeFields]
      cases fields.lookup name with
      | none => exact ih
      | some field => simp only [ih, bind_assoc]

inductive WriteStep (layer : LayerID) : InMemoryStorage → InMemoryStorage → Prop where
  | layer {storage : InMemoryStorage} {current written : Layer} (member : current ∈ storage.data)
      (target : current.id = layer) (step : current.Step written) :
      WriteStep layer storage (storage.setLayer written)
  | removeEmbeddedRecord (storage : InMemoryStorage) (id : String) :
      WriteStep layer storage (storage.removeEmbeddedRecord id)
  | nextRank (storage : InMemoryStorage) : WriteStep layer storage storage.nextRank.2
  | rememberTypename (storage : InMemoryStorage) (id typename : String) :
      WriteStep layer storage { storage with typenames := storage.typenames.set id typename }

def Writes (layer : LayerID) : InMemoryStorage → InMemoryStorage → Prop :=
  Relation.ReflTransGen (WriteStep layer)

section Steps

variable {layer : LayerID} {storage final : InMemoryStorage}

theorem WriteStep.step (written : WriteStep layer storage final) : storage.Step final := by
  cases written with
  | layer member _ step => exact .layer member step
  | removeEmbeddedRecord id => exact .removeEmbeddedRecord storage id
  | nextRank => exact .nextRank storage
  | rememberTypename id typename => exact .rememberTypename storage id typename

theorem WriteStep.idMaps (written : WriteStep layer storage final) :
    final.idMaps = storage.idMaps := by
  cases written <;> rfl

theorem WriteStep.headers (distinct : storage.DistinctLayers)
    (written : WriteStep layer storage final) : final.headers = storage.headers := by
  cases written with
  | layer member _ step =>
      exact InMemoryStorage.headers_setLayer distinct.nodup _ member step.header_eq
  | removeEmbeddedRecord id =>
      unfold InMemoryStorage.headers InMemoryStorage.removeEmbeddedRecord
      rw [List.map_map]
      refine List.map_congr_left fun current _ => ?_
      simp only [Function.comp_apply]
      split <;> rfl
  | nextRank => rfl
  | rememberTypename id typename => rfl

theorem WriteStep.distinctLayers (distinct : storage.DistinctLayers)
    (written : WriteStep layer storage final) : final.DistinctLayers :=
  (distinct.headersKept written.step).distinctLayers distinct

theorem Writes.kept (distinct : storage.DistinctLayers) (writes : Writes layer storage final) :
    final.DistinctLayers ∧ final.headers = storage.headers ∧ final.idMaps = storage.idMaps := by
  induction writes with
  | refl => exact ⟨distinct, rfl, rfl⟩
  | tail _ step ih =>
      obtain ⟨distinct, headers, idMaps⟩ := ih
      exact ⟨step.distinctLayers distinct, (step.headers distinct).trans headers,
        step.idMaps.trans idMaps⟩

end Steps

section Runs

variable {context : WriteContext} {layer : LayerID} {start : InMemoryStorage}
  {config : ConfigFile} {field : LinkedField}

def WritesTo (layer : LayerID) (start : InMemoryStorage) {Value : Type}
    (program : WriteM Value) : Prop :=
  EStateM.Keeps (Writes layer start) program

theorem WritesTo.kept_of_ok {storage final : InMemoryStorage} {Value : Type} {value : Value}
    {program : WriteM Value} (writes : WritesTo layer storage program)
    (distinct : storage.DistinctLayers) (success : program storage = .ok value final) :
    final.DistinctLayers ∧ final.headers = storage.headers := by
  have ran := writes storage .refl
  rw [success] at ran
  have kept := Writes.kept distinct ran
  exact ⟨kept.1, kept.2.1⟩

theorem changeLayer_writes {change : Layer → EStateM.Result JSError Layer Unit}
    (step : ∀ current, Layer.Step current (resultState (change current))) :
    WritesTo layer start (changeLayer layer change) := by
  intro storage writes
  unfold changeLayer
  cases found : storage.data.find? (·.id == layer) with
  | none => exact writes
  | some current =>
      have member := List.mem_of_find?_eq_some found
      have target : current.id = layer := by simpa using List.find?_some found
      have stepped := step current
      dsimp only
      cases changed : change current with
      | ok _ written =>
          rw [changed] at stepped
          exact writes.tail (.layer member target stepped)
      | error error written =>
          rw [changed] at stepped
          exact writes.tail (.layer member target stepped)

theorem writeFieldTo_writes (id name : String) (value : GraphQLValue) :
    WritesTo layer start (writeFieldTo layer id name value) :=
  changeLayer_writes fun current => .writeField current id name value

theorem writeLinkTo_writes (id name : String) (value : GraphQLValue) :
    WritesTo layer start (writeLinkTo layer id name value) :=
  changeLayer_writes fun current => .writeLink current id name value

theorem insertInto_writes (id name : String) (location : OperationLocation) (target : String) :
    WritesTo layer start (insertInto layer id name location target) := by
  intro storage writes
  unfold insertInto
  cases found : storage.data.find? (·.id == layer) with
  | none => exact writes
  | some current =>
      have member := List.mem_of_find?_eq_some found
      have same : current.id = layer := by simpa using List.find?_some found
      dsimp only
      cases inserted : current.insert id name location target with
      | error error => exact writes
      | ok written => exact writes.tail (.layer member same (.insert id name location target inserted))

theorem rememberTypename_writes (parent key : String) (value : GraphQLValue) :
    WritesTo layer start (rememberTypename parent key value) := by
  intro storage writes
  unfold rememberTypename
  cases value with
  | string typename =>
      dsimp only
      split
      · exact writes.tail (.rememberTypename storage parent typename)
      · exact writes
  | _ => exact writes

theorem foldl_removeEmbeddedRecord_writes {storage : InMemoryStorage}
    (writes : Writes layer start storage) (lost : List String) :
    Writes layer start (lost.foldl .removeEmbeddedRecord storage) := by
  induction lost generalizing storage with
  | nil => exact writes
  | cons id rest ih => exact ih (writes.tail (.removeEmbeddedRecord storage id))

theorem removeLostEntries_writes (oldIDs linkedIDs : List GraphQLValue) :
    WritesTo layer start (removeLostEntries layer field oldIDs linkedIDs) := by
  intro storage writes
  unfold removeLostEntries
  split
  · exact writes
  · exact foldl_removeEmbeddedRecord_writes writes _

theorem embeddedEntry_writes (previousID : GraphQLValue) :
    WritesTo layer start (embeddedEntry field previousID) := by
  intro storage writes
  unfold embeddedEntry
  have ranked : Writes layer start storage.nextRank.2 := writes.tail (.nextRank storage)
  cases previousID with
  | string id =>
      dsimp only
      split
      · exact writes
      · exact ranked
  | _ => exact ranked

section Entries

variable {write : String → GraphQLObject → WriteM Unit}

theorem writeEntry_writes (nested : ∀ id data, WritesTo layer start (write id data)) (previousID : GraphQLValue) (data : GraphQLObject) :
    WritesTo layer start (writeEntry config field write previousID data) := by
  unfold writeEntry
  refine (embeddedEntry_writes previousID).bind fun embedded => ?_
  split
  · exact .throw _
  · exact .pure _
  · exact (nested _ data).bind fun _ => .pure _

mutual

theorem extractEntryIDs_writes (nested : ∀ id data, WritesTo layer start (write id data)) :
    ∀ previousID entry : GraphQLValue,
    WritesTo layer start (extractEntryIDs config field write previousID entry)
  | previousID, .array entries => by
      unfold extractEntryIDs
      exact (extractNestedListIDs_writes nested previousID.items entries).bind fun _ => .pure _
  | _, .null | _, .undefined => by
      unfold extractEntryIDs
      exact .pure _
  | previousID, .object data => by
      unfold extractEntryIDs
      exact (writeEntry_writes nested previousID data).bind fun _ => .pure _
  | previousID, .boolean _ | previousID, .number _ | previousID, .string _
  | previousID, .component .. => by
      unfold extractEntryIDs
      exact (writeEntry_writes nested previousID []).bind fun _ => .pure _

theorem extractNestedListIDs_writes (nested : ∀ id data, WritesTo layer start (write id data)) :
    ∀ previousIDs entries : List GraphQLValue,
    WritesTo layer start (extractNestedListIDs config field write previousIDs entries)
  | _, [] => by
      unfold extractNestedListIDs
      exact .pure _
  | previousIDs, entry :: rest => by
      unfold extractNestedListIDs
      refine (extractEntryIDs_writes nested _ entry).bind fun _ => ?_
      exact (extractNestedListIDs_writes nested previousIDs.tail rest).bind fun _ => .pure _

end

theorem prepareList_writes (nested : ∀ id data, WritesTo layer start (write id data))
    (updates : Option (List String)) (previous : GraphQLValue)
    (entries : List GraphQLValue) :
    WritesTo layer start (prepareList context layer write updates field previous entries) := by
  unfold prepareList
  refine EStateM.Keeps.get.bind fun _ => ?_
  refine (extractNestedListIDs_writes nested _ entries).bind fun _ => ?_
  refine EStateM.Keeps.get.bind fun _ => ?_
  exact (removeLostEntries_writes _ _).bind fun _ => .pure _

theorem writeObject_writes (nested : ∀ id data, WritesTo layer start (write id data))
    (data : GraphQLObject) :
    WritesTo layer start (writeObject context layer write field data) := by
  unfold writeObject
  split
  · exact .throw _
  · exact writeLinkTo_writes _ _ _
  · exact (writeLinkTo_writes _ _ _).bind fun _ => nested _ data

end Entries

theorem linkList_writes (list : PreparedList) :
    WritesTo layer start (linkList layer field list) := by
  unfold linkList
  split
  · exact writeLinkTo_writes _ _ _
  · refine .forM (fun id => ?_) _
    split
    · split
      · exact .pure _
      · exact insertInto_writes _ _ _ _
    · exact .pure _

theorem writeScalar_writes (field : SelectionField) (parent key : String)
    (previous value : GraphQLValue) :
    WritesTo layer start (writeScalar context layer field parent key previous value) := by
  unfold writeScalar
  split
  · exact .throw _
  · exact (writeFieldTo_writes _ _ _).bind fun _ => rememberTypename_writes _ _ _

theorem writeProperty_writes
    {write : SubscriptionSelection → String → GraphQLObject → WriteM Unit} {field : SelectionField}
    (nested : ∀ inner, field.selection = some inner →
      ∀ id data, WritesTo layer start (write inner id data)) (parent : String)
    (value : GraphQLValue) :
    WritesTo layer start (writeProperty context layer write parent field value) := by
  unfold writeProperty
  refine EStateM.Keeps.get.bind fun storage => ?_
  dsimp only
  cases selection : field.selection with
  | none => exact writeScalar_writes _ _ _ _ _
  | some inner =>
      dsimp only
      split
      · split
        · exact .pure _
        · exact writeLinkTo_writes _ _ _
      · exact writeObject_writes (nested inner selection) _
      · split
        · unfold writeList
          refine (prepareList_writes (nested inner selection) _ _ _).bind fun list => ?_
          split
          · exact linkList_writes list
          · exact .pure _
        · exact .pure _
      · exact .pure _

theorem writeFields_writes
    {write : SubscriptionSelection → String → GraphQLObject → WriteM Unit} {fields : FieldSelections}
    (nested : ∀ entry ∈ fields, ∀ inner, entry.2.selection = some inner →
      ∀ id data, WritesTo layer start (write inner id data)) (parent : String)
    (data : GraphQLObject) :
    WritesTo layer start (writeFields context layer write parent fields data) := by
  induction data with
  | nil => exact .pure _
  | cons property rest ih =>
      obtain ⟨name, value⟩ := property
      unfold writeFields
      cases found : fields.lookup name with
      | none => exact ih
      | some field =>
          exact (writeProperty_writes
            (nested (name, field) (mem_of_lookup found)) parent value).bind fun _ => ih

theorem writeSelectionWithin_writes (context : WriteContext) (layer : LayerID)
    (start : InMemoryStorage) (depth : Nat) (selection : SubscriptionSelection) (parent : String)
    (data : GraphQLObject) :
    WritesTo layer start (writeSelectionWithin context layer depth selection parent data) := by
  induction depth generalizing selection parent data with
  | zero => exact .throw _
  | succ depth ih =>
      unfold writeSelectionWithin
      split
      · exact .pure _
      · split
        · split
          · exact .pure _
          · exact .throw _
        · exact writeFields_writes (fun _ _ inner _ id data => ih inner id data) parent data

theorem writeSelection_writes (context : WriteContext) (layer : LayerID) (start : InMemoryStorage)
    (selection : SubscriptionSelection) (parent : String) (data : GraphQLObject) :
    WritesTo layer start (writeSelection context layer selection parent data) :=
  writeSelectionWithin_writes context layer start selection.depth selection parent data

end Runs

end Houdini.Runtime.Cache
