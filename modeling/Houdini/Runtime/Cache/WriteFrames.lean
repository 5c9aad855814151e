import Houdini.Runtime.Cache.WritingProperties

/-! What a write keeps when all of the fields that it writes have allowed keys, and what it
therefore leaves alone about a list with another key. -/

set_option autoImplicit false

namespace Houdini.Runtime.Cache

inductive KeysAllowed (vars : GraphQLObject) (allowed : String → Prop) :
    SubscriptionSelection → Prop
  | intro {selection : SubscriptionSelection}
      (keys : ∀ typename fields, getFieldsForType selection typename = some fields →
        ∀ entry ∈ fields, allowed (entry.2.key vars))
      (nested : ∀ typename fields, getFieldsForType selection typename = some fields →
        ∀ entry ∈ fields, ∀ inner, entry.2.selection = some inner →
          KeysAllowed vars allowed inner) :
      KeysAllowed vars allowed selection

structure FieldAllowed (vars : GraphQLObject) (allowed : String → Prop) (field : SelectionField) :
    Prop where
  key : allowed (field.key vars)
  nested : ∀ inner, field.selection = some inner → KeysAllowed vars allowed inner

theorem KeysAllowed.field {vars : GraphQLObject} {allowed : String → Prop}
    {selection : SubscriptionSelection} (keys : KeysAllowed vars allowed selection)
    {typename : Option String} {fields : FieldSelections}
    (typed : getFieldsForType selection typename = some fields)
    {entry : String × SelectionField} (member : entry ∈ fields) :
    FieldAllowed vars allowed entry.2 := by
  obtain ⟨keys, nested⟩ := keys
  exact ⟨keys _ _ typed _ member, nested _ _ typed _ member⟩

structure KeptAt (layer : LayerID) (allowed : String → Prop)
    (invariant : InMemoryStorage → Prop) : Prop where
  writeField : ∀ id key value, allowed key → EStateM.Keeps invariant (writeFieldTo layer id key value)
  writeLink : ∀ id key value, allowed key → EStateM.Keeps invariant (writeLinkTo layer id key value)
  insert : ∀ id key location target, allowed key →
    EStateM.Keeps invariant (insertInto layer id key location target)
  removeEmbeddedRecord : ∀ (field : LinkedField) id, allowed field.key →
    field.ownsEntry id = true → ∀ storage, invariant storage →
      invariant (storage.removeEmbeddedRecord id)
  nextRank : ∀ storage, invariant storage → invariant storage.nextRank.2
  typenames : ∀ storage typenames, invariant storage → invariant { storage with typenames }

section Frame

variable {context : WriteContext} {layer : LayerID} {allowed : String → Prop}
  {invariant : InMemoryStorage → Prop} (kept : KeptAt layer allowed invariant)

include kept

theorem KeptAt.writeScalar {field : SelectionField} {parent key : String}
    (allowedKey : allowed key) (previous value : GraphQLValue) :
    EStateM.Keeps invariant (writeScalar context layer field parent key previous value) := by
  unfold Cache.writeScalar
  split
  · exact .throw _
  · refine (kept.writeField _ _ _ allowedKey).bind fun _ => ?_
    intro storage holds
    unfold rememberTypename
    split
    · split
      · exact kept.typenames _ _ holds
      · exact holds
    · exact holds

theorem KeptAt.removeLostEntries {field : LinkedField} (allowedKey : allowed field.key)
    (oldIDs linkedIDs : List GraphQLValue) :
    EStateM.Keeps invariant (removeLostEntries layer field oldIDs linkedIDs) := by
  intro storage holds
  unfold Cache.removeLostEntries
  split
  · exact holds
  · rename_i resolved
    clear resolved
    have owned : ∀ id ∈ lostEntries field oldIDs linkedIDs, field.ownsEntry id = true := by
      intro id member
      exact (Bool.and_eq_true_iff.mp (List.mem_filter.mp member).2).2
    generalize lostEntries field oldIDs linkedIDs = lost at owned
    change invariant (lost.foldl .removeEmbeddedRecord storage)
    induction lost generalizing storage with
    | nil => exact holds
    | cons id rest ih =>
        exact ih _ (kept.removeEmbeddedRecord field id allowedKey (owned id List.mem_cons_self)
          storage holds) fun other member => owned other (List.mem_cons_of_mem _ member)

theorem KeptAt.embeddedEntry (field : LinkedField) (previousID : GraphQLValue) :
    EStateM.Keeps invariant (embeddedEntry field previousID) := by
  intro storage holds
  unfold Cache.embeddedEntry
  cases previousID with
  | string id =>
      dsimp only
      split
      · exact holds
      · exact kept.nextRank storage holds
  | _ => exact kept.nextRank storage holds

section Entries

variable {config : ConfigFile} {field : LinkedField} {write : String → GraphQLObject → WriteM Unit}

theorem KeptAt.writeEntry (nested : ∀ id data, EStateM.Keeps invariant (write id data))
    (previousID : GraphQLValue) (data : GraphQLObject) :
    EStateM.Keeps invariant (writeEntry config field write previousID data) := by
  unfold Cache.writeEntry
  refine (kept.embeddedEntry field previousID).bind fun embedded => ?_
  split
  · exact .throw _
  · exact .pure _
  · exact (nested _ data).bind fun _ => .pure _

omit kept

mutual

theorem KeptAt.extractEntryIDs (kept : KeptAt layer allowed invariant)
    (nested : ∀ id data, EStateM.Keeps invariant (write id data)) :
    ∀ previousID entry : GraphQLValue,
    EStateM.Keeps invariant (extractEntryIDs config field write previousID entry)
  | previousID, .array entries => by
      unfold Cache.extractEntryIDs
      exact (KeptAt.extractNestedListIDs kept nested previousID.items entries).bind fun _ => .pure _
  | _, .null | _, .undefined => by
      unfold Cache.extractEntryIDs
      exact .pure _
  | previousID, .object data => by
      unfold Cache.extractEntryIDs
      exact (kept.writeEntry nested previousID data).bind fun _ => .pure _
  | previousID, .boolean _ | previousID, .number _ | previousID, .string _
  | previousID, .component .. => by
      unfold Cache.extractEntryIDs
      exact (kept.writeEntry nested previousID []).bind fun _ => .pure _

theorem KeptAt.extractNestedListIDs (kept : KeptAt layer allowed invariant)
    (nested : ∀ id data, EStateM.Keeps invariant (write id data)) :
    ∀ previousIDs entries : List GraphQLValue,
    EStateM.Keeps invariant (extractNestedListIDs config field write previousIDs entries)
  | _, [] => by
      unfold Cache.extractNestedListIDs
      exact .pure _
  | previousIDs, entry :: rest => by
      unfold Cache.extractNestedListIDs
      refine (KeptAt.extractEntryIDs kept nested _ entry).bind fun _ => ?_
      exact (KeptAt.extractNestedListIDs kept nested previousIDs.tail rest).bind fun _ => .pure _

end

include kept

theorem KeptAt.writeObject (nested : ∀ id data, EStateM.Keeps invariant (write id data))
    (allowedKey : allowed field.key) (data : GraphQLObject) :
    EStateM.Keeps invariant (writeObject context layer write field data) := by
  unfold Cache.writeObject
  split
  · exact .throw _
  · exact kept.writeLink _ _ _ allowedKey
  · exact (kept.writeLink _ _ _ allowedKey).bind fun _ => nested _ data

theorem KeptAt.writeList (nested : ∀ id data, EStateM.Keeps invariant (write id data))
    (allowedKey : allowed field.key) (updates : Option (List String))
    (previous : GraphQLValue) (entries : List GraphQLValue) :
    EStateM.Keeps invariant (writeList context layer write updates field previous entries) := by
  have prepared : EStateM.Keeps invariant
      (prepareList context layer write updates field previous entries) := by
    unfold prepareList
    refine EStateM.Keeps.get.bind fun _ => ?_
    refine (kept.extractNestedListIDs nested _ entries).bind fun _ => ?_
    refine EStateM.Keeps.get.bind fun _ => ?_
    exact (kept.removeLostEntries allowedKey _ _).bind fun _ => .pure _
  unfold Cache.writeList
  refine prepared.bind fun list => ?_
  split
  · unfold linkList
    split
    · exact kept.writeLink _ _ _ allowedKey
    · refine .forM (fun id => ?_) _
      split
      · split
        · exact .pure _
        · exact kept.insert _ _ _ _ allowedKey
      · exact .pure _
  · exact .pure _

end Entries

theorem KeptAt.writeProperty
    {write : SubscriptionSelection → String → GraphQLObject → WriteM Unit} {field : SelectionField}
    (fieldAllowed : FieldAllowed context.vars allowed field)
    (nested : ∀ inner, field.selection = some inner →
      ∀ id data, EStateM.Keeps invariant (write inner id data)) (parent : String)
    (value : GraphQLValue) :
    EStateM.Keeps invariant (writeProperty context layer write parent field value) := by
  unfold Cache.writeProperty
  refine EStateM.Keeps.get.bind fun storage => ?_
  dsimp only
  cases selection : field.selection with
  | none => exact kept.writeScalar fieldAllowed.key _ _
  | some inner =>
      dsimp only
      split
      · split
        · exact .pure _
        · exact kept.writeLink _ _ _ fieldAllowed.key
      · exact kept.writeObject (nested inner selection) fieldAllowed.key _
      · split
        · exact kept.writeList (nested inner selection) fieldAllowed.key _ _ _
        · exact .pure _
      · exact .pure _

theorem KeptAt.writeFields
    {write : SubscriptionSelection → String → GraphQLObject → WriteM Unit} {fields : FieldSelections}
    (data : GraphQLObject)
    (selected : ∀ name value, (name, value) ∈ data → ∀ field, fields.lookup name = some field →
      FieldAllowed context.vars allowed field ∧ ∀ inner, field.selection = some inner →
        ∀ id data, EStateM.Keeps invariant (write inner id data)) (parent : String) :
    EStateM.Keeps invariant (writeFields context layer write parent fields data) := by
  induction data with
  | nil => exact .pure _
  | cons property rest ih =>
      obtain ⟨name, value⟩ := property
      have below := ih fun other sibling member =>
        selected other sibling (List.mem_cons_of_mem _ member)
      unfold Cache.writeFields
      cases found : fields.lookup name with
      | none => exact below
      | some field =>
          obtain ⟨fieldAllowed, nested⟩ := selected name value List.mem_cons_self field found
          exact (kept.writeProperty fieldAllowed nested parent value).bind fun _ => below

theorem KeptAt.writeSelection {selection : SubscriptionSelection}
    (keys : KeysAllowed context.vars allowed selection) (parent : String) (data : GraphQLObject) :
    EStateM.Keeps invariant (writeSelection context layer selection parent data) := by
  unfold Cache.writeSelection
  generalize selection.depth = depth
  induction depth generalizing selection parent data with
  | zero => exact .throw _
  | succ depth ih =>
      unfold writeSelectionWithin
      split
      · exact .pure _
      · split
        · split
          · exact .pure _
          · exact .throw _
        · rename_i fields typed
          refine kept.writeFields data (fun name value member field found => ?_) parent
          have fieldAllowed := keys.field typed (mem_of_lookup found)
          exact ⟨fieldAllowed, fun inner nested id data =>
            ih (fieldAllowed.nested inner nested) id data⟩

end Frame

end Houdini.Runtime.Cache
