import Houdini.Runtime.Cache.EntryRanks
import Houdini.Runtime.Cache.WritingProperties

/-! The lists that a write comes across, and the ids that their entries get. -/

set_option autoImplicit false

namespace Houdini.Runtime.Cache

structure EntryVisit where
  field : LinkedField
  previousID : GraphQLValue
  data : GraphQLObject
  storage : InMemoryStorage

namespace EntryVisit

def taken (entry : EntryVisit) : Option String :=
  match entry.previousID with
  | .string id => if entry.field.ownsEntry id then some id else none
  | _ => none

def id (entry : EntryVisit) : String :=
  entry.taken.getD (embeddedEntryID entry.field.parent entry.field.key entry.storage.rank)

def after (entry : EntryVisit) : InMemoryStorage :=
  if entry.taken.isSome then entry.storage else entry.storage.nextRank.2

def embedded (config : ConfigFile) (entry : EntryVisit) : Bool :=
  isEmbedded config entry.field.linkedType entry.data

theorem embeddedEntry_eq (entry : EntryVisit) :
    embeddedEntry entry.field entry.previousID entry.storage = .ok entry.id entry.after := by
  obtain ⟨field, previousID, data, storage⟩ := entry
  unfold embeddedEntry id after taken
  cases previousID with
  | string id => cases owned : field.ownsEntry id <;> simp [owned, InMemoryStorage.nextRank]
  | _ => rfl

end EntryVisit

def embeddedIDs (config : ConfigFile) (entries : List EntryVisit) : List String :=
  (entries.filter (·.embedded config)).map (·.id)

def takenIDs (config : ConfigFile) (entries : List EntryVisit) : List String :=
  (entries.filter (·.embedded config)).filterMap (·.taken)

inductive WriteVisit where
  /-- An object is about to be written to a record that has its id from elsewhere. -/
  | record (id : String) (storage : InMemoryStorage)
  | list (field : LinkedField) (storage : InMemoryStorage) (entries : List EntryVisit)

def following {Value Item : Type} (program : WriteM Value) (next : InMemoryStorage → List Item)
    (storage : InMemoryStorage) : List Item :=
  match program storage with
  | .ok _ middle => next middle
  | .error _ _ => []

section Entries

variable (config : ConfigFile) (field : LinkedField) (write : String → GraphQLObject → WriteM Unit)

mutual

def entryVisits (previousID : GraphQLValue) : GraphQLValue → InMemoryStorage → List EntryVisit
  | .array entries => listVisits previousID.items entries
  | .null | .undefined => fun _ => []
  | .object data => fun storage => [{ field, previousID, data, storage }]
  | _ => fun storage => [{ field, previousID, data := [], storage }]

def listVisits (previousIDs : List GraphQLValue) :
    List GraphQLValue → InMemoryStorage → List EntryVisit
  | [], _ => []
  | entry :: rest, storage =>
      entryVisits (previousIDs.headD .undefined) entry storage ++
        following (extractEntryIDs config field write (previousIDs.headD .undefined) entry)
          (listVisits previousIDs.tail rest) storage

end

end Entries

abbrev WriteVisits := String → GraphQLObject → InMemoryStorage → List WriteVisit

def EntryVisit.within (config : ConfigFile) (visits : WriteVisits) (entry : EntryVisit) :
    List WriteVisit :=
  match entry.field.entryID config entry.id entry.data with
  | .ok (some id) =>
      let nested := visits id entry.data entry.after
      if entry.embedded config then nested else .record id entry.storage :: nested
  | _ => []

section Values

variable (context : WriteContext) (layer : LayerID)

def objectVisits (visits : WriteVisits) (field : LinkedField) (data : GraphQLObject)
    (storage : InMemoryStorage) : List WriteVisit :=
  match field.linkedID context.config data with
  | .ok (some id) =>
      .record id storage ::
        following (writeLinkTo layer field.parent field.key (.string id)) (visits id data) storage
  | _ => []

variable (write : SubscriptionSelection → String → GraphQLObject → WriteM Unit)
  (visits : SubscriptionSelection → WriteVisits)

def propertyVisits (parent : String) (field : SelectionField) (value : GraphQLValue)
    (storage : InMemoryStorage) : List WriteVisit :=
  let key := field.key context.vars
  let previous := (storage.get parent key).value
  match field.selection with
  | none => []
  | some selection =>
      let linked : LinkedField :=
        { parent, key, linkedType := linkedType field value, abstract := field.abstract }
      match value with
      | .object data => objectVisits context layer (visits selection) linked data storage
      | .array entries =>
          if previous == .undefined || previous == .null || previous.isArray then
            let entries :=
              listVisits context.config linked (write selection)
                (if insertsUpdates context (field.updates.getD []) then [] else previous.items)
                entries storage
            .list linked storage entries ::
              entries.flatMap (·.within context.config (visits selection))
          else []
      | _ => []

def fieldsVisits (parent : String) (fields : FieldSelections) :
    GraphQLObject → InMemoryStorage → List WriteVisit
  | [], _ => []
  | (name, value) :: rest, storage =>
      match fields.lookup name with
      | none => fieldsVisits parent fields rest storage
      | some field =>
          propertyVisits context layer write visits parent field value storage ++
            following (writeProperty context layer write parent field value)
              (fieldsVisits parent fields rest) storage

end Values

def selectionVisitsWithin (context : WriteContext) (layer : LayerID) :
    Nat → SubscriptionSelection → WriteVisits
  | 0, _, _, _, _ => []
  | depth + 1, selection, parent, data, storage =>
      if context.disabled then []
      else
        match getFieldsForType selection (data.property "__typename").text? with
        | none => []
        | some fields =>
            fieldsVisits context layer (writeSelectionWithin context layer depth)
              (selectionVisitsWithin context layer depth) parent fields data storage

def selectionVisits (context : WriteContext) (layer : LayerID) (selection : SubscriptionSelection) :
    WriteVisits :=
  selectionVisitsWithin context layer selection.depth selection

namespace WriteVisit

/-- An id that comes from elsewhere does not read with a rank that is still to be given out. A
list holds links only, and its embedded entries take over different ids. -/
def Careful (config : ConfigFile) : WriteVisit → Prop
  | .record id storage => Below storage.rank id
  | .list field storage entries =>
      storage.HoldsLinks field.parent field.key ∧ (takenIDs config entries).Nodup

/-- Ids that are generated are nowhere in the store yet. The embedded entries of a list, also of
the lists in it, have different ids. -/
def KeysFresh (config : ConfigFile) : WriteVisit → Prop
  | .record _ _ => True
  | .list _ _ entries =>
      (∀ entry ∈ entries, entry.taken = none → entry.storage.Fresh entry.id) ∧
        (embeddedIDs config entries).Nodup

end WriteVisit

end Houdini.Runtime.Cache
