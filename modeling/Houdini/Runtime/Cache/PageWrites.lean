import Houdini.Runtime.Cache.FreshLists
import Houdini.Runtime.Cache.ListFrames

/-! Writes that add a page of records to one end of a list: how they get to the list, and what
becomes of it. An optimistic layer records one insertion for each record, another layer
concatenates. -/

set_option autoImplicit false

namespace Houdini.Runtime.Cache

def OperationLocation.update : OperationLocation → String
  | .start => "prepend"
  | .end => "append"

def OperationLocation.join {Entry : Type} (location : OperationLocation)
    (added others : List Entry) : List Entry :=
  match location with
  | .start => added ++ others
  | .end => others ++ added

structure ListPage where
  location : OperationLocation
  ids : List String

namespace ListPage

def entries (page : ListPage) : List GraphQLValue := page.ids.map .string

def addTo (page : ListPage) (others : List GraphQLValue) : List GraphQLValue :=
  page.location.join page.entries others

def operations (page : ListPage) : List ListOperation := page.ids.map (.insert page.location)

end ListPage

theorem OperationLocation.mem_join {Entry : Type} {location : OperationLocation}
    {added others : List Entry} {entry : Entry} :
    entry ∈ location.join added others ↔ entry ∈ added ∨ entry ∈ others := by
  unfold join
  cases location <;> simp [or_comm]

theorem OperationLocation.join_nil {Entry : Type} (location : OperationLocation)
    (others : List Entry) : location.join [] others = others := by
  cases location <;> simp [join]

theorem OperationLocation.map_join {Entry Other : Type} (location : OperationLocation)
    (change : Entry → Other) (added others : List Entry) :
    (location.join added others).map change =
      location.join (added.map change) (others.map change) := by
  unfold join
  cases location <;> simp

structure PageField (context : WriteContext) (parent key : String) (page : ListPage) where
  field : SelectionField
  keyed : field.key context.vars = key
  accepted : page.location.update ∈ field.updates.getD []
  inner : SubscriptionSelection
  linked : field.selection = some inner
  entries : List GraphQLValue
  records : entries.map (LinkedField.recordOf
    { parent, key, linkedType := field.type, abstract := field.abstract }
    context.config) = page.ids.map some
  apart : KeysAllowed context.vars (InMemoryStorage.OtherKey parent key) inner

/-- How a write of an object gets to the field that the page is written to. The other fields
have other keys. -/
inductive PagePath (context : WriteContext) (parent key : String) (page : ListPage) :
    SubscriptionSelection → String → GraphQLObject → Type
  | here {selection : SubscriptionSelection} {name : String} {following : GraphQLObject}
      (preceding : GraphQLObject) (fields : FieldSelections)
      (list : PageField context parent key page)
      (typed : getFieldsForType selection (GraphQLObject.property
        (preceding ++ (name, .array list.entries) :: following) "__typename").text? = some fields)
      (selected : fields.lookup name = some list.field)
      (apart : ∀ property ∈ preceding ++ following, ∀ field,
        fields.lookup property.1 = some field →
          FieldAllowed context.vars (InMemoryStorage.OtherKey parent key) field) :
      PagePath context parent key page selection parent
        (preceding ++ (name, .array list.entries) :: following)
  | inside {selection inner : SubscriptionSelection} {name : String}
      {following data : GraphQLObject} (record : String) (preceding : GraphQLObject)
      (fields : FieldSelections) (field : SelectionField) (child : String)
      (typed : getFieldsForType selection (GraphQLObject.property
        (preceding ++ (name, .object data) :: following) "__typename").text? = some fields)
      (selected : fields.lookup name = some field)
      (linked : field.selection = some inner)
      (keyed : InMemoryStorage.OtherKey parent key (field.key context.vars))
      (leads : LinkedField.linkedID
        { parent := record, key := field.key context.vars,
          linkedType := linkedType field (.object data), abstract := field.abstract }
        context.config data = .ok (some child))
      (apart : ∀ property ∈ preceding ++ following, ∀ field,
        fields.lookup property.1 = some field →
          FieldAllowed context.vars (InMemoryStorage.OtherKey parent key) field)
      (path : PagePath context parent key page inner child data) :
      PagePath context parent key page selection record
        (preceding ++ (name, .object data) :: following)

structure PageWrite (parent key : String) where
  context : WriteContext
  enabled : context.disabled = false
  page : ListPage
  update : context.applyUpdates = some [page.location.update]
  selection : SubscriptionSelection
  plain : selection.hasOperations = false
  root : String
  data : GraphQLObject
  path : PagePath context parent key page selection root data

section

variable {context : WriteContext} {parent key : String} {page : ListPage}

namespace PageField

def linkedField (list : PageField context parent key page) : LinkedField where
  parent := parent
  key := key
  linkedType := list.field.type
  abstract := list.field.abstract

def write (list : PageField context parent key page) (layer : LayerID) : WriteM Unit :=
  writeProperty context layer (writeSelection context layer) parent list.field
    (.array list.entries)

def writeRecords (list : PageField context parent key page) (layer : LayerID) : WriteM ListIDs :=
  extractNestedListIDs context.config list.linkedField
    (writeSelection context layer list.inner) [] list.entries

end PageField

namespace PagePath

def list {selection : SubscriptionSelection} {record : String} {data : GraphQLObject} :
    PagePath context parent key page selection record data → PageField context parent key page
  | .here _ _ list _ _ _ => list
  | .inside _ _ _ _ _ _ _ _ _ _ _ path => path.list

def writeRecords (layer : LayerID) {selection : SubscriptionSelection} {record : String}
    {data : GraphQLObject} :
    PagePath context parent key page selection record data → WriteM ListIDs
  | .here preceding fields list _ _ _ => do
      writeFields context layer (writeSelection context layer) parent fields preceding
      list.writeRecords layer
  | .inside record preceding fields field child _ _ _ _ _ _ path => do
      writeFields context layer (writeSelection context layer) record fields preceding
      writeLinkTo layer record (field.key context.vars) (.string child)
      path.writeRecords layer

end PagePath

end

namespace PageWrite

variable {parent key : String}

def write (page : PageWrite parent key) (layer : Option LayerID) : WriteM Unit :=
  Cache.write page.context page.selection page.data page.root layer

def writeRecords (page : PageWrite parent key) (layer : Option LayerID) : WriteM ListIDs := do
  let layer ← writeLayer layer
  page.path.writeRecords layer

end PageWrite

def writePages {parent key : String} (pages : List (PageWrite parent key))
    (layer : Option LayerID) : WriteM Unit :=
  pages.forM fun page => page.write layer

namespace Layer

def withOperations (layer : Layer) (record field : String) (operations : List ListOperation) :
    Layer :=
  { layer with
    operations := layer.operations.set record
      { (layer.operations.get? record).getD {} with
        fields := some ((((layer.operations.get? record).getD {}).fields.getD ∅).set field
          operations) } }

def inserting (id : LayerID) (parent key : String) (operations : List ListOperation) : Layer :=
  withOperations { id, optimistic := true } parent key operations

def linking (layer : Layer) (parent key : String) (entries : List GraphQLValue) : Layer :=
  { layer with links := layer.links.setIn parent key (.array entries) }

section

variable {parent key : String} {layer current written : Layer}

theorem listOperations_of_ok {existing : Option (List ListOperation)}
    (looked : layer.fieldOperations parent key = .ok existing) :
    layer.listOperations parent key = existing.getD [] := by
  unfold fieldOperations at looked
  unfold listOperations
  cases found : layer.operations.get? parent with
  | none =>
      rw [found] at looked
      cases looked
      rfl
  | some entry =>
      cases held : entry.fields with
      | none => simp [found, held] at looked
      | some fields =>
          simp only [found, held, Except.ok.injEq] at looked
          simp [held, looked]

theorem listOperations_withOperations (operations : List ListOperation) (record : String) :
    (layer.withOperations parent key operations).listOperations record key =
      if record = parent then operations else layer.listOperations record key := by
  unfold listOperations withOperations
  by_cases same : record = parent
  · simp [same]
  · simp [same]

theorem deletes_withOperations (operations : List ListOperation) (record : String) :
    (layer.withOperations parent key operations).deletes record = layer.deletes record := by
  unfold deletes withOperations
  by_cases same : record = parent
  · cases found : layer.operations.get? parent <;> simp [same, found]
  · simp [same]

theorem undoesDelete_withOperations (operations : List ListOperation) (record field : String) :
    (layer.withOperations parent key operations).undoesDelete record field =
      layer.undoesDelete record field := by
  unfold undoesDelete withOperations
  by_cases same : record = parent
  · cases found : layer.operations.get? parent <;> simp [same, found]
  · simp [same]

theorem KeepsList.withOperations (kept : layer.KeepsList parent key current)
    (operations : List ListOperation) :
    (layer.withOperations parent key operations).KeepsList parent key
      (current.withOperations parent key operations) where
  header := kept.header
  value := kept.value
  deletes := by
    intro record
    rw [deletes_withOperations, deletes_withOperations, kept.deletes]
  operations := by
    intro record
    rw [listOperations_withOperations, listOperations_withOperations, kept.operations]
  deletedIDs := kept.deletedIDs
  undone := by
    intro record
    rw [undoesDelete_withOperations, undoesDelete_withOperations, kept.undone]

theorem keepsList_withOperations {operations : List ListOperation}
    (same : layer.listOperations parent key = operations) :
    layer.KeepsList parent key (layer.withOperations parent key operations) where
  header := rfl
  value := rfl
  deletes := deletes_withOperations operations
  operations := by
    intro record
    rw [listOperations_withOperations]
    split
    · rename_i record_eq
      rw [record_eq, same]
    · rfl
  deletedIDs := rfl
  undone := fun record => undoesDelete_withOperations operations record key

theorem keepsList_withOperations_twice (first last : List ListOperation) :
    (layer.withOperations parent key last).KeepsList parent key
      ((layer.withOperations parent key first).withOperations parent key last) where
  header := rfl
  value := rfl
  deletes := by
    intro record
    simp only [deletes_withOperations]
  operations := by
    intro record
    simp only [listOperations_withOperations]
    split <;> rfl
  deletedIDs := rfl
  undone := by
    intro record
    simp only [undoesDelete_withOperations]

theorem keepsList_inserting_nil {id : LayerID} :
    (inserting id parent key []).KeepsList parent key { id, optimistic := true } :=
  (keepsList_withOperations rfl).symm

theorem KeepsList.insert {id : LayerID} {operations : List ListOperation}
    {location : OperationLocation} {target : String}
    (kept : (inserting id parent key operations).KeepsList parent key current)
    (success : current.insert parent key location target = .ok written) :
    (inserting id parent key (operations ++ [.insert location target])).KeepsList parent key
      written := by
  unfold Layer.insert addFieldOperation at success
  cases looked : current.fieldOperations parent key with
  | error error => simp [looked, bind, Except.bind] at success
  | ok existing =>
      simp only [looked, bind, Except.bind] at success
      cases success
      have recorded : existing.getD [] = operations := by
        rw [← listOperations_of_ok looked, kept.operations, inserting,
          listOperations_withOperations, if_pos rfl]
      rw [recorded]
      exact (keepsList_withOperations_twice operations _).trans (kept.withOperations _)

/-- Linking a record that the layer neither deletes nor inserts or removes changes nothing for
the list. -/
theorem keepsList_undelete_new {id : String} (kept : layer.isDeleted (.string id) = false)
    (unnamed : ∀ operation ∈ layer.listOperations parent key, operation.target ≠ id)
    (success : layer.undelete parent key (.string id) = .ok written) :
    layer.KeepsList parent key written := by
  unfold undelete at success
  cases looked : layer.fieldOperations parent key with
  | error error => simp [looked, bind, Except.bind] at success
  | ok existing =>
      simp only [looked, bind, Except.bind, kept, Bool.false_eq_true, if_false] at success
      split at success
      · cases success
        exact .refl layer
      · cases success
        exact .refl layer
      · rename_i operations _
        cases success
        have recorded := listOperations_of_ok looked
        rw [Option.getD_some] at recorded
        refine keepsList_withOperations (recorded.trans (List.filter_eq_self.mpr ?_).symm)
        intro operation member
        rw [recorded] at unnamed
        simp [unnamed operation member]

/-- Linking records that the layer neither deletes nor inserts or removes only changes the
links. -/
theorem KeepsList.writeLink {ids : List String} (kept : layer.KeepsList parent key current)
    (named : ∀ id ∈ ids, id ≠ "") (undeleted : ∀ id ∈ ids, layer.isDeleted (.string id) = false)
    (unnamed : ∀ id ∈ ids, ∀ operation ∈ layer.listOperations parent key, operation.target ≠ id)
    (success : current.writeLink parent key (.array (ids.map .string)) = .ok () written) :
    (layer.linking parent key (ids.map .string)).KeepsList parent key written := by
  unfold Layer.writeLink at success
  rw [flattenLinks_strings named] at success
  unfold linking
  have defined : (GraphQLValue.array (ids.map .string)).isDefined = true := rfl
  generalize GraphQLValue.array (ids.map .string) = list at success defined ⊢
  clear named
  induction ids generalizing current with
  | nil =>
      cases success
      exact
        { header := kept.header
          value := by simp [Layer.value, Layer.get, OrderedMap.getIn?_setIn, defined]
          deletes := kept.deletes
          operations := kept.operations
          deletedIDs := kept.deletedIDs
          undone := kept.undone }
  | cons id rest ih =>
      rw [List.map_cons] at success
      unfold writeLink.undeleteAll at success
      cases first : current.undelete parent key (.string id) with
      | error error =>
          rw [first] at success
          cases success
      | ok middle =>
          rw [first] at success
          have unchanged : current.KeepsList parent key middle := by
            refine keepsList_undelete_new ?_ ?_ first
            · rw [isDeleted_congr kept.deletes kept.deletedIDs]
              exact undeleted id List.mem_cons_self
            · rw [kept.operations]
              exact unnamed id List.mem_cons_self
          exact ih (kept.trans unchanged)
            (fun other member => undeleted other (List.mem_cons_of_mem _ member))
            (fun other member => unnamed other (List.mem_cons_of_mem _ member)) success

theorem keepsList_linking_twice (first last : List GraphQLValue) :
    (layer.linking parent key last).KeepsList parent key
      ((layer.linking parent key first).linking parent key last) where
  header := rfl
  value := by
    simp [Layer.value, Layer.get, linking, OrderedMap.getIn?_setIn]
  deletes := fun _ => rfl
  operations := fun _ => rfl
  deletedIDs := rfl
  undone := fun _ => rfl

end

end Layer

namespace InMemoryStorage

/-- The layers can be told apart, and the one that is written to undid no delete for the list. -/
structure QuietAt (storage : InMemoryStorage) (layer : LayerID) (key : String) : Prop where
  distinct : (storage.headers.map (·.1)).Nodup
  undone : ∀ current ∈ storage.data, current.id = layer → current.NoneUndone key

theorem KeepsList.quietAt {parent key : String} {storage final : InMemoryStorage}
    (kept : KeepsList parent key storage final) {layer : LayerID}
    (quiet : storage.QuietAt layer key) : final.QuietAt layer key where
  distinct := by
    rw [kept.headers]
    exact quiet.distinct
  undone := by
    obtain ⟨layers, _⟩ := kept
    have undone := quiet.undone
    generalize storage.data = before at layers undone
    generalize final.data = after at layers
    induction layers with
    | nil => exact fun _ member => nomatch member
    | @cons first written _ _ same _ ih =>
        intro current member target
        rcases List.mem_cons.mp member with rfl | later
        · have sameID : current.id = first.id := congrArg Prod.fst same.header
          exact same.noneUndone (undone first List.mem_cons_self (sameID.symm.trans target))
        · exact ih (fun other known => undone other (List.mem_cons_of_mem _ known))
            current later target

theorem QuietAt.keptAt {parent key : String} {storage : InMemoryStorage} {layer : LayerID}
    (quiet : storage.QuietAt layer key) :
    KeptAt layer (OtherKey parent key) (KeepsList parent key storage) :=
  keepsList_keptAt quiet.distinct quiet.undone

def stack (below : List Layer) (top : Layer) (idMaps : OrderedMap String String) :
    InMemoryStorage :=
  { data := below ++ [top], idMaps }

theorem views_alone {storage : InMemoryStorage} {parent : String}
    (alone : storage.recordIDs parent = [parent]) (key : String) :
    storage.views parent key =
      storage.data.reverse.map fun layer => layer.view storage.idMaps parent key := by
  unfold views
  rw [alone, List.map_eq_flatMap]
  rfl

theorem views_stack {parent key : String} {below : List Layer} {top : Layer}
    {idMaps : OrderedMap String String} (alone : (stack below top idMaps).recordIDs parent = [parent]) :
    (stack below top idMaps).views parent key = top.view idMaps parent key ::
      below.reverse.map fun layer => layer.view idMaps parent key := by
  rw [views_alone alone]
  simp [stack]

theorem KeepsList.top {parent key : String} {storage : InMemoryStorage} {below : List Layer}
    {top : Layer} {idMaps : OrderedMap String String}
    (kept : (stack below top idMaps).KeepsList parent key storage)
    (distinct : ((stack below top idMaps).headers.map (·.1)).Nodup) :
    ∃ current, storage.data.getLast? = some current ∧
      storage.data.find? (·.id == top.id) = some current ∧ top.KeepsList parent key current ∧
      ∀ other written : Layer, written.id = top.id → other.KeepsList parent key written →
        (stack below other idMaps).KeepsList parent key (storage.setLayer written) := by
  have ids : (storage.data.map (·.id)).Nodup := by
    rw [← headers_fst, kept.headers]
    exact distinct
  obtain ⟨layers, sameMaps⟩ := kept
  have reversed := List.rel_reverse layers
  change List.Forall₂ _ (below ++ [top]).reverse _ at reversed
  rw [List.reverse_append] at reversed
  generalize backwards : storage.data.reverse = data at reversed
  cases reversed with
  | @cons _ current _ front same rest =>
      have split : storage.data = front.reverse ++ [current] := by
        rw [← List.reverse_reverse storage.data, backwards, List.reverse_cons]
      have keptBelow : List.Forall₂ (Layer.KeepsList parent key) below front.reverse := by
        simpa using List.rel_reverse rest
      have sameID : current.id = top.id := congrArg Prod.fst same.header
      have others : ∀ layer ∈ front.reverse, layer.id ≠ top.id := by
        intro layer member
        rw [split, List.map_append, List.nodup_append] at ids
        rw [← sameID]
        exact ids.2.2 layer.id (List.mem_map_of_mem member) current.id (by simp)
      refine ⟨current, by simp [split], ?_, same, ?_⟩
      · rw [split, List.find?_append, List.find?_eq_none.mpr (by simpa using others)]
        simp [sameID]
      · intro other written target keptTop
        refine ⟨?_, sameMaps⟩
        have unchanged : front.reverse.map (fun layer =>
            if layer.id = written.id then written else layer) = front.reverse := by
          refine (List.map_congr_left fun layer member => ?_).trans (List.map_id _)
          exact if_neg fun same => others layer member (same.trans target)
        unfold setLayer
        rw [split, List.map_append, unchanged]
        simp only [stack, List.map_cons, List.map_nil, sameID, target, if_true]
        exact List.rel_append keptBelow (.cons keptTop .nil)

end InMemoryStorage

section Steps

variable {context : WriteContext} {parent key : String} {page : ListPage}
  {layer : LayerID} {storage final : InMemoryStorage}

open InMemoryStorage

private theorem kept_of_ok {Value : Type} {program : WriteM Value}
    {good : InMemoryStorage → Prop} (kept : EStateM.Keeps good program) (holds : good storage)
    {value : Value} (success : program storage = .ok value final) : good final := by
  have satisfied := kept storage holds
  rw [success] at satisfied
  exact satisfied

private theorem kept_beside {fields : FieldSelections} {data : GraphQLObject}
    (apart : ∀ property ∈ data, ∀ field, fields.lookup property.1 = some field →
      FieldAllowed context.vars (OtherKey parent key) field)
    (quiet : storage.QuietAt layer key) {record : String}
    (success : writeFields context layer (writeSelection context layer) record fields data
      storage = .ok () final) : storage.KeepsList parent key final := by
  have kept := @QuietAt.keptAt parent _ _ _ quiet
  refine kept_of_ok (kept.writeFields data (fun name value member field found => ?_) record)
    (.refl storage) success
  have allowed := apart (name, value) member field found
  exact ⟨allowed, fun inner nested id data => kept.writeSelection (allowed.nested inner nested) id data⟩

private theorem writeSelection_around {selection : SubscriptionSelection} {fields : FieldSelections}
    {preceding following : GraphQLObject} {name : String} {value : GraphQLValue}
    {field : SelectionField} (enabled : context.disabled = false)
    (typed : getFieldsForType selection (GraphQLObject.property
      (preceding ++ (name, value) :: following) "__typename").text? = some fields)
    (selected : fields.lookup name = some field) (record : String) :
    writeSelection context layer selection record (preceding ++ (name, value) :: following) =
      (writeFields context layer (writeSelection context layer) record fields preceding >>= fun _ =>
        writeProperty context layer (writeSelection context layer) record field value >>= fun _ =>
          writeFields context layer (writeSelection context layer) record fields following) := by
  rw [writeSelection_eq, typed]
  simp only [enabled, Bool.false_eq_true, if_false]
  rw [writeFields_append]
  refine congrArg _ (funext fun _ => ?_)
  rw [writeFields, selected]

private theorem PagePath.write_ok {selection : SubscriptionSelection} {record : String}
    {data : GraphQLObject} (path : PagePath context parent key page selection record data)
    (enabled : context.disabled = false) (quiet : storage.QuietAt layer key)
    (success : writeSelection context layer selection record data storage = .ok () final) :
    ∃ begun middle, storage.KeepsList parent key begun ∧
      path.list.write layer begun = .ok () middle ∧
      path.writeRecords layer storage = path.list.writeRecords layer begun ∧
      (middle.QuietAt layer key → middle.KeepsList parent key final) := by
  induction path generalizing storage final with
  | here preceding fields list typed selected apart =>
      rw [writeSelection_around enabled typed selected] at success
      obtain ⟨_, begun, first, success⟩ := EStateM.bind_eq_ok success
      obtain ⟨_, middle, written, last⟩ := EStateM.bind_eq_ok success
      refine ⟨begun, middle, ?_, written, ?_, fun quiet => ?_⟩
      · exact kept_beside (fun property member => apart property (List.mem_append_left _ member))
          quiet first
      · exact EStateM.bind_of_ok first
      · exact kept_beside (fun property member => apart property (List.mem_append_right _ member))
          quiet last
  | inside record preceding fields field child typed selected linked keyed leads apart path ih =>
      rw [writeSelection_around enabled typed selected] at success
      obtain ⟨_, first, before, success⟩ := EStateM.bind_eq_ok success
      obtain ⟨_, last, written, after⟩ := EStateM.bind_eq_ok success
      have keptFirst := kept_beside
        (fun property member => apart property (List.mem_append_left _ member)) quiet before
      unfold writeProperty at written
      have started : (get : WriteM InMemoryStorage) first = .ok first first := rfl
      rw [EStateM.bind_of_ok started, linked] at written
      dsimp only at written
      unfold writeObject at written
      rw [leads] at written
      obtain ⟨_, led, toChild, written⟩ := EStateM.bind_eq_ok written
      have quietFirst := keptFirst.quietAt quiet
      have keptLed : first.KeepsList parent key led :=
        kept_of_ok (quietFirst.keptAt.writeLink record _ (.string child) keyed) (.refl first) toChild
      have quietLed := keptLed.quietAt quietFirst
      obtain ⟨begun, middle, keptBegun, wrote, records, rest⟩ := ih quietLed written
      refine ⟨begun, middle, (keptFirst.trans keptLed).trans keptBegun, wrote, ?_, fun quiet => ?_⟩
      · unfold PagePath.writeRecords
        rw [EStateM.bind_of_ok before, EStateM.bind_of_ok toChild]
        exact records
      · have keptLast := rest quiet
        exact keptLast.trans (kept_beside
          (fun property member => apart property (List.mem_append_right _ member))
          (keptLast.quietAt quiet) after)

def countedIDs (storage : InMemoryStorage) (key : String) (shown : List GraphQLValue) :
    List GraphQLValue :=
  shown.filter fun id => !hasListOperation storage key id

def addPage (parent key : String) (layer : LayerID) (page : ListPage)
    (linked : List GraphQLValue) (optimistic : Bool) : WriteM Unit :=
  if optimistic then
    page.operations.forM fun operation =>
      insertInto layer parent key page.location operation.target
  else writeLinkTo layer parent key (.array linked)

private theorem PageField.linkList_eq (list : PageField context parent key page)
    (linked : List GraphQLValue) (changed optimistic : Bool) :
    linkList layer list.linkedField
        { update :=
            { linkedIDs := linked
              action := if optimistic then .insert page.location else .link }
          newIDs := page.entries
          changed } =
      addPage parent key layer page linked optimistic := by
  unfold linkList addPage
  cases optimistic with
  | false => rfl
  | true =>
      have named := named_of_records list.records
      change (page.ids.map GraphQLValue.string).forM _ =
        (page.ids.map (ListOperation.insert page.location)).forM _
      generalize page.ids = ids at named
      induction ids with
      | nil => rfl
      | cons id rest ih =>
          have below := ih fun other member => named other (List.mem_cons_of_mem _ member)
          change ((if id = "" then pure () else _) >>= fun _ => _) = (_ >>= fun _ => _)
          rw [if_neg (named id List.mem_cons_self)]
          exact congrArg _ (funext fun _ => below)

private theorem kept_removeLostEntries {start : InMemoryStorage} {field : LinkedField}
    (owner : field.parent = parent) (kept : start.KeepsList parent key storage)
    {oldIDs linkedIDs : List GraphQLValue}
    (success : removeLostEntries layer field oldIDs linkedIDs storage = .ok () final) :
    start.KeepsList parent key final := by
  unfold removeLostEntries at success
  split at success
  · cases success
    exact kept
  · rename_i resolved
    clear resolved
    cases success
    have apart : ∀ id ∈ lostEntries field oldIDs linkedIDs, id ≠ parent := by
      intro id member same
      have owned := (Bool.and_eq_true_iff.mp (List.mem_filter.mp member).2).2
      unfold LinkedField.ownsEntry at owned
      have shorter := (List.isPrefixOf_iff_prefix.mp owned).length_le
      rw [same, owner] at shorter
      simp only [String.toList_append, List.length_append] at shorter
      have dot : ".".toList.length = 1 := by decide
      omega
    generalize lostEntries field oldIDs linkedIDs = lost at apart
    induction lost generalizing storage with
    | nil => exact kept
    | cons id rest ih =>
        exact ih (kept.removeEmbeddedRecord (apart id List.mem_cons_self))
          fun other member => apart other (List.mem_cons_of_mem _ member)

private theorem PageField.updateList_eq (list : PageField context parent key page)
    (update : context.applyUpdates = some [page.location.update]) (oldIDs : List GraphQLValue) :
    updateList context layer storage list.field.updates ⟨page.entries, page.entries⟩ oldIDs =
      { linkedIDs := page.addTo (filterIDs storage page.entries oldIDs)
        action := if isOptimistic layer storage then .insert page.location else .link } := by
  have accepted := list.accepted
  unfold updateList
  rw [update]
  cases updates : list.field.updates with
  | none =>
      rw [updates] at accepted
      cases accepted
  | some names =>
      rw [updates] at accepted
      have taken : names.contains page.location.update = true := by simpa using accepted
      change applyListUpdate _ _ names _ _ {} page.location.update = _
      unfold applyListUpdate
      rw [taken]
      unfold ListPage.addTo
      cases page.location <;> simp [OperationLocation.update, OperationLocation.join]

private theorem PageField.write_ok (list : PageField context parent key page)
    (update : context.applyUpdates = some [page.location.update])
    (quiet : storage.QuietAt layer key) {shown : List GraphQLValue}
    (listed : storage.value parent key = .array shown)
    (success : list.write layer storage = .ok () final) :
    ∃ found extracted prepared, list.writeRecords layer storage = .ok found extracted ∧
      storage.KeepsList parent key prepared ∧
      (if page.addTo (filterIDs extracted page.entries (countedIDs storage key shown)) ≠
            countedIDs storage key shown ∨
          (countedIDs storage key shown = [] ∧ page.ids = []) then
        addPage parent key layer page
          (page.addTo (filterIDs extracted page.entries (countedIDs storage key shown)))
          (isOptimistic layer storage)
      else pure ()) prepared = .ok () final := by
  unfold PageField.write writeProperty at success
  have started : (get : WriteM InMemoryStorage) storage = .ok storage storage := rfl
  rw [EStateM.bind_of_ok started, list.linked, list.keyed] at success
  change (if storage.value parent key == GraphQLValue.undefined ||
      storage.value parent key == GraphQLValue.null ||
      (storage.value parent key).isArray then
        writeList context layer (writeSelection context layer list.inner) list.field.updates
          list.linkedField (storage.value parent key) list.entries
      else pure ()) storage = _ at success
  rw [listed, if_pos (by simp [GraphQLValue.isArray])] at success
  unfold writeList at success
  obtain ⟨result, prepared, first, linked⟩ := EStateM.bind_eq_ok success
  unfold prepareList at first
  rw [EStateM.bind_of_ok started] at first
  have inserts : insertsUpdates context (list.field.updates.getD []) = true := by
    have other : page.location.update ≠ "replace" := by
      cases page.location <;> simp [OperationLocation.update]
    have accepted := list.accepted
    simp [insertsUpdates, update, other, accepted]
  rw [inserts, if_pos rfl] at first
  obtain ⟨found, extracted, records, first⟩ := EStateM.bind_eq_ok first
  have again : (get : WriteM InMemoryStorage) extracted = .ok extracted extracted := rfl
  rw [EStateM.bind_of_ok again] at first
  obtain ⟨_, cleaned, removed, first⟩ := EStateM.bind_eq_ok first
  obtain ⟨same, rfl⟩ := EStateM.pure_eq_ok first
  have keptRecords : storage.KeepsList parent key extracted :=
    kept_of_ok (quiet.keptAt.extractNestedListIDs
      (fun id data => quiet.keptAt.writeSelection list.apart id data) [] list.entries)
      (.refl storage) records
  refine ⟨found, extracted, prepared, records, kept_removeLostEntries rfl keptRecords removed, ?_⟩
  have ids : found = ⟨page.entries, page.entries⟩ :=
    extractNestedListIDs_records list.records [] records
  have counted : previousListIDs storage (list.field.updates.getD []) list.linkedField.key
      (.array shown) = countedIDs storage key shown := by
    have accepted := list.accepted
    unfold previousListIDs
    rw [if_pos]
    · rfl
    · cases location : page.location <;> rw [location] at accepted <;>
        simp [OperationLocation.update] at accepted <;> simp [accepted]
  rw [counted, ids, list.updateList_eq update, keptRecords.isOptimistic] at same
  rw [same, list.linkList_eq] at linked
  have condition : (page.addTo (filterIDs extracted page.entries (countedIDs storage key shown)) ≠
        countedIDs storage key shown ∨ (countedIDs storage key shown = [] ∧ page.ids = [])) ↔
      (page.addTo (filterIDs extracted page.entries (countedIDs storage key shown)) !=
          countedIDs storage key shown || GraphQLValue.array shown == .null ||
        ((countedIDs storage key shown).isEmpty && page.entries.isEmpty)) = true := by
    simp [ListPage.entries]
  simp only [condition]
  exact linked

theorem PageWrite.write_ok (page : PageWrite parent key) {target : Option LayerID}
    (targeted : writeLayer target storage = .ok layer storage)
    (quiet : storage.QuietAt layer key) (alone : storage.recordIDs parent = [parent])
    {shown : List GraphQLValue} (listed : storage.value parent key = .array shown)
    (success : page.write target storage = .ok () final) :
    ∃ found extracted prepared middle,
      page.writeRecords target storage = .ok found extracted ∧
      storage.KeepsList parent key prepared ∧
      (if page.page.addTo
              (filterIDs extracted page.page.entries (countedIDs storage key shown)) ≠
            countedIDs storage key shown ∨
          (countedIDs storage key shown = [] ∧ page.page.ids = []) then
        addPage parent key layer page.page (page.page.addTo
            (filterIDs extracted page.page.entries (countedIDs storage key shown)))
          (isOptimistic layer storage)
      else pure ()) prepared = .ok () middle ∧
      (middle.QuietAt layer key → middle.KeepsList parent key final) := by
  unfold PageWrite.write Cache.write at success
  rw [EStateM.bind_of_ok targeted] at success
  obtain ⟨begun, middle, keptBegun, written, records, rest⟩ :=
    page.path.write_ok page.enabled quiet success
  have listedBegun : begun.value parent key = .array shown := by
    rw [keptBegun.value alone, listed]
  obtain ⟨found, extracted, prepared, recorded, keptPrepared, added⟩ :=
    page.path.list.write_ok page.update (keptBegun.quietAt quiet) listedBegun written
  have counted : countedIDs begun key shown = countedIDs storage key shown := by
    unfold countedIDs
    simp only [keptBegun.hasListOperation]
  rw [counted, keptBegun.isOptimistic] at added
  refine ⟨found, extracted, prepared, middle, ?_, keptBegun.trans keptPrepared, added, rest⟩
  unfold PageWrite.writeRecords
  rw [EStateM.bind_of_ok targeted, records]
  exact recorded

end Steps

end Houdini.Runtime.Cache
