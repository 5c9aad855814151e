import Houdini.Runtime.Cache.GarbageCollection
import Houdini.Runtime.Cache.PageWrites

/-! What is written to a layer after a record was deleted there promises to be shown while the
layer is on top. -/

set_option autoImplicit false

namespace Houdini.Runtime.Cache

/-- What a link can hold: nothing, a record, or a nested list of these. -/
inductive Link where
  | null
  | record (id : String)
  | list (entries : List Link)

namespace Link

mutual

def toValue : Link → GraphQLValue
  | null => .null
  | record id => .string id
  | list entries => .array (toValues entries)

def toValues : List Link → List GraphQLValue
  | [] => []
  | entry :: rest => entry.toValue :: toValues rest

end

mutual

def ids : Link → List String
  | null => []
  | record id => if id = "" then [] else [id]
  | list entries => idsOf entries

def idsOf : List Link → List String
  | [] => []
  | entry :: rest => entry.ids ++ idsOf rest

end

def isList : Link → Bool
  | list _ => true
  | _ => false

mutual

theorem flattenEntry_toValue : ∀ link : Link,
    GraphQLValue.flattenEntry link.toValue = link.ids.map .string
  | null => rfl
  | record id => by
      rw [toValue, ids, GraphQLValue.flattenEntry]
      · by_cases empty : id = ""
        · simp [GraphQLValue.truthy, empty]
        · simp [GraphQLValue.truthy, empty]
      · intro _ same
        cases same
  | list entries => by
      rw [toValue, ids, GraphQLValue.flattenEntry]
      exact flatten_toValues entries

theorem flatten_toValues : ∀ entries : List Link,
    GraphQLValue.flatten (toValues entries) = (idsOf entries).map .string
  | [] => rfl
  | entry :: rest => by
      rw [toValues, idsOf, GraphQLValue.flatten, List.map_append, flattenEntry_toValue entry,
        flatten_toValues rest]

end

theorem flattenLinks_toValue (link : Link) :
    link.toValue.flattenLinks = link.ids.map .string := by
  cases link with
  | list entries => exact flatten_toValues entries
  | null => rfl
  | record id =>
      have entry := flattenEntry_toValue (record id)
      rw [toValue] at entry ⊢
      change GraphQLValue.flatten [.string id] = _
      rw [GraphQLValue.flatten, GraphQLValue.flatten, entry, List.append_nil]

theorem isArray_toValue (link : Link) : link.toValue.isArray = link.isList := by
  cases link <;> rfl

end Link

inductive LayerCall where
  | writeField (id field : String) (value : GraphQLValue)
  | writeLink (id field : String) (link : Link)
  | insert (id field : String) (location : OperationLocation) (target : String)
  | remove (id field target : String)
  | delete (id : String)
  | deleteField (id field : String)
  | removeUndefinedFields
  | clear

namespace LayerCall

def run (layer : Layer) : LayerCall → Layer
  | writeField id field value => layer.writeField id field value
  | writeLink id field link => resultState (layer.writeLink id field link.toValue)
  | insert id field location target =>
      match layer.insert id field location target with
      | .ok written => written
      | .error _ => layer
  | remove id field target =>
      match layer.remove id field target with
      | .ok written => written
      | .error _ => layer
  | delete id => layer.delete id
  | deleteField id field => layer.deleteField id field
  | removeUndefinedFields => layer.removeUndefinedFields
  | clear => layer.clear

theorem step_run (layer : Layer) (call : LayerCall) :
    layer.Step (call.run layer) ∨ call.run layer = layer := by
  cases call with
  | writeField id field value => exact .inl (.writeField layer id field value)
  | writeLink id field link => exact .inl (.writeLink layer id field link.toValue)
  | insert id field location target =>
      cases result : layer.insert id field location target with
      | error error => exact .inr (by simp only [run, result])
      | ok written =>
          simp only [run, result]
          exact .inl (.insert id field location target result)
  | remove id field target =>
      cases result : layer.remove id field target with
      | error error => exact .inr (by simp only [run, result])
      | ok written =>
          simp only [run, result]
          exact .inl (.remove id field target result)
  | delete id => exact .inl (.delete layer id)
  | deleteField id field => exact .inl (.deleteField layer id field)
  | removeUndefinedFields => exact .inl (.removeUndefinedFields layer)
  | clear => exact .inl (.clear layer)

end LayerCall

inductive Promise where
  | shown (id field : String) (value : GraphQLValue)
  | listed (parent field id : String)

def otherID? (idMaps : OrderedMap String String) (id : String) : Option String :=
  (idMaps.get? id).filter (· != "")

theorem toList_otherID? (idMaps : OrderedMap String String) (id : String) :
    (idMaps.get? id).toList.filter (· != "") = (otherID? idMaps id).toList := by
  unfold otherID?
  cases idMaps.get? id with
  | none => rfl
  | some other => by_cases empty : other = "" <;> simp [empty, Option.filter]

def SameRecord (idMaps : OrderedMap String String) (id other : String) : Prop :=
  id = other ∨ otherID? idMaps id = some other ∨ otherID? idMaps other = some id

namespace Promise

def cell : Promise → String × String
  | shown id field _ => (id, field)
  | listed parent field _ => (parent, field)

/-- The field is written again, the record is deleted again or removed from the list, or what holds
them is gone. -/
def Ends (idMaps : OrderedMap String String) (promise : Promise) : LayerCall → Prop
  | .writeField id field _ | .writeLink id field _ | .deleteField id field =>
      field = promise.cell.2 ∧ SameRecord idMaps id promise.cell.1
  | .delete id => SameRecord idMaps id promise.cell.1 ∨
      ∃ parent field target, promise = listed parent field target ∧ SameRecord idMaps id target
  | .remove id field target => SameRecord idMaps id promise.cell.1 ∧
      promise = listed promise.cell.1 field target
  | .clear => True
  | .insert .. | .removeUndefinedFields => False

def Kept (storage : InMemoryStorage) : Promise → Prop
  | shown id field value => (storage.get id field).value = value
  | listed parent field id => .string id ∈ (storage.get parent field).value.flattenLinks

end Promise

/-- What was deleted in a layer since it was cleared, and what was promised since. -/
structure Ledger where
  deleted : String → Prop := fun _ => False
  promised : Promise → Prop := fun _ => False

namespace Ledger

/-- A write to a deleted record promises to be shown, and a list that it shows the deleted records
in it. -/
def Makes (ledger : Ledger) : LayerCall → Promise → Prop
  | .writeField id field value, promise => ledger.deleted id ∧ promise = .shown id field value
  | .writeLink id field link, promise =>
      (ledger.deleted id ∧ promise = .shown id field link.toValue) ∨
        (link.isList = true ∧
          ∃ target ∈ link.ids, ledger.deleted target ∧ promise = .listed id field target)
  | _, _ => False

def next (idMaps : OrderedMap String String) (ledger : Ledger) (call : LayerCall) : Ledger where
  deleted := fun id => call = .delete id ∨ (call ≠ .clear ∧ ledger.deleted id)
  promised := fun promise =>
    ledger.Makes call promise ∨ (ledger.promised promise ∧ ¬ promise.Ends idMaps call)

end Ledger

/-- The other id of the record stands for nothing in the layer, and is not deleted there. -/
def Layer.Unnamed (layer : Layer) (idMaps : OrderedMap String String) (id field : String) : Prop :=
  ∀ other, otherID? idMaps id = some other → other ≠ id →
    layer.value other field = .undefined ∧ layer.deletes other = false

def NestedIn (list : GraphQLValue) (id : String) : Prop :=
  ∃ inner, .array inner ∈ list.items ∧ .string id ∈ GraphQLValue.flatten inner

namespace LayerCall

def Sound (idMaps : OrderedMap String String) (ledger : Ledger) (layer : Layer) :
    LayerCall → Prop
  | writeField id field value =>
      -- no list, and no link is in the way
      ledger.deleted id → value.isArray = false ∧
        (layer.links.getIn? id field).getD .undefined = .undefined ∧ layer.Unnamed idMaps id field
  | writeLink id field link =>
      -- a write that promises something does not throw
      ((∃ promise, ledger.Makes (.writeLink id field link) promise) →
        (link.ids = [] ∨ layer.Linkable id link.ids) ∧ layer.Unnamed idMaps id field) ∧
      (ledger.deleted id → link.isList = false) ∧
      (∀ target ∈ link.ids, ledger.deleted target → link.isList = true →
        layer.deletes id = false ∧ (NestedIn link.toValue target ∨
          target ∉ layer.hiddenBeside idMaps field link.ids ∧
            ∀ name, name = id ∨ otherID? idMaps id = some name →
              ¬ ListOperation.Removes (layer.listOperations name field) target)) ∧
      -- a record that is shown in a list under another field is not linked again
      ∀ parent list target, ledger.promised (.listed parent list target) →
        ¬ NestedIn (layer.value parent list) target →
        ∀ other ∈ link.ids, other ∈ layer.deletedIDs → SameRecord idMaps other target →
          list = field ∨ layer.undoesDelete id list = true
  | removeUndefinedFields =>
      -- a link is not in a field that was deleted before
      ∀ promise, ledger.promised promise →
        layer.value promise.cell.1 promise.cell.2 ≠ .undefined →
          layer.fields.getIn? promise.cell.1 promise.cell.2 ≠ some .undefined
  | insert .. | remove .. | delete _ | deleteField .. | clear => True

end LayerCall

def SoundCalls (idMaps : OrderedMap String String) : Ledger → Layer → List LayerCall → Prop
  | _, _, [] => True
  | ledger, layer, call :: rest => call.Sound idMaps ledger layer ∧
      SoundCalls idMaps (ledger.next idMaps call) (call.run layer) rest

def Promise.Holds (idMaps : OrderedMap String String) (layer : Layer) : Promise → Prop
  | shown id field value => layer.deletes id = true ∧ layer.value id field = value ∧
      value.isArray = false ∧ layer.Unnamed idMaps id field
  | listed parent field id => layer.deletes parent = false ∧ layer.Unnamed idMaps parent field ∧
      ∃ items, layer.value parent field = .array items ∧ .string id ∈ GraphQLValue.flatten items ∧
        (NestedIn (.array items) id ∨ id ∉ layer.hiddenIDs idMaps field ∧
          ∀ name, name = parent ∨ otherID? idMaps parent = some name →
            ¬ ListOperation.Removes (layer.listOperations name field) id)

theorem mem_flatten {value : GraphQLValue} {items : List GraphQLValue} :
    value ∈ GraphQLValue.flatten items ↔
      ∃ entry ∈ items, value ∈ GraphQLValue.flattenEntry entry := by
  induction items with
  | nil => simp [GraphQLValue.flatten]
  | cons entry rest ih => simp [GraphQLValue.flatten, ih]

theorem recordIDs_eq (storage : InMemoryStorage) (id : String) :
    storage.recordIDs id = (otherID? storage.idMaps id).toList ++ [id] := by
  unfold InMemoryStorage.recordIDs otherID?
  cases storage.idMaps.get? id with
  | none => rfl
  | some other =>
      by_cases empty : other = ""
      · simp [empty]
      · simp [empty, Option.filter]

theorem views_eq {storage : InMemoryStorage} {layer : Layer}
    (top : storage.data.getLast? = some layer) (id field : String) :
    ∃ rest, storage.views id field =
      (storage.recordIDs id).map (fun name => layer.view storage.idMaps name field) ++ rest := by
  obtain ⟨below, same⟩ := List.getLast?_eq_some_iff.mp top
  exact ⟨_, by rw [InMemoryStorage.views, same, List.reverse_append]; rfl⟩

section Shown

variable {storage : InMemoryStorage} {layer : Layer}

theorem read_own (top : storage.data.getLast? = some layer) {id field : String}
    (unnamed : layer.Unnamed storage.idMaps id field) :
    ∃ pending rest, (storage.get id field).value = cellValue (PatchView.read pending
        (layer.view storage.idMaps id field :: rest)) ∧
      ∀ value ∈ pending.removed, ∃ other, value = .string other ∧
        (other ∈ layer.hiddenIDs storage.idMaps field ∨
          ∃ name, otherID? storage.idMaps id = some name ∧
            ListOperation.Removes (layer.listOperations name field) other) := by
  obtain ⟨rest, views⟩ := views_eq top id field
  rw [InMemoryStorage.get_value, views, recordIDs_eq]
  cases known : otherID? storage.idMaps id with
  | none =>
      exact ⟨{}, rest, rfl, fun value member => absurd member List.not_mem_nil⟩
  | some other =>
      by_cases same : other = id
      · subst same
        exact ⟨{}, layer.view storage.idMaps other field :: rest, rfl,
          fun value member => absurd member List.not_mem_nil⟩
      · obtain ⟨nothing, kept⟩ := unnamed other known same
        have empty : (layer.view storage.idMaps other field).stored = .nothing := by
          change storedCell (layer.value other field) = _
          rw [nothing]
          rfl
        refine ⟨_, rest, congrArg cellValue (PatchView.read_nothing empty kept), ?_⟩
        intro value member
        rw [ListPatch.empty_comp] at member
        rcases List.mem_append.mp member with hidden | removed
        · obtain ⟨target, isHidden, rfl⟩ := List.mem_map.mp hidden
          exact ⟨target, rfl, .inl isHidden⟩
        · obtain ⟨target, rfl, removes⟩ := ListOperation.mem_patch_removed.mp removed
          exact ⟨target, rfl, .inr ⟨other, rfl, removes⟩⟩

theorem Promise.Holds.kept (top : storage.data.getLast? = some layer) {promise : Promise}
    (holds : promise.Holds storage.idMaps layer) : promise.Kept storage := by
  cases promise with
  | shown id field value =>
      obtain ⟨deletes, stored, single, unnamed⟩ := holds
      obtain ⟨pending, rest, shown, _⟩ := read_own top unnamed
      change (storage.get id field).value = value
      rw [shown]
      by_cases defined : value = .undefined
      · subst defined
        have nothing : (layer.view storage.idMaps id field).stored = .nothing := by
          change storedCell (layer.value id field) = _
          rw [stored]
          rfl
        rw [PatchView.read_deletes (by simp [nothing]) deletes]
        rfl
      · have scalar : (layer.view storage.idMaps id field).stored = .scalar value := by
          change storedCell (layer.value id field) = _
          rw [stored]
          cases value <;> first | rfl | simp [GraphQLValue.isArray] at single defined
        rw [PatchView.read_scalar scalar]
        rfl
  | listed parent field id =>
      obtain ⟨present, unnamed, items, stored, inside, visible⟩ := holds
      obtain ⟨pending, rest, shown, hides⟩ := read_own top unnamed
      have isList : (layer.view storage.idMaps parent field).stored = .list items := by
        change storedCell (layer.value parent field) = _
        rw [stored]
        rfl
      change _ ∈ (storage.get parent field).value.flattenLinks
      rw [shown, PatchView.read_list isList present]
      have removed : ∀ value ∈ (pending.comp
          (layer.view storage.idMaps parent field).patch).removed, ∃ other, value = .string other ∧
          (other ∈ layer.hiddenIDs storage.idMaps field ∨
            ∃ name, (name = parent ∨ otherID? storage.idMaps parent = some name) ∧
              ListOperation.Removes (layer.listOperations name field) other) := by
        intro value member
        rcases List.mem_append.mp member with upper | own
        · obtain ⟨other, same, either⟩ := hides value upper
          refine ⟨other, same, either.imp_right ?_⟩
          rintro ⟨name, known, removes⟩
          exact ⟨name, .inr known, removes⟩
        · rcases List.mem_append.mp own with hidden | operations
          · obtain ⟨target, isHidden, rfl⟩ := List.mem_map.mp hidden
            exact ⟨target, rfl, .inl isHidden⟩
          · obtain ⟨target, rfl, removes⟩ := ListOperation.mem_patch_removed.mp operations
            exact ⟨target, rfl, .inr ⟨parent, .inl rfl, removes⟩⟩
      refine mem_flatten.mpr ?_
      rcases visible with ⟨inner, nested, within⟩ | ⟨unhidden, unremoved⟩
      · refine ⟨.array inner, ListPatch.mem_apply.mpr ⟨.inr (.inl nested), fun member => ?_⟩, within⟩
        obtain ⟨other, same, _⟩ := removed _ member
        cases same
      · obtain ⟨entry, member, leads⟩ := mem_flatten.mp inside
        refine ⟨entry, ListPatch.mem_apply.mpr ⟨.inr (.inl member), fun gone => ?_⟩, leads⟩
        obtain ⟨other, rfl, either⟩ := removed _ gone
        have same : id = other := by
          unfold GraphQLValue.flattenEntry at leads
          split at leads
          · simpa using leads
          · exact absurd leads List.not_mem_nil
        subst same
        rcases either with hidden | ⟨name, known, removes⟩
        · exact unhidden hidden
        · exact unremoved name known removes

end Shown

namespace Layer

theorem undelete_undoesDelete {layer written : Layer} {parent field id : String}
    (success : layer.undelete parent field (.string id) = .ok written) (target name : String) :
    written.undoesDelete target name =
      if target = id ∧ layer.isDeleted (.string id) = true then
        layer.undoesDelete parent name || name == field
      else layer.undoesDelete target name := by
  cases deleted : layer.isDeleted (.string id) with
  | true =>
      have same : written = layer.undoDelete parent field id := by
        unfold undelete at success
        cases looked : layer.fieldOperations parent field with
        | error error => simp [looked, bind, Except.bind] at success
        | ok operations =>
            simp only [looked, bind, Except.bind, deleted, if_true] at success
            exact (Except.ok.inj success).symm
      rw [same]
      by_cases own : target = id
      · subst own
        simp [undoesDelete, undoDelete, Bool.beq_eq_decide_eq]
      · simp [undoesDelete, undoDelete, own]
  | false =>
      obtain ⟨other, result, _, undeleted⟩ :=
        undelete_undeleted field (undelete_ok_iff.mp ⟨written, success⟩) deleted
      rw [Except.ok.inj (success.symm.trans result), if_neg (by simp)]
      exact congrArg (fun undone : Option (List String) => (undone.getD []).contains name)
        (undeleted.undoneFields target)

structure Linking (layer written : Layer) (parent field : String) (link : Link)
    (done : List String) : Prop where
  within : done ⊆ link.ids
  relinked : Relinked layer written parent field done
  undoes : ∀ target name, written.undoesDelete target name =
    if target ∈ done ∧ layer.isDeleted (.string target) = true then
      layer.undoesDelete parent name || name == field
    else layer.undoesDelete target name
  links : written.links = layer.links ∨
    done = link.ids ∧ written.links = layer.links.setIn parent field link.toValue

private theorem undeleteAll_linking {parent field : String} {value : GraphQLValue}
    (ids : List String) (layer : Layer) :
    ∃ done, done ⊆ ids ∧
      Relinked layer (resultState (writeLink.undeleteAll parent field value layer
        (ids.map .string))) parent field done ∧
      (∀ target name, (resultState (writeLink.undeleteAll parent field value layer
          (ids.map .string))).undoesDelete target name =
        if target ∈ done ∧ layer.isDeleted (.string target) = true then
          layer.undoesDelete parent name || name == field
        else layer.undoesDelete target name) ∧
      (∀ written, writeLink.undeleteAll parent field value layer (ids.map .string) =
        .ok () written → done = ids) ∧
      ((resultState (writeLink.undeleteAll parent field value layer (ids.map .string))).links =
          layer.links ∨
        done = ids ∧ (resultState (writeLink.undeleteAll parent field value layer
          (ids.map .string))).links = layer.links.setIn parent field value) := by
  induction ids generalizing layer with
  | nil =>
      refine ⟨[], List.Subset.refl _, (Relinked.refl layer parent field).withLinks _, ?_,
        fun _ _ => rfl, .inr ⟨rfl, rfl⟩⟩
      intro target name
      rw [if_neg fun both => absurd both.1 List.not_mem_nil]
      rfl
  | cons id rest ih =>
      rw [List.map_cons]
      unfold writeLink.undeleteAll
      cases first : layer.undelete parent field (.string id) with
      | error error =>
          refine ⟨[], List.nil_subset _, Relinked.refl layer parent field, ?_,
            fun _ success => (by cases success), .inl rfl⟩
          intro target name
          rw [if_neg fun both => absurd both.1 List.not_mem_nil]
          rfl
      | ok middle =>
          obtain ⟨done, within, relinked, undoes, whole, links⟩ := ih middle
          have start := undelete_relinked first
          have undone := undelete_undoesDelete first
          have deleted (target : String) :=
            @isDeleted_congr _ _ (.string target) start.deletes start.deletedIDs
          refine ⟨id :: done, List.cons_subset_cons id within, start.trans relinked, ?_,
            fun written success => congrArg (id :: ·) (whole written success), ?_⟩
          · intro target name
            rw [undoes, deleted]
            by_cases gone : layer.isDeleted (.string target) = true
            · by_cases later : target ∈ done
              · rw [if_pos ⟨later, gone⟩, if_pos ⟨List.mem_cons_of_mem id later, gone⟩,
                  undone parent name]
                -- the parent itself may be one of the records
                split
                · rw [Bool.or_assoc, Bool.or_self]
                · rfl
              · rw [if_neg fun both => later both.1, undone target name]
                by_cases same : target = id
                · subst same
                  rw [if_pos ⟨rfl, gone⟩, if_pos ⟨List.mem_cons_self, gone⟩]
                · rw [if_neg fun both => same both.1,
                    if_neg fun both => (List.mem_cons.mp both.1).elim same later]
            · rw [if_neg fun both => gone both.2, if_neg fun both => gone both.2, undone target name]
              refine if_neg fun both => gone ?_
              rw [both.1]
              exact both.2
          · rw [undelete_links first] at links
            exact links.imp_right fun both => ⟨congrArg (id :: ·) both.1, both.2⟩

theorem writeLink_linking (layer : Layer) (parent field : String) (link : Link) :
    ∃ done, Linking layer (resultState (layer.writeLink parent field link.toValue)) parent field
      link done := by
  unfold writeLink
  rw [Link.flattenLinks_toValue]
  obtain ⟨done, within, relinked, undoes, _, links⟩ :=
    @undeleteAll_linking parent field link.toValue link.ids layer
  exact ⟨done, within, relinked, undoes, links⟩

theorem writeLink_whole (layer : Layer) (parent field : String) (link : Link)
    (succeeds : link.ids = [] ∨ layer.Linkable parent link.ids) :
    Linking layer (resultState (layer.writeLink parent field link.toValue)) parent field link
        link.ids ∧
      (resultState (layer.writeLink parent field link.toValue)).links =
        layer.links.setIn parent field link.toValue := by
  obtain ⟨facts, success⟩ :=
    @undeleteAll_cases parent field link.toValue link.ids layer
  obtain ⟨written, result⟩ := success.mpr succeeds
  obtain ⟨done, within, relinked, undoes, whole, links⟩ :=
    @undeleteAll_linking parent field link.toValue link.ids layer
  obtain rfl := whole written result
  unfold writeLink
  rw [Link.flattenLinks_toValue]
  refine ⟨⟨within, relinked, undoes, links⟩, ?_⟩
  rw [result]
  exact (facts written result).2

end Layer

theorem mem_hiddenIDs_iff {layer : Layer} {idMaps : OrderedMap String String} {field id : String} :
    id ∈ layer.hiddenIDs idMaps field ↔ ∃ other ∈ layer.deletedIDs,
      layer.undoesDelete other field = false ∧ (other = id ∨ otherID? idMaps other = some id) := by
  unfold Layer.hiddenIDs
  rw [List.mem_flatMap]
  refine exists_congr fun other => and_congr_right fun _ => ?_
  rw [toList_otherID?]
  cases layer.undoesDelete other field with
  | true => simp
  | false =>
      simp [eq_comm]

structure Promise.Untouched (idMaps : OrderedMap String String) (layer written : Layer)
    (promise : Promise) : Prop where
  value : written.value promise.cell.1 promise.cell.2 = layer.value promise.cell.1 promise.cell.2
  deletes : written.deletes promise.cell.1 = layer.deletes promise.cell.1
  other : ∀ name, otherID? idMaps promise.cell.1 = some name →
    layer.value name promise.cell.2 = .undefined → layer.deletes name = false →
      written.value name promise.cell.2 = .undefined ∧ written.deletes name = false
  visible : ∀ parent field id, promise = .listed parent field id →
    ¬ NestedIn (layer.value parent field) id → id ∈ written.hiddenIDs idMaps field →
      id ∈ layer.hiddenIDs idMaps field
  unremoved : ∀ parent field id, promise = .listed parent field id →
    ∀ name, name = parent ∨ otherID? idMaps parent = some name →
      ListOperation.Removes (written.listOperations name field) id →
        ListOperation.Removes (layer.listOperations name field) id

theorem Promise.Holds.frame {idMaps : OrderedMap String String} {layer written : Layer}
    {promise : Promise} (holds : promise.Holds idMaps layer)
    (untouched : promise.Untouched idMaps layer written) : promise.Holds idMaps written := by
  cases promise with
  | shown id field value =>
      obtain ⟨deletes, stored, single, unnamed⟩ := holds
      refine ⟨untouched.deletes.trans deletes, untouched.value.trans stored, single, ?_⟩
      intro other known different
      obtain ⟨nothing, kept⟩ := unnamed other known different
      exact untouched.other other known nothing kept
  | listed parent field id =>
      obtain ⟨present, unnamed, items, stored, inside, visible⟩ := holds
      refine ⟨untouched.deletes.trans present, ?_, items, untouched.value.trans stored, inside, ?_⟩
      · intro other known different
        obtain ⟨nothing, kept⟩ := unnamed other known different
        exact untouched.other other known nothing kept
      · by_cases nested : NestedIn (.array items) id
        · exact .inl nested
        · obtain ⟨unhidden, unremoved⟩ := visible.resolve_left nested
          refine .inr ⟨fun hidden => unhidden ?_, fun name known removes => unremoved name known ?_⟩
          · exact untouched.visible parent field id rfl (stored ▸ nested) hidden
          · exact untouched.unremoved parent field id rfl name known removes

section Calls

variable {idMaps : OrderedMap String String} {layer : Layer} {ledger : Ledger} {promise : Promise}

theorem untouched_of_values {written : Layer} (operations : written.operations = layer.operations)
    (deletedIDs : written.deletedIDs = layer.deletedIDs)
    (value : written.value promise.cell.1 promise.cell.2 =
      layer.value promise.cell.1 promise.cell.2)
    (other : ∀ name, otherID? idMaps promise.cell.1 = some name →
      layer.value name promise.cell.2 = .undefined →
        written.value name promise.cell.2 = .undefined) :
    promise.Untouched idMaps layer written where
  value := value
  deletes := by unfold Layer.deletes; rw [operations]
  other := by
    intro name known nothing kept
    refine ⟨other name known nothing, ?_⟩
    unfold Layer.deletes
    rw [operations]
    exact kept
  visible := by
    intro parent field id _ _ hidden
    unfold Layer.hiddenIDs Layer.undoesDelete at hidden ⊢
    rw [operations, deletedIDs] at hidden
    exact hidden
  unremoved := by
    intro parent field id _ name _ removes
    unfold Layer.listOperations at removes ⊢
    rw [operations] at removes
    exact removes

theorem untouched_setField {id field : String} (value : GraphQLValue)
    (apart : ¬ (field = promise.cell.2 ∧ SameRecord idMaps id promise.cell.1)) :
    promise.Untouched idMaps layer (layer.writeField id field value) := by
  refine untouched_of_values rfl rfl ?_ fun name known nothing => ?_
  · refine layer.value_writeField_of_ne value fun same => apart ⟨same.2.symm, .inl same.1.symm⟩
  · rw [layer.value_writeField_of_ne value fun same => apart ⟨same.2.symm, ?_⟩]
    · exact nothing
    · exact .inr (.inr (same.1 ▸ known))

theorem untouched_delete {id : String} (apart : ¬ promise.Ends idMaps (.delete id)) :
    promise.Untouched idMaps layer (layer.delete id) := by
  have unrelated : ¬ SameRecord idMaps id promise.cell.1 := fun same => apart (.inl same)
  have deletes (name : String) (different : name ≠ id) :
      (layer.delete id).deletes name = layer.deletes name := by
    simp [Layer.deletes, Layer.delete, Layer.addDeletedID, different]
  have operations (name field : String) :
      (layer.delete id).listOperations name field = layer.listOperations name field := by
    by_cases same : name = id
    · subst same
      cases found : layer.operations.get? name <;>
        simp [Layer.listOperations, Layer.delete, Layer.addDeletedID, found]
    · simp [Layer.listOperations, Layer.delete, Layer.addDeletedID, same]
  have undoes (name field : String) (different : name ≠ id) :
      (layer.delete id).undoesDelete name field = layer.undoesDelete name field := by
    simp [Layer.undoesDelete, Layer.delete, Layer.addDeletedID, different]
  constructor
  · rfl
  · exact deletes _ fun same => unrelated (.inl same.symm)
  · intro name known nothing kept
    refine ⟨nothing, (deletes name fun same => ?_).trans kept⟩
    exact unrelated (.inr (.inr (same ▸ known)))
  · intro parent field target same _ hidden
    obtain ⟨other, deleted, undone, leads⟩ := mem_hiddenIDs_iff.mp hidden
    by_cases again : other = id
    · subst again
      refine absurd (.inr ⟨parent, field, target, same, ?_⟩) apart
      exact leads.imp_right .inl
    · rw [undoes other field again] at undone
      refine mem_hiddenIDs_iff.mpr ⟨other, ?_, undone, leads⟩
      unfold Layer.delete Layer.addDeletedID at deleted
      dsimp only at deleted
      split at deleted
      · exact deleted
      · exact (List.mem_append.mp deleted).resolve_right fun last =>
          again (List.mem_singleton.mp last)
  · intro parent field target _ name _ removes
    rwa [operations] at removes

theorem Layer.listOperations_withOperations_of_ne {id field name list : String}
    (operations : List ListOperation) (different : ¬ (name = id ∧ list = field)) :
    (layer.withOperations id field operations).listOperations name list =
      layer.listOperations name list := by
  unfold Layer.listOperations Layer.withOperations
  by_cases same : name = id
  · subst same
    have other : list ≠ field := fun equal => different ⟨rfl, equal⟩
    cases found : layer.operations.get? name with
    | none => simp [other]
    | some entry => cases held : entry.fields <;> simp [held, other]
  · simp [same]

theorem Layer.addFieldOperation_eq {written : Layer} {id field : String}
    {operation : ListOperation}
    (success : layer.addFieldOperation id field operation = .ok written) :
    written = layer.withOperations id field (layer.listOperations id field ++ [operation]) := by
  unfold Layer.addFieldOperation at success
  cases looked : layer.fieldOperations id field with
  | error error => simp [looked, bind, Except.bind] at success
  | ok existing =>
      simp only [looked, bind, Except.bind, pure, Except.pure, Except.ok.injEq] at success
      rw [Layer.listOperations_of_ok looked, ← success]
      rfl

theorem untouched_addFieldOperation {written : Layer} {id field : String}
    {operation : ListOperation} (success : layer.addFieldOperation id field operation = .ok written)
    (apart : ∀ target, operation = .remove target →
      ¬ (SameRecord idMaps id promise.cell.1 ∧ promise = .listed promise.cell.1 field target)) :
    promise.Untouched idMaps layer written := by
  rw [Layer.addFieldOperation_eq success]
  constructor
  · rfl
  · exact Layer.deletes_withOperations _ _
  · intro name _ nothing kept
    exact ⟨nothing, (Layer.deletes_withOperations _ name).trans kept⟩
  · intro parent list target _ _ hidden
    obtain ⟨other, deleted, undone, leads⟩ := mem_hiddenIDs_iff.mp hidden
    rw [Layer.undoesDelete_withOperations] at undone
    exact mem_hiddenIDs_iff.mpr ⟨other, deleted, undone, leads⟩
  · intro parent list target same name known removes
    by_cases here : name = id ∧ list = field
    · obtain ⟨rfl, rfl⟩ := here
      rw [Layer.listOperations_withOperations, if_pos rfl, ListOperation.removes_append] at removes
      refine removes.resolve_right fun last => ?_
      obtain rfl : operation = .remove target := (List.mem_singleton.mp last).symm
      subst same
      exact apart target rfl ⟨known.imp id .inr, rfl⟩
    · rwa [Layer.listOperations_withOperations_of_ne _ here] at removes

theorem Layer.Linking.value_of_ne {written : Layer} {parent field : String} {link : Link}
    {done : List String} (linking : layer.Linking written parent field link done)
    {name list : String} (different : ¬ (name = parent ∧ list = field)) :
    written.value name list = layer.value name list := by
  unfold Layer.value Layer.get
  rw [linking.relinked.fields]
  rcases linking.links with same | ⟨_, links⟩
  · rw [same]
  · rw [links, OrderedMap.getIn?_setIn, if_neg different]

theorem untouched_linking {written : Layer} {parent field : String} {link : Link}
    {done : List String} (linking : layer.Linking written parent field link done)
    (apart : ¬ (field = promise.cell.2 ∧ SameRecord idMaps parent promise.cell.1))
    (revealed : ∀ holder list target, promise = .listed holder list target →
      ¬ NestedIn (layer.value holder list) target →
        ∀ other ∈ link.ids, other ∈ layer.deletedIDs → SameRecord idMaps other target →
          list = field ∨ layer.undoesDelete parent list = true) :
    promise.Untouched idMaps layer written := by
  constructor
  · exact linking.value_of_ne fun same => apart ⟨same.2.symm, .inl same.1.symm⟩
  · exact linking.relinked.deletes _
  · intro name known nothing kept
    refine ⟨?_, (linking.relinked.deletes name).trans kept⟩
    rw [linking.value_of_ne fun same => apart ⟨same.2.symm, .inr (.inr (same.1 ▸ known))⟩]
    exact nothing
  · intro holder list target same exposed hidden
    obtain ⟨other, deleted, undone, leads⟩ := mem_hiddenIDs_iff.mp hidden
    rw [linking.relinked.deletedIDs] at deleted
    rw [linking.undoes] at undone
    split at undone
    · next again =>
        have either := revealed holder list target same exposed other (linking.within again.1)
          deleted (leads.imp_right .inl)
        rcases either with rfl | undoes
        · simp at undone
        · simp [undoes] at undone
    · exact mem_hiddenIDs_iff.mpr ⟨other, deleted, undone, leads⟩
  · intro holder list target _ name _ removes
    rw [linking.relinked.listOperations] at removes
    exact (ListOperation.removes_undone.mp removes).1

theorem untouched_removeUndefinedFields
    (unmarked : layer.value promise.cell.1 promise.cell.2 ≠ .undefined →
      layer.fields.getIn? promise.cell.1 promise.cell.2 ≠ some .undefined) :
    promise.Untouched idMaps layer layer.removeUndefinedFields := by
  obtain ⟨operations, deletedIDs⟩ := layer.operations_removeUndefinedFields
  refine untouched_of_values operations deletedIDs ?_ fun name _ nothing => ?_
  · rw [Layer.value_removeUndefinedFields]
    split
    · next marked =>
        by_contra defined
        exact unmarked (fun nothing => defined nothing.symm) marked
    · rfl
  · rw [Layer.value_removeUndefinedFields, nothing, ite_self]

theorem untouched_run {call : LayerCall} (sound : call.Sound idMaps ledger layer)
    (promised : ledger.promised promise) (lasts : ¬ promise.Ends idMaps call) :
    promise.Untouched idMaps layer (call.run layer) := by
  cases call with
  | writeField id field value => exact untouched_setField value lasts
  | writeLink id field link =>
      obtain ⟨done, linking⟩ := layer.writeLink_linking id field link
      refine untouched_linking linking lasts fun holder list target same => ?_
      subst same
      exact sound.2.2.2 holder list target promised
  | insert id field location target =>
      cases result : layer.insert id field location target with
      | error error =>
          simp only [LayerCall.run, result]
          exact untouched_of_values rfl rfl rfl fun _ _ nothing => nothing
      | ok written =>
          simp only [LayerCall.run, result]
          refine untouched_addFieldOperation result fun other same => ?_
          cases same
  | remove id field target =>
      cases result : layer.remove id field target with
      | error error =>
          simp only [LayerCall.run, result]
          exact untouched_of_values rfl rfl rfl fun _ _ nothing => nothing
      | ok written =>
          simp only [LayerCall.run, result]
          refine untouched_addFieldOperation result fun other same both => lasts ?_
          cases same
          exact both
  | delete id => exact untouched_delete lasts
  | deleteField id field => exact untouched_setField .undefined lasts
  | removeUndefinedFields => exact untouched_removeUndefinedFields (sound promise promised)
  | clear => exact absurd trivial lasts

theorem holds_writeField {id field : String} {value : GraphQLValue}
    (deletes : layer.deletes id = true) (single : value.isArray = false)
    (unlinked : (layer.links.getIn? id field).getD .undefined = .undefined)
    (unnamed : layer.Unnamed idMaps id field) :
    Promise.Holds idMaps (layer.writeField id field value) (.shown id field value) := by
  refine ⟨deletes, ?_, single, fun other known different => ?_⟩
  · have same : (layer.writeField id field value).links = layer.links := rfl
    unfold Layer.value Layer.get
    rw [same, unlinked]
    simp [Layer.writeField, OrderedMap.getIn?_setIn, GraphQLValue.isDefined]
  · obtain ⟨nothing, kept⟩ := unnamed other known different
    rw [layer.value_writeField_of_ne value fun same => different same.1]
    exact ⟨nothing, kept⟩

theorem unnamed_linking {written : Layer} {parent field : String} {link : Link}
    {done : List String} (linking : layer.Linking written parent field link done)
    (unnamed : layer.Unnamed idMaps parent field) : written.Unnamed idMaps parent field := by
  intro other known different
  obtain ⟨nothing, kept⟩ := unnamed other known different
  rw [linking.value_of_ne fun same => different same.1, linking.relinked.deletes]
  exact ⟨nothing, kept⟩

theorem value_linked {written : Layer} {parent field : String} {link : Link}
    (links : written.links = layer.links.setIn parent field link.toValue) :
    written.value parent field = link.toValue := by
  have defined : link.toValue.isDefined = true := by cases link <;> rfl
  unfold Layer.value Layer.get
  rw [links]
  simp [OrderedMap.getIn?_setIn, defined]

theorem holds_made {call : LayerCall} (gone : ∀ id, ledger.deleted id → layer.deletes id = true)
    (sound : call.Sound idMaps ledger layer) (made : ledger.Makes call promise) :
    promise.Holds idMaps (call.run layer) := by
  cases call with
  | writeField id field value =>
      obtain ⟨deleted, rfl⟩ := made
      obtain ⟨single, unlinked, unnamed⟩ := sound deleted
      exact holds_writeField (gone id deleted) single unlinked unnamed
  | writeLink id field link =>
      obtain ⟨succeeds, unnamed⟩ := sound.1 ⟨promise, made⟩
      obtain ⟨linking, links⟩ := layer.writeLink_whole id field link succeeds
      have value := value_linked links
      rcases made with ⟨deleted, rfl⟩ | ⟨isList, target, member, deleted, rfl⟩
      · refine ⟨(linking.relinked.deletes id).trans (gone id deleted), value, ?_,
          unnamed_linking linking unnamed⟩
        rw [Link.isArray_toValue]
        exact sound.2.1 deleted
      · obtain ⟨kept, visible⟩ := sound.2.2.1 target member deleted isList
        refine ⟨(linking.relinked.deletes id).trans kept, unnamed_linking linking unnamed, ?_⟩
        cases link with
        | null => cases isList
        | record => cases isList
        | list entries =>
            refine ⟨Link.toValues entries, value, ?_, ?_⟩
            · rw [Link.flatten_toValues]
              exact List.mem_map_of_mem member
            · refine visible.imp_right fun ⟨unhidden, unremoved⟩ => ⟨?_, fun name known removes => ?_⟩
              · change target ∉ Layer.hiddenIDs (resultState _) idMaps field
                rw [linking.relinked.hiddenIDs]
                exact unhidden
              · change ListOperation.Removes (Layer.listOperations (resultState _) name field) _
                  at removes
                rw [linking.relinked.listOperations] at removes
                exact unremoved name known (ListOperation.removes_undone.mp removes).1
  | insert | remove | delete | deleteField | removeUndefinedFields | clear => exact made.elim

theorem deletes_run {call : LayerCall} {id : String} (gone : layer.deletes id = true)
    (lasts : call ≠ .clear) : (call.run layer).deletes id = true := by
  cases call with
  | writeField | deleteField => exact gone
  | writeLink parent field link =>
      obtain ⟨done, linking⟩ := layer.writeLink_linking parent field link
      exact (linking.relinked.deletes id).trans gone
  | insert parent field location target =>
      cases result : layer.insert parent field location target with
      | error error => simpa only [LayerCall.run, result] using gone
      | ok written =>
          simp only [LayerCall.run, result, Layer.addFieldOperation_eq result]
          exact (Layer.deletes_withOperations _ id).trans gone
  | remove parent field target =>
      cases result : layer.remove parent field target with
      | error error => simpa only [LayerCall.run, result] using gone
      | ok written =>
          simp only [LayerCall.run, result, Layer.addFieldOperation_eq result]
          exact (Layer.deletes_withOperations _ id).trans gone
  | delete other =>
      by_cases same : id = other
      · simp [LayerCall.run, Layer.deletes, Layer.delete, Layer.addDeletedID, same]
      · simpa [LayerCall.run, Layer.deletes, Layer.delete, Layer.addDeletedID, same] using gone
  | removeUndefinedFields =>
      change Layer.deletes layer.removeUndefinedFields id = true
      unfold Layer.deletes
      rw [layer.operations_removeUndefinedFields.1]
      exact gone
  | clear => exact absurd rfl lasts

/-- What holds between two calls: what was deleted is deleted in the layer, and every promise is
kept. -/
structure Keeps (idMaps : OrderedMap String String) (ledger : Ledger) (layer : Layer) : Prop where
  deleted : ∀ id, ledger.deleted id → layer.deletes id = true
  promised : ∀ promise, ledger.promised promise → promise.Holds idMaps layer

theorem Keeps.next (keeps : Keeps idMaps ledger layer) {call : LayerCall}
    (sound : call.Sound idMaps ledger layer) :
    Keeps idMaps (ledger.next idMaps call) (call.run layer) where
  deleted := by
    rintro id (rfl | ⟨lasts, before⟩)
    · simp [LayerCall.run, Layer.deletes, Layer.delete, Layer.addDeletedID]
    · exact deletes_run (keeps.deleted id before) lasts
  promised := by
    rintro promise (made | ⟨before, lasts⟩)
    · exact holds_made keeps.deleted sound made
    · exact (keeps.promised promise before).frame (untouched_run sound before lasts)

end Calls

def runCalls (idMaps : OrderedMap String String) (ledger : Ledger) (layer : Layer)
    (calls : List LayerCall) : Ledger × Layer :=
  calls.foldl (fun state call => (state.1.next idMaps call, call.run state.2)) (ledger, layer)

structure OnTop (idMaps : OrderedMap String String) (layer : Layer) (storage : InMemoryStorage) :
    Prop where
  idMaps : storage.idMaps = idMaps
  top : storage.data.getLast? = some layer

/-- Everything that calls on a layer promised is kept while the layer is on top. -/
def KeepsPromises (idMaps : OrderedMap String String) (layer : Layer) (calls : List LayerCall) :
    Prop :=
  ∀ before, before <+: calls → ∀ storage,
    OnTop idMaps (runCalls idMaps {} layer before).2 storage →
      ∀ promise, (runCalls idMaps {} layer before).1.promised promise → promise.Kept storage

theorem keeps_runCalls {idMaps : OrderedMap String String} {ledger : Ledger} {layer : Layer}
    (keeps : Keeps idMaps ledger layer) {calls before : List LayerCall}
    (sound : SoundCalls idMaps ledger layer calls) (starts : before <+: calls) :
    Keeps idMaps (runCalls idMaps ledger layer before).1
      (runCalls idMaps ledger layer before).2 := by
  induction before generalizing ledger layer calls with
  | nil => exact keeps
  | cons call rest ih =>
      obtain ⟨after, rfl⟩ := starts
      exact ih (keeps.next sound.1) sound.2 (List.prefix_append rest after)

/-- In a run of calls that meet the condition, every promise is kept at every moment. -/
theorem soundCalls_keepPromises (idMaps : OrderedMap String String) (layer : Layer)
    (calls : List LayerCall) (sound : SoundCalls idMaps {} layer calls) :
    KeepsPromises idMaps layer calls := by
  intro before starts storage onTop promise promised
  have start : Keeps idMaps {} layer := ⟨fun _ never => never.elim, fun _ never => never.elim⟩
  obtain ⟨rfl, top⟩ := onTop
  exact ((keeps_runCalls start sound starts).promised promise promised).kept top

def revivedUser : List LayerCall :=
  [.delete "User:1", .writeField "User:1" "name" (.string "Alice"),
    .writeLink "_ROOT_" "users" (.list [.record "User:1"])]

theorem soundCalls_keepPromises_revivedUser : KeepsPromises ∅ { id := 1 } revivedUser := by
  have named (name id : String) : otherID? ∅ id ≠ some name := by simp [otherID?]
  refine soundCalls_keepPromises ∅ { id := 1 } revivedUser ⟨trivial, ?_, ⟨?_, ?_, ?_, ?_⟩, trivial⟩
  · intro _
    exact ⟨rfl, rfl, fun other known => absurd known (named other _)⟩
  · intro _
    exact ⟨.inr ⟨fun _ found => absurd found (Option.some_ne_none _).symm,
      fun _ gone => absurd gone (by decide)⟩,
      fun other known => absurd known (named other _)⟩
  · rintro (root | ⟨_, root | ⟨_, root⟩⟩)
    · cases root
    · exact absurd (LayerCall.delete.inj root) (by decide)
    · exact root.elim
  · intro target member _ _
    obtain rfl : target = "User:1" := List.mem_singleton.mp member
    refine ⟨rfl, .inr ⟨by decide, ?_⟩⟩
    rintro name (rfl | known)
    · simp [ListOperation.Removes, LayerCall.run, Layer.listOperations, Layer.writeField,
        Layer.delete, Layer.addDeletedID]
    · exact absurd known (named name _)
  · rintro parent list target (⟨_, same⟩ | ⟨made | ⟨never, _⟩, _⟩)
    · cases same
    · exact made.elim
    · exact never.elim

/-- A deleted user that is put into two lists is not shown in the first one. -/
theorem not_keepsPromises_twoLists :
    ¬ ∀ idMaps layer calls, KeepsPromises idMaps layer calls := by
  intro claim
  have shown := claim ∅ { id := 1 }
    [.delete "User:1", .writeLink "_ROOT_" "users" (.list [.record "User:1"]),
      .writeLink "_ROOT_" "friends" (.list [.record "User:1"])] _ (List.prefix_refl _)
    { data := [(runCalls ∅ {} { id := 1 } [.delete "User:1",
        .writeLink "_ROOT_" "users" (.list [.record "User:1"]),
        .writeLink "_ROOT_" "friends" (.list [.record "User:1"])]).2] } ⟨rfl, rfl⟩
    (.listed "_ROOT_" "users" "User:1")
    (.inr ⟨.inl (.inr ⟨rfl, "User:1", List.mem_singleton_self _, .inl rfl, rfl⟩), by
      rintro ⟨same, _⟩
      exact absurd same (by decide)⟩)
  change GraphQLValue.string "User:1" ∈ _ at shown
  exact absurd shown (by decide +kernel)

end Houdini.Runtime.Cache
