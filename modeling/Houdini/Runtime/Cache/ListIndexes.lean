import Houdini.Runtime.Cache.Lists
import Mathlib.Data.List.Induction

/-! Lists are found by name, by field and by the opaque id that stands for a parent and a name. The
indexes agree as long as an opaque id can be read in one way only. -/

set_option autoImplicit false

namespace Houdini.Runtime.Cache

/-- No other parent and name have the same opaque id: the separator is nowhere else in it. -/
def Separable (parentID listName : String) : Prop :=
  ¬ [':', ':'] <:+: parentID.toList ++ [':'] ∧ ¬ [':', ':'] <:+: ':' :: listName.toList

theorem toList_opaqueListID (parentID listName : String) :
    (opaqueListID parentID listName).toList =
      parentID.toList ++ ':' :: ':' :: listName.toList := by
  simp [opaqueListID]

theorem infix_of_two_splits {parent name other behind : List Char}
    (same : parent ++ ':' :: ':' :: name = other ++ ':' :: ':' :: behind) :
    (parent = other ∧ name = behind) ∨ [':', ':'] <:+: parent ++ [':'] ∨
      [':', ':'] <:+: ':' :: name := by
  cases List.append_eq_append_iff.mp same with
  | inl longer =>
      obtain ⟨rest, rfl, tail⟩ := longer
      cases rest with
      | nil => simp_all
      | cons first rest =>
          right; right
          cases rest with
          | nil =>
              obtain ⟨rfl, rfl⟩ : ':' = first ∧ name = ':' :: behind := by simpa using tail
              exact ⟨[], behind, rfl⟩
          | cons second rest =>
              obtain ⟨rfl, rfl, rfl⟩ :
                  ':' = first ∧ ':' = second ∧ name = rest ++ ':' :: ':' :: behind := by
                simpa using tail
              exact ⟨':' :: rest, behind, by simp⟩
  | inr shorter =>
      obtain ⟨rest, rfl, tail⟩ := shorter
      cases rest with
      | nil => simp_all
      | cons first rest =>
          right; left
          cases rest with
          | nil =>
              obtain ⟨rfl, _⟩ : ':' = first ∧ behind = ':' :: name := by simpa using tail
              exact ⟨other, [], by simp⟩
          | cons second rest =>
              obtain ⟨rfl, rfl, _⟩ :
                  ':' = first ∧ ':' = second ∧ behind = rest ++ ':' :: ':' :: name := by
                simpa using tail
              exact ⟨other, rest ++ [':'], by simp⟩

theorem separable_iff (parentID listName : String) :
    Separable parentID listName ↔ ∀ otherID otherName,
      opaqueListID otherID otherName = opaqueListID parentID listName →
        otherID = parentID ∧ otherName = listName := by
  constructor
  · intro separable otherID otherName same
    have lists := congrArg String.toList same.symm
    rw [toList_opaqueListID, toList_opaqueListID] at lists
    rcases infix_of_two_splits lists with equal | second | second
    · exact ⟨String.toList_injective equal.1.symm, String.toList_injective equal.2.symm⟩
    · exact absurd second separable.1
    · exact absurd second separable.2
  · intro unique
    constructor
    · intro second
      obtain ⟨before, behind, split⟩ := second
      have same : opaqueListID (String.ofList before)
          (String.ofList (behind ++ ':' :: listName.toList)) = opaqueListID parentID listName := by
        apply String.toList_injective
        rw [toList_opaqueListID, toList_opaqueListID, String.toList_ofList, String.toList_ofList]
        simpa using congrArg (· ++ ':' :: listName.toList) split
      have parent := congrArg String.toList (unique _ _ same).1
      rw [String.toList_ofList] at parent
      have length := congrArg List.length split
      simp only [parent, List.length_append, List.length_cons, List.length_nil] at length
      omega
    · intro second
      obtain ⟨before, behind, split⟩ := second
      have same : opaqueListID (String.ofList (parentID.toList ++ ':' :: before))
          (String.ofList behind) = opaqueListID parentID listName := by
        apply String.toList_injective
        rw [toList_opaqueListID, toList_opaqueListID, String.toList_ofList, String.toList_ofList]
        simpa using congrArg (parentID.toList ++ ':' :: ·) split
      have parent := congrArg (List.length ∘ String.toList) (unique _ _ same).1
      simp at parent

/-- `remove` and `reset`, and an `add` that falls back to the root for a list without a parent. A
parent that is missing is empty here. -/
inductive ListCall where
  | add (list : ListHandler)
  | remove (listName id : String)
  | deleteField (parentID field : String)
  | reset

def orRoot (id : String) : String := if id = "" then rootID else id

namespace ListManager

def remove (manager : ListManager) (listName id : String) : ListManager :=
  let parentID := orRoot id
  { manager with
    lists := forget manager.lists listName parentID
    listsByOpaqueID := manager.listsByOpaqueID.erase (opaqueListID parentID listName) }

def reset (manager : ListManager) : ListManager :=
  { manager with lists := ∅, listsByField := ∅, listsByOpaqueID := ∅ }

def call (manager : ListManager) : ListCall → ListManager
  | .add list => manager.add { list with recordID := orRoot list.recordID }
  | .remove listName id => manager.remove listName id
  | .deleteField parentID field => manager.deleteField parentID field
  | .reset => manager.reset

def run (calls : List ListCall) : ListManager := calls.foldl call {}

theorem getIn?_forget {Value : Type} (map : EntityMap Value) (outer inner outer' inner' : String) :
    (forget map outer inner).getIn? outer' inner' =
      if outer' = outer ∧ inner' = inner then none else map.getIn? outer' inner' := by
  cases found : map.get? outer with
  | none =>
      simp only [forget, found]
      split
      · next both =>
          simp [OrderedMap.getIn?, both.1, found]
      · rfl
  | some entries =>
      simp only [forget, found, OrderedMap.getIn?, OrderedMap.get?_set]
      by_cases same : outer' = outer
      · simp [same, found, OrderedMap.get?_erase]
      · simp [same]

structure Adds (manager after : ListManager) (list : ListHandler) (position : Nat)
    (collection : ListCollection) : Prop where
  place : (manager.lists.getIn? list.name list.recordID = some position ∧
      manager.collections[position]? = some collection) ∨
    (manager.lists.getIn? list.name list.recordID = none ∧
      position = manager.collections.length ∧ collection = [])
  absent : ∀ other ∈ collection, other.key ≠ list.key
  lists : ∀ name parent, after.lists.getIn? name parent =
    if name = list.name ∧ parent = list.recordID then some position
    else manager.lists.getIn? name parent
  collections : ∀ index, after.collections[index]? =
    if index = position then some (collection ++ [list]) else manager.collections[index]?
  fields : ∀ parent field, after.listsByField.getIn? parent field =
    if parent = list.recordID ∧ field = list.key then
      some ((manager.listsByField.getIn? parent field).getD [] ++ [list])
    else manager.listsByField.getIn? parent field
  opaques : ∀ id, after.listsByOpaqueID.get? id =
    if id = opaqueListID list.recordID list.name then some position
    else manager.listsByOpaqueID.get? id

theorem getIn?_touch {Value : Type} (map : EntityMap Value) (outer outer' inner' : String) :
    (map.set outer ((map.get? outer).getD ∅)).getIn? outer' inner' =
      map.getIn? outer' inner' := by
  simp only [OrderedMap.getIn?, OrderedMap.get?_set]
  by_cases same : outer' = outer
  · cases found : map.get? outer <;> simp [same, found]
  · simp [same]

theorem add_cases {manager : ListManager} (list : ListHandler)
    (placed : ∀ position, manager.lists.getIn? list.name list.recordID = some position →
      ∃ collection, manager.collections[position]? = some collection) :
    ((∃ position, manager.lists.getIn? list.name list.recordID = some position) ∧
      (∀ name parent, (manager.add list).lists.getIn? name parent =
        manager.lists.getIn? name parent) ∧
      (manager.add list).collections = manager.collections ∧
      (manager.add list).listsByField = manager.listsByField ∧
      (manager.add list).listsByOpaqueID = manager.listsByOpaqueID) ∨
    ∃ position collection, Adds manager (manager.add list) list position collection := by
  cases found : manager.lists.getIn? list.name list.recordID with
  | none =>
      right
      refine ⟨manager.collections.length, [], .inr ⟨found, rfl, rfl⟩, by simp, ?_, ?_, ?_, ?_⟩
      all_goals simp only [add, collection?, getIn?_touch, found, Option.bind_none,
        Option.getD_none, List.any_nil, Bool.false_eq_true, if_false]
      · intro name parent
        rw [OrderedMap.getIn?_setIn, getIn?_touch]
      · intro index
        rw [List.getElem?_modify, List.getElem?_append]
        by_cases last : index = manager.collections.length
        · simp [last]
        · by_cases inside : index < manager.collections.length
          · simp [inside, last, Ne.symm last]
          · have past : index - manager.collections.length ≠ 0 := by omega
            simp [inside, last, past]
      · intro parent field
        rw [OrderedMap.getIn?_setIn]
        split
        · next both => rw [both.1, both.2]
        · rfl
      · intro id
        rw [OrderedMap.get?_set]
  | some position =>
      obtain ⟨collection, stored⟩ := placed position found
      by_cases known : collection.any (·.key == list.key)
      · left
        refine ⟨⟨position, rfl⟩, fun name parent => ?_, ?_, ?_, ?_⟩
        all_goals simp only [add, collection?, getIn?_touch, found, Option.bind_some, stored,
          Option.getD_some, known, if_true]
      · right
        refine ⟨position, collection, .inl ⟨found, stored⟩, fun other member same => ?_,
          ?_, ?_, ?_, ?_⟩
        · exact known (List.any_eq_true.mpr ⟨other, member, beq_iff_eq.mpr same⟩)
        all_goals simp only [add, collection?, getIn?_touch, found, Option.bind_some, stored,
          Option.getD_some, known, Bool.false_eq_true, if_false]
        · intro name parent
          split
          · next both => rw [both.1, both.2, found]
          · rfl
        · intro index
          rw [List.getElem?_modify]
          by_cases same : position = index
          · simp [← same, stored]
          · simp [same, Ne.symm same]
        · intro parent field
          rw [OrderedMap.getIn?_setIn]
          split
          · next both => rw [both.1, both.2]
          · rfl
        · intro id
          rw [OrderedMap.get?_set]

def Reaches (manager : ListManager) (name parent : String) (list : ListHandler) : Prop :=
  ∃ position collection, manager.lists.getIn? name parent = some position ∧
    manager.collections[position]? = some collection ∧ list ∈ collection

structure Indexed (manager : ListManager) : Prop where
  stored : ∀ name parent position, manager.lists.getIn? name parent = some position →
    ∃ collection, manager.collections[position]? = some collection ∧ collection ≠ [] ∧
      (collection.map ListHandler.key).Nodup
  listed : ∀ name parent list, manager.Reaches name parent list →
    list.name = name ∧ list.recordID = parent ∧
      ∃ handlers, manager.listsByField.getIn? parent list.key = some handlers ∧ list ∈ handlers
  known : ∀ id position, manager.listsByOpaqueID.get? id = some position →
    ∃ name parent, opaqueListID parent name = id ∧
      manager.lists.getIn? name parent = some position
  separable : ∀ name parent position, manager.lists.getIn? name parent = some position →
    Separable parent name →
    manager.listsByOpaqueID.get? (opaqueListID parent name) = some position

theorem indexed_empty : Indexed {} where
  stored := by
    intro name parent position found
    cases found
  listed := by
    intro name parent list reached
    obtain ⟨position, collection, found, _⟩ := reached
    cases found
  known := by
    intro id position found
    cases found
  separable := by
    intro name parent position found
    cases found

theorem Indexed.apart {manager : ListManager} (indexed : manager.Indexed)
    {name parent name' parent' : String} {position : Nat}
    (found : manager.lists.getIn? name parent = some position)
    (found' : manager.lists.getIn? name' parent' = some position) :
    name' = name ∧ parent' = parent := by
  obtain ⟨collection, stored, filled, _⟩ := indexed.stored name parent position found
  obtain ⟨list, member⟩ := List.exists_mem_of_ne_nil collection filled
  obtain ⟨byName, byParent, _⟩ :=
    indexed.listed name parent list ⟨position, collection, found, stored, member⟩
  obtain ⟨byName', byParent', _⟩ :=
    indexed.listed name' parent' list ⟨position, collection, found', stored, member⟩
  exact ⟨byName'.symm.trans byName, byParent'.symm.trans byParent⟩

theorem Indexed.of_alike {manager after : ListManager} (indexed : manager.Indexed)
    (lists : ∀ name parent, after.lists.getIn? name parent = manager.lists.getIn? name parent)
    (collections : after.collections = manager.collections)
    (fields : after.listsByField = manager.listsByField)
    (opaques : after.listsByOpaqueID = manager.listsByOpaqueID) : after.Indexed where
  stored := by
    intro name parent position found
    rw [collections]
    exact indexed.stored name parent position (lists name parent ▸ found)
  listed := by
    intro name parent list reached
    obtain ⟨position, collection, found, stored, member⟩ := reached
    rw [fields]
    exact indexed.listed name parent list
      ⟨position, collection, lists name parent ▸ found, collections ▸ stored, member⟩
  known := by
    intro id position found
    obtain ⟨name, parent, same, placed⟩ := indexed.known id position (opaques ▸ found)
    exact ⟨name, parent, same, (lists name parent).trans placed⟩
  separable := by
    intro name parent position found clear
    rw [opaques]
    exact indexed.separable name parent position (lists name parent ▸ found) clear

section Added

variable {manager after : ListManager} {list : ListHandler} {position : Nat}
  {collection : ListCollection}

theorem Adds.ne_position (adds : Adds manager after list position collection)
    (indexed : manager.Indexed) {name parent : String} {other : Nat}
    (different : ¬ (name = list.name ∧ parent = list.recordID))
    (found : manager.lists.getIn? name parent = some other) : other ≠ position := by
  intro same
  subst same
  cases adds.place with
  | inl old => exact different (indexed.apart old.1 found)
  | inr new =>
      obtain ⟨others, stored, _⟩ := indexed.stored name parent other found
      rw [new.2.1, List.getElem?_eq_none (Nat.le_refl _)] at stored
      cases stored

theorem Adds.nodup (adds : Adds manager after list position collection)
    (indexed : manager.Indexed) : ((collection ++ [list]).map ListHandler.key).Nodup := by
  have before : (collection.map ListHandler.key).Nodup := by
    cases adds.place with
    | inl old =>
        obtain ⟨others, stored, _, unique⟩ := indexed.stored _ _ _ old.1
        rw [old.2] at stored
        cases stored
        exact unique
    | inr new =>
        rw [new.2.2]
        exact List.nodup_nil
  rw [List.map_append, List.nodup_append]
  refine ⟨before, List.nodup_singleton _, fun key known other new same => ?_⟩
  obtain ⟨earlier, member, rfl⟩ := List.mem_map.mp known
  have last : other = list.key := by simpa using new
  exact adds.absent earlier member (same.trans last)

theorem Adds.reached (adds : Adds manager after list position collection)
    (indexed : manager.Indexed) {name parent : String} {other : ListHandler}
    (reached : after.Reaches name parent other) :
    (other = list ∧ name = list.name ∧ parent = list.recordID) ∨
      manager.Reaches name parent other := by
  obtain ⟨place, others, found, stored, member⟩ := reached
  rw [adds.lists] at found
  rw [adds.collections] at stored
  by_cases both : name = list.name ∧ parent = list.recordID
  · rw [if_pos both, Option.some.injEq] at found
    rw [if_pos found.symm, Option.some.injEq] at stored
    rw [← stored, List.mem_append, List.mem_singleton] at member
    cases member with
    | inr new => exact .inl ⟨new, both⟩
    | inl old =>
        cases adds.place with
        | inl known => exact .inr ⟨position, collection, both.1 ▸ both.2 ▸ known.1, known.2, old⟩
        | inr new =>
            rw [new.2.2] at old
            cases old
  · rw [if_neg both] at found
    rw [if_neg (adds.ne_position indexed both found)] at stored
    exact .inr ⟨place, others, found, stored, member⟩

theorem Indexed.adds (indexed : manager.Indexed)
    (adds : Adds manager after list position collection) : after.Indexed where
  stored := by
    intro name parent place found
    rw [adds.lists] at found
    rw [adds.collections]
    by_cases both : name = list.name ∧ parent = list.recordID
    · rw [if_pos both, Option.some.injEq] at found
      rw [if_pos found.symm]
      exact ⟨collection ++ [list], rfl, by simp, adds.nodup indexed⟩
    · rw [if_neg both] at found
      rw [if_neg (adds.ne_position indexed both found)]
      exact indexed.stored name parent place found
  listed := by
    intro name parent other reached
    rw [adds.fields]
    cases adds.reached indexed reached with
    | inl new =>
        obtain ⟨rfl, rfl, rfl⟩ := new
        exact ⟨rfl, rfl, by simp⟩
    | inr old =>
        obtain ⟨byName, byParent, handlers, found, member⟩ := indexed.listed name parent other old
        refine ⟨byName, byParent, ?_⟩
        split
        · exact ⟨_, rfl, by simp [found, member]⟩
        · exact ⟨handlers, found, member⟩
  known := by
    intro id place found
    rw [adds.opaques] at found
    by_cases same : id = opaqueListID list.recordID list.name
    · rw [if_pos same] at found
      exact ⟨list.name, list.recordID, same.symm, by rw [adds.lists, if_pos ⟨rfl, rfl⟩, found]⟩
    · rw [if_neg same] at found
      obtain ⟨name, parent, known, placed⟩ := indexed.known id place found
      refine ⟨name, parent, known, ?_⟩
      rw [adds.lists, if_neg, placed]
      intro both
      rw [both.1, both.2] at known
      exact same known.symm
  separable := by
    intro name parent place found clear
    rw [adds.lists] at found
    rw [adds.opaques]
    by_cases both : name = list.name ∧ parent = list.recordID
    · rw [if_pos both] at found
      rw [both.1, both.2, if_pos rfl, found]
    · rw [if_neg both] at found
      rw [if_neg]
      · exact indexed.separable name parent place found clear
      · intro same
        have equal := (separable_iff parent name).mp clear _ _ same.symm
        exact both ⟨equal.2.symm, equal.1.symm⟩

end Added

theorem Indexed.add {manager : ListManager} (indexed : manager.Indexed) (list : ListHandler) :
    (manager.add list).Indexed := by
  have placed : ∀ position, manager.lists.getIn? list.name list.recordID = some position →
      ∃ collection, manager.collections[position]? = some collection := by
    intro position found
    obtain ⟨collection, stored, _⟩ := indexed.stored _ _ _ found
    exact ⟨collection, stored⟩
  cases add_cases _ placed with
  | inl known =>
      obtain ⟨_, lists, collections, fields, opaques⟩ := known
      exact indexed.of_alike lists collections fields opaques
  | inr added =>
      obtain ⟨position, collection, adds⟩ := added
      exact indexed.adds adds

theorem Indexed.add_found {manager : ListManager} (indexed : manager.Indexed)
    (list : ListHandler) :
    ∃ position, (manager.add list).lists.getIn? list.name list.recordID = some position := by
  have placed : ∀ position, manager.lists.getIn? list.name list.recordID = some position →
      ∃ collection, manager.collections[position]? = some collection := by
    intro position found
    obtain ⟨collection, stored, _⟩ := indexed.stored _ _ _ found
    exact ⟨collection, stored⟩
  cases add_cases _ placed with
  | inl known =>
      obtain ⟨⟨position, found⟩, lists, _⟩ := known
      exact ⟨position, (lists _ _).trans found⟩
  | inr added =>
      obtain ⟨position, collection, adds⟩ := added
      exact ⟨position, by rw [adds.lists, if_pos ⟨rfl, rfl⟩]⟩

section Removed

variable {manager after : ListManager} {name parent : String}

/-- A collection leaves both indexes, and what becomes of it does not matter then. -/
structure Forgets (manager after : ListManager) (name parent : String) : Prop where
  lists : ∀ name' parent', after.lists.getIn? name' parent' =
    if name' = name ∧ parent' = parent then none else manager.lists.getIn? name' parent'
  collections : ∀ index, manager.lists.getIn? name parent ≠ some index →
    after.collections[index]? = manager.collections[index]?
  fields : after.listsByField = manager.listsByField
  opaques : ∀ id, after.listsByOpaqueID.get? id =
    if id = opaqueListID parent name then none else manager.listsByOpaqueID.get? id

theorem Forgets.found (forgets : Forgets manager after name parent) (indexed : manager.Indexed)
    {name' parent' : String} {position : Nat}
    (found : after.lists.getIn? name' parent' = some position) :
    ¬ (name' = name ∧ parent' = parent) ∧
      manager.lists.getIn? name' parent' = some position ∧
      after.collections[position]? = manager.collections[position]? := by
  rw [forgets.lists] at found
  by_cases both : name' = name ∧ parent' = parent
  · rw [if_pos both] at found
    cases found
  · rw [if_neg both] at found
    refine ⟨both, found, forgets.collections position fun same => ?_⟩
    exact both (indexed.apart same found)

theorem Forgets.reached (forgets : Forgets manager after name parent) (indexed : manager.Indexed)
    {name' parent' : String} {list : ListHandler} (reached : after.Reaches name' parent' list) :
    manager.Reaches name' parent' list ∧ ¬ (name' = name ∧ parent' = parent) := by
  obtain ⟨position, collection, found, stored, member⟩ := reached
  obtain ⟨other, before, same⟩ := forgets.found indexed found
  exact ⟨⟨position, collection, before, same ▸ stored, member⟩, other⟩

theorem Indexed.forgets (indexed : manager.Indexed)
    (forgets : Forgets manager after name parent) : after.Indexed where
  stored := by
    intro name' parent' position found
    obtain ⟨_, before, same⟩ := forgets.found indexed found
    rw [same]
    exact indexed.stored name' parent' position before
  listed := by
    intro name' parent' list reached
    rw [forgets.fields]
    exact indexed.listed name' parent' list (forgets.reached indexed reached).1
  known := by
    intro id position found
    rw [forgets.opaques] at found
    by_cases same : id = opaqueListID parent name
    · rw [if_pos same] at found
      cases found
    · rw [if_neg same] at found
      obtain ⟨name', parent', known, placed⟩ := indexed.known id position found
      refine ⟨name', parent', known, ?_⟩
      rw [forgets.lists, if_neg, placed]
      intro both
      rw [both.1, both.2] at known
      exact same known.symm
  separable := by
    intro name' parent' position found clear
    obtain ⟨other, before, _⟩ := forgets.found indexed found
    rw [forgets.opaques, if_neg]
    · exact indexed.separable name' parent' position before clear
    · intro same
      have equal := (separable_iff parent' name').mp clear _ _ same.symm
      exact other ⟨equal.2.symm, equal.1.symm⟩

end Removed

theorem remove_forgets (manager : ListManager) (listName id : String) :
    Forgets manager (manager.remove listName id) listName (orRoot id) where
  lists := by
    intro name parent
    rw [remove, getIn?_forget]
  collections := by
    intro index _
    rfl
  fields := rfl
  opaques := by
    intro other
    rw [remove, OrderedMap.get?_erase]

theorem indexed_reset (manager : ListManager) : manager.reset.Indexed where
  stored := by
    intro name parent position found
    cases found
  listed := by
    intro name parent list reached
    obtain ⟨position, collection, found, _⟩ := reached
    cases found
  known := by
    intro id position found
    cases found
  separable := by
    intro name parent position found
    cases found

section Deleted

variable {manager : ListManager} (field : String) (list : ListHandler)

theorem deleteHandler_cases (indexed : manager.Indexed) :
    (manager.lists.getIn? list.name list.recordID = none ∧
      deleteHandler field manager list = manager) ∨
    Forgets manager (deleteHandler field manager list) list.name list.recordID ∨
    ∃ position collection, manager.lists.getIn? list.name list.recordID = some position ∧
      manager.collections[position]? = some collection ∧
      collection.filter (fun other => other.key != field) ≠ [] ∧
      deleteHandler field manager list = { manager with
        collections := manager.collections.modify position
          (·.filter fun other => other.key != field) } := by
  cases found : manager.lists.getIn? list.name list.recordID with
  | none =>
      left
      exact ⟨rfl, by simp only [deleteHandler, found]⟩
  | some position =>
      right
      obtain ⟨collection, stored, _⟩ := indexed.stored _ _ _ found
      have kept : (manager.collections.modify position
          (·.filter fun other => other.key != field))[position]? =
          some (collection.filter fun other => other.key != field) := by
        rw [List.getElem?_modify, stored]
        simp
      by_cases emptied : collection.filter (fun other => other.key != field) = []
      · left
        have result : deleteHandler field manager list =
            { manager with
              collections := manager.collections.modify position
                (·.filter fun other => other.key != field)
              lists := forget manager.lists list.name list.recordID
              listsByOpaqueID :=
                manager.listsByOpaqueID.erase (opaqueListID list.recordID list.name) } := by
          simp only [deleteHandler, found, collection?, Option.bind_some, kept,
            Option.getD_some, emptied, if_true]
        rw [result]
        constructor
        · intro name parent
          rw [getIn?_forget]
        · intro index other
          have different : position ≠ index := by
            intro same
            rw [same] at found
            exact other found
          simp [different]
        · rfl
        · intro id
          rw [OrderedMap.get?_erase]
      · right
        refine ⟨position, collection, rfl, stored, emptied, ?_⟩
        simp only [deleteHandler, found, collection?, Option.bind_some, kept,
          Option.getD_some, emptied, if_false]

theorem deleteHandler_spec (indexed : manager.Indexed) :
    (deleteHandler field manager list).Indexed ∧
      (deleteHandler field manager list).listsByField = manager.listsByField ∧
      ∀ name parent other, (deleteHandler field manager list).Reaches name parent other →
        manager.Reaches name parent other ∧
          ¬ (name = list.name ∧ parent = list.recordID ∧ other.key = field) := by
  rcases deleteHandler_cases field list indexed with
    missing | forgets | filtered
  · obtain ⟨absent, same⟩ := missing
    rw [same]
    refine ⟨indexed, rfl, fun name parent other reached => ⟨reached, fun both => ?_⟩⟩
    obtain ⟨position, collection, found, _⟩ := reached
    rw [both.1, both.2.1, absent] at found
    cases found
  · refine ⟨indexed.forgets forgets, forgets.fields, fun name parent other reached => ?_⟩
    obtain ⟨before, different⟩ := forgets.reached indexed reached
    exact ⟨before, fun both => different ⟨both.1, both.2.1⟩⟩
  · obtain ⟨position, collection, found, stored, filled, result⟩ := filtered
    have collections : ∀ index, (deleteHandler field manager list).collections[index]? =
        if index = position then some (collection.filter fun other => other.key != field)
        else manager.collections[index]? := by
      intro index
      rw [result]
      by_cases same : position = index
      · simp [← same, stored]
      · simp [same, Ne.symm same]
    have lists : (deleteHandler field manager list).lists = manager.lists := by rw [result]
    have opaques : (deleteHandler field manager list).listsByOpaqueID =
        manager.listsByOpaqueID := by rw [result]
    have fields : (deleteHandler field manager list).listsByField = manager.listsByField := by
      rw [result]
    have reached : ∀ name parent other,
        (deleteHandler field manager list).Reaches name parent other →
        manager.Reaches name parent other ∧
          ¬ (name = list.name ∧ parent = list.recordID ∧ other.key = field) := by
      intro name parent other present
      obtain ⟨place, others, placed, kept, member⟩ := present
      rw [lists] at placed
      rw [collections] at kept
      by_cases same : place = position
      · rw [if_pos same, Option.some.injEq] at kept
        rw [← kept, List.mem_filter] at member
        refine ⟨⟨place, collection, placed, same ▸ stored, member.1⟩, fun both => ?_⟩
        simp [both.2.2] at member
      · rw [if_neg same] at kept
        refine ⟨⟨place, others, placed, kept, member⟩, fun both => ?_⟩
        rw [both.1, both.2.1, found, Option.some.injEq] at placed
        exact same placed.symm
    refine ⟨⟨?_, ?_, ?_, ?_⟩, fields, reached⟩
    · intro name parent place placed
      rw [lists] at placed
      rw [collections]
      obtain ⟨others, present, nonempty, unique⟩ := indexed.stored name parent place placed
      by_cases same : place = position
      · rw [if_pos same]
        rw [same, stored, Option.some.injEq] at present
        refine ⟨_, rfl, filled, ?_⟩
        rw [present]
        exact unique.sublist (List.filter_sublist.map _)
      · rw [if_neg same]
        exact ⟨others, present, nonempty, unique⟩
    · intro name parent other present
      rw [fields]
      exact indexed.listed name parent other (reached name parent other present).1
    · intro id place known
      rw [lists]
      exact indexed.known id place (opaques ▸ known)
    · intro name parent place placed clear
      rw [opaques]
      exact indexed.separable name parent place (lists ▸ placed) clear

theorem foldl_deleteHandler_spec (handlers : List ListHandler) (indexed : manager.Indexed) :
    (handlers.foldl (deleteHandler field) manager).Indexed ∧
      (handlers.foldl (deleteHandler field) manager).listsByField = manager.listsByField ∧
      ∀ name parent other,
        (handlers.foldl (deleteHandler field) manager).Reaches name parent other →
        manager.Reaches name parent other ∧ ∀ list ∈ handlers,
          ¬ (name = list.name ∧ parent = list.recordID ∧ other.key = field) := by
  induction handlers generalizing manager with
  | nil =>
      refine ⟨indexed, rfl, fun name parent other reached => ⟨reached, fun list member => ?_⟩⟩
      cases member
  | cons first rest ih =>
      rw [List.foldl_cons]
      obtain ⟨kept, fields, reached⟩ := deleteHandler_spec field first indexed
      obtain ⟨finally', finalFields, finalReached⟩ := ih kept
      refine ⟨finally', finalFields.trans fields, fun name parent other present => ?_⟩
      obtain ⟨between, others⟩ := finalReached name parent other present
      obtain ⟨before, different⟩ := reached name parent other between
      refine ⟨before, fun list member => ?_⟩
      cases List.mem_cons.mp member with
      | inl same =>
          rw [same]
          exact different
      | inr later => exact others list later

def Gone (manager : ListManager) (parentID field : String) : Prop :=
  ∀ name parent list, manager.Reaches name parent list →
    ¬ (list.recordID = parentID ∧ list.key = field)

theorem Indexed.deleteField (indexed : manager.Indexed) (parentID field : String) :
    (manager.deleteField parentID field).Indexed ∧
      (manager.deleteField parentID field).Gone parentID field := by
  cases found : manager.listsByField.getIn? parentID field with
  | none =>
      have same : manager.deleteField parentID field = manager := by
        simp only [ListManager.deleteField, found]
      rw [same]
      refine ⟨indexed, fun name parent list reached both => ?_⟩
      obtain ⟨_, byParent, handlers, listed, _⟩ := indexed.listed name parent list reached
      rw [← byParent, both.1, both.2, found] at listed
      cases listed
  | some handlers =>
      have result : manager.deleteField parentID field =
          { handlers.foldl (deleteHandler field) manager with
            listsByField :=
              forget (handlers.foldl (deleteHandler field) manager).listsByField
                parentID field } := by
        simp only [ListManager.deleteField, found]
      obtain ⟨kept, fields, reached⟩ := foldl_deleteHandler_spec field handlers indexed
      have gone : (handlers.foldl (deleteHandler field) manager).Gone parentID field := by
        intro name parent list present both
        obtain ⟨before, different⟩ := reached name parent list present
        obtain ⟨byName, byParent, others, listed, member⟩ :=
          indexed.listed name parent list before
        rw [← byParent, both.1, both.2, found, Option.some.injEq] at listed
        exact different list (listed ▸ member) ⟨byName.symm, byParent.symm, both.2⟩
      rw [result]
      refine ⟨⟨kept.stored, ?_, kept.known, kept.separable⟩, gone⟩
      intro name parent list present
      obtain ⟨byName, byParent, others, listed, member⟩ := kept.listed name parent list present
      refine ⟨byName, byParent, others, ?_, member⟩
      dsimp only
      rw [getIn?_forget, if_neg, listed]
      intro both
      exact gone name parent list present ⟨byParent.trans both.1, both.2⟩

end Deleted

theorem Indexed.call {manager : ListManager} (indexed : manager.Indexed) (listCall : ListCall) :
    (manager.call listCall).Indexed := by
  cases listCall with
  | add list => exact indexed.add _
  | remove listName id => exact indexed.forgets (remove_forgets manager listName id)
  | deleteField parentID field => exact (indexed.deleteField parentID field).1
  | reset => exact indexed_reset manager

theorem indexed_run (calls : List ListCall) : (run calls).Indexed := by
  induction calls using List.reverseRecOn with
  | nil => exact indexed_empty
  | append_singleton calls last ih =>
      rw [run, List.foldl_append]
      exact ih.call last

theorem Indexed.call_reached {manager : ListManager} (indexed : manager.Indexed)
    {listCall : ListCall} {name parent : String} {list : ListHandler}
    (reached : (manager.call listCall).Reaches name parent list) :
    manager.Reaches name parent list ∨
      ∃ added, listCall = .add added ∧ name = added.name ∧ parent = orRoot added.recordID := by
  cases listCall with
  | add added =>
      have placed : ∀ position,
          manager.lists.getIn? added.name (orRoot added.recordID) = some position →
            ∃ collection, manager.collections[position]? = some collection := by
        intro position found
        obtain ⟨collection, stored, _⟩ := indexed.stored _ _ _ found
        exact ⟨collection, stored⟩
      cases add_cases { added with recordID := orRoot added.recordID } placed with
      | inl known =>
          obtain ⟨_, lists, collections, _⟩ := known
          obtain ⟨position, collection, found, stored, member⟩ := reached
          exact .inl ⟨position, collection, (lists _ _).symm.trans found,
            collections ▸ stored, member⟩
      | inr new =>
          obtain ⟨position, collection, adds⟩ := new
          cases adds.reached indexed reached with
          | inl same => exact .inr ⟨added, rfl, same.2⟩
          | inr before => exact .inl before
  | remove listName id =>
      exact .inl ((remove_forgets manager listName id).reached indexed reached).1
  | deleteField parentID field =>
      left
      cases found : manager.listsByField.getIn? parentID field with
      | none =>
          simp only [ListManager.call, ListManager.deleteField, found] at reached
          exact reached
      | some handlers =>
          simp only [ListManager.call, ListManager.deleteField, found] at reached
          obtain ⟨_, _, before⟩ := foldl_deleteHandler_spec field handlers indexed
          exact (before name parent list reached).1
  | reset =>
      obtain ⟨position, collection, found, _⟩ := reached
      cases found

theorem added_of_reached {calls : List ListCall} {name parent : String} {list : ListHandler}
    (reached : (run calls).Reaches name parent list) :
    ∃ added, ListCall.add added ∈ calls ∧ name = added.name ∧ parent = orRoot added.recordID := by
  induction calls using List.reverseRecOn with
  | nil =>
      obtain ⟨position, collection, found, _⟩ := reached
      cases found
  | append_singleton calls last ih =>
      rw [run, List.foldl_append] at reached
      cases (indexed_run calls).call_reached reached with
      | inl before =>
          obtain ⟨added, member, same⟩ := ih before
          exact ⟨added, List.mem_append_left _ member, same⟩
      | inr new =>
          obtain ⟨added, rfl, same⟩ := new
          exact ⟨added, List.mem_append_right _ (List.mem_singleton.mpr rfl), same⟩

/-- Both indexes have a collection, which is the same one, or neither has. -/
def Agrees (manager : ListManager) : Prop :=
  ∀ name parent, manager.lists.getIn? name parent =
    manager.listsByOpaqueID.get? (opaqueListID parent name)

theorem Indexed.agrees {manager : ListManager} (indexed : manager.Indexed)
    (separable : ∀ name parent list, manager.Reaches name parent list → Separable parent name) :
    manager.Agrees := by
  have clear : ∀ name parent position, manager.lists.getIn? name parent = some position →
      Separable parent name := by
    intro name parent position found
    obtain ⟨collection, stored, filled, _⟩ := indexed.stored name parent position found
    obtain ⟨list, member⟩ := List.exists_mem_of_ne_nil collection filled
    exact separable name parent list ⟨position, collection, found, stored, member⟩
  intro name parent
  cases found : manager.lists.getIn? name parent with
  | some position =>
      exact (indexed.separable name parent position found (clear name parent position found)).symm
  | none =>
      cases known : manager.listsByOpaqueID.get? (opaqueListID parent name) with
      | none => rfl
      | some position =>
          obtain ⟨name', parent', same, placed⟩ := indexed.known _ position known
          obtain ⟨rfl, rfl⟩ :=
            (separable_iff parent' name').mp (clear name' parent' position placed) _ _ same.symm
          rw [found] at placed
          cases placed

def ReachesOpaquely (manager : ListManager) (id : String) (list : ListHandler) : Prop :=
  ∃ position collection, manager.listsByOpaqueID.get? id = some position ∧
    manager.collections[position]? = some collection ∧ list ∈ collection

theorem Indexed.reaches_of_opaquely {manager : ListManager} (indexed : manager.Indexed)
    {id : String} {list : ListHandler} (reached : manager.ReachesOpaquely id list) :
    ∃ name parent, manager.Reaches name parent list := by
  obtain ⟨position, collection, known, stored, member⟩ := reached
  obtain ⟨name, parent, _, placed⟩ := indexed.known id position known
  exact ⟨name, parent, position, collection, placed, stored, member⟩

structure Sound (calls : List ListCall) : Prop where
  agrees : (run calls).Agrees
  single : ∀ name parent collection key,
    (run calls).collection? name parent = some collection →
      (collection.filter fun list => list.key == key).length ≤ 1
  filled : ∀ name parent, (run calls).collection? name parent ≠ some []
  deleted : ∀ before parentID field, calls = before ++ [.deleteField parentID field] →
    (∀ name parent list, (run calls).Reaches name parent list →
      ¬ (list.recordID = parentID ∧ list.key = field)) ∧
    ∀ id list, (run calls).ReachesOpaquely id list →
      ¬ (list.recordID = parentID ∧ list.key = field)

theorem length_filter_key_le {collection : ListCollection}
    (unique : (collection.map ListHandler.key).Nodup) (key : String) :
    (collection.filter fun list => list.key == key).length ≤ 1 := by
  rw [← List.countP_eq_length_filter]
  have count := List.nodup_iff_count_le_one.mp unique key
  rw [List.count, List.countP_map] at count
  simpa [Function.comp_def] using count

theorem sound_of_agrees {calls : List ListCall} (agrees : (run calls).Agrees) :
    Sound calls where
  agrees := agrees
  single := by
    intro name parent collection key found
    obtain ⟨position, placed, stored⟩ := Option.bind_eq_some_iff.mp found
    obtain ⟨others, present, _, unique⟩ := (indexed_run calls).stored name parent position placed
    rw [stored, Option.some.injEq] at present
    exact length_filter_key_le (present ▸ unique) key
  filled := by
    intro name parent found
    obtain ⟨position, placed, stored⟩ := Option.bind_eq_some_iff.mp found
    obtain ⟨others, present, nonempty, _⟩ :=
      (indexed_run calls).stored name parent position placed
    rw [stored, Option.some.injEq] at present
    exact nonempty present.symm
  deleted := by
    intro before parentID field last
    have gone : (run calls).Gone parentID field := by
      rw [last, run, List.foldl_append]
      exact ((indexed_run before).deleteField parentID field).2
    refine ⟨gone, fun id list reached => ?_⟩
    obtain ⟨name, parent, byName⟩ := (indexed_run calls).reaches_of_opaquely reached
    exact gone name parent list byName

/-- The indexes are sound all along a run if and only if every added list has an opaque id that can
be read in one way only. -/
theorem indexes_sound_iff (calls : List ListCall) :
    (∀ before, before <+: calls → Sound before) ↔
      ∀ list, ListCall.add list ∈ calls → Separable (orRoot list.recordID) list.name := by
  constructor
  · intro sound list member
    obtain ⟨before, behind, rfl⟩ := List.append_of_mem member
    have agrees := (sound (before ++ [.add list]) ⟨behind, by simp⟩).agrees
    have indexed := indexed_run (before ++ [.add list])
    have found : ∃ position, (run (before ++ [.add list])).lists.getIn? list.name
        (orRoot list.recordID) = some position := by
      rw [run, List.foldl_append]
      exact (indexed_run before).add_found { list with recordID := orRoot list.recordID }
    obtain ⟨position, placed⟩ := found
    rw [separable_iff]
    intro otherID otherName same
    have other := agrees otherName otherID
    rw [same, ← agrees list.name, placed] at other
    have equal := indexed.apart placed other
    exact ⟨equal.2, equal.1⟩
  · intro separable before early
    apply sound_of_agrees
    apply (indexed_run before).agrees
    intro name parent list reached
    obtain ⟨added, member, rfl, rfl⟩ := added_of_reached reached
    exact separable added (early.subset member)

def friends (recordID name : String) : ListHandler where
  name := name
  connection := false
  recordID := recordID
  recordType := some "User"
  key := "friends"
  listType := "User"
  selection := {}

/-- Two lists with one opaque id. -/
theorem friends_not_sound : ¬ ∀ calls before : List ListCall, before <+: calls → Sound before := by
  intro claim
  have sound := claim [.add (friends "User:1::Close" "All"), .add (friends "User:1" "Close::All")] _
    List.prefix_rfl
  have agrees := sound.agrees "All" "User:1::Close"
  revert agrees
  decide +kernel

end ListManager

end Houdini.Runtime.Cache
