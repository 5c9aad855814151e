import Mathlib.Data.List.Nodup

/-! Finite maps that keep their keys in the order of first insertion. Writing
an existing key keeps its position, which is how script objects and maps
enumerate their entries. -/

set_option autoImplicit false

universe u v w

structure OrderedMap (Key : Type u) (Value : Type v) where
  entries : List (Key × Value)
  nodupKeys : (entries.map Prod.fst).Nodup

namespace OrderedMap

variable {Key : Type u} {Value : Type v} {Other : Type w}

section Entries

variable [DecidableEq Key]

def setEntry (key : Key) (value : Value) : List (Key × Value) → List (Key × Value)
  | [] => [(key, value)]
  | (candidate, current) :: rest =>
      if candidate = key then (key, value) :: rest
      else (candidate, current) :: setEntry key value rest

def eraseEntry (key : Key) : List (Key × Value) → List (Key × Value)
  | [] => []
  | (candidate, current) :: rest =>
      if candidate = key then rest else (candidate, current) :: eraseEntry key rest

attribute [local grind =] setEntry eraseEntry

theorem mem_keys_setEntry (key candidate : Key) (value : Value)
    (entries : List (Key × Value)) :
    candidate ∈ (setEntry key value entries).map Prod.fst ↔
      candidate = key ∨ candidate ∈ entries.map Prod.fst := by
  induction entries with
  | nil => simp [setEntry]
  | cons entry rest ih =>
      obtain ⟨first, current⟩ := entry
      by_cases same : first = key
      · simp [setEntry, same]
      · simp only [setEntry, same, if_false, List.map_cons, List.mem_cons, ih]
        tauto

theorem nodup_setEntry (key : Key) (value : Value) {entries : List (Key × Value)}
    (unique : (entries.map Prod.fst).Nodup) :
    ((setEntry key value entries).map Prod.fst).Nodup := by
  induction entries with
  | nil => simp [setEntry]
  | cons entry rest ih =>
      obtain ⟨first, current⟩ := entry
      simp only [List.map_cons, List.nodup_cons] at unique
      by_cases same : first = key
      · subst same
        simpa [setEntry] using unique
      · simp only [setEntry, same, if_false, List.map_cons, List.nodup_cons]
        refine ⟨fun member => ?_, ih unique.2⟩
        rcases (mem_keys_setEntry key first value rest).mp member with equal | older
        · exact same equal
        · exact unique.1 older

theorem keys_eraseEntry_subset (key : Key) (entries : List (Key × Value)) :
    (eraseEntry key entries).map Prod.fst ⊆ entries.map Prod.fst := by
  induction entries with
  | nil => simp [eraseEntry]
  | cons entry rest ih =>
      obtain ⟨first, current⟩ := entry
      by_cases same : first = key
      · simp [eraseEntry, same]
      · simp only [eraseEntry, same, if_false, List.map_cons]
        exact List.cons_subset_cons first ih

theorem nodup_eraseEntry (key : Key) {entries : List (Key × Value)}
    (unique : (entries.map Prod.fst).Nodup) :
    ((eraseEntry key entries).map Prod.fst).Nodup := by
  induction entries with
  | nil => simp [eraseEntry]
  | cons entry rest ih =>
      obtain ⟨first, current⟩ := entry
      simp only [List.map_cons, List.nodup_cons] at unique
      by_cases same : first = key
      · simpa [eraseEntry, same] using unique.2
      · simp only [eraseEntry, same, if_false, List.map_cons, List.nodup_cons]
        exact ⟨fun member => unique.1 (keys_eraseEntry_subset key rest member),
          ih unique.2⟩

theorem lookup_setEntry_self (key : Key) (value : Value) (entries : List (Key × Value)) :
    (setEntry key value entries).lookup key = some value := by
  induction entries with
  | nil => simp [setEntry]
  | cons entry rest ih =>
      obtain ⟨first, current⟩ := entry
      by_cases same : first = key
      · simp [setEntry, same]
      · have different : (key == first) = false := by simpa using Ne.symm same
        simp [setEntry, same, List.lookup_cons, different, ih]

theorem lookup_setEntry_of_ne {key other : Key} (value : Value)
    (entries : List (Key × Value)) (different : other ≠ key) :
    (setEntry key value entries).lookup other = entries.lookup other := by
  induction entries with
  | nil =>
      have unequal : (other == key) = false := by simpa using different
      simp [setEntry, List.lookup_cons, unequal]
  | cons entry rest ih =>
      obtain ⟨first, current⟩ := entry
      by_cases same : first = key
      · subst same
        have unequal : (other == first) = false := by simpa using different
        simp [setEntry, List.lookup_cons, unequal]
      · simp only [setEntry, same, if_false, List.lookup_cons, ih]

theorem lookup_eq_none_of_not_mem {key : Key} {entries : List (Key × Value)}
    (absent : key ∉ entries.map Prod.fst) : entries.lookup key = none := by
  rw [List.lookup_eq_none_iff]
  intro entry member
  have different : key ≠ entry.1 := by
    rintro rfl
    exact absent (List.mem_map_of_mem member)
  simpa using different

theorem lookup_eraseEntry_self (key : Key) {entries : List (Key × Value)}
    (unique : (entries.map Prod.fst).Nodup) :
    (eraseEntry key entries).lookup key = none := by
  induction entries with
  | nil => simp [eraseEntry]
  | cons entry rest ih =>
      obtain ⟨first, current⟩ := entry
      simp only [List.map_cons, List.nodup_cons] at unique
      by_cases same : first = key
      · subst same
        simpa [eraseEntry] using lookup_eq_none_of_not_mem unique.1
      · have different : (key == first) = false := by simpa using Ne.symm same
        simp [eraseEntry, same, List.lookup_cons, different, ih unique.2]

theorem lookup_eraseEntry_of_ne {key other : Key} (entries : List (Key × Value))
    (different : other ≠ key) :
    (eraseEntry key entries).lookup other = entries.lookup other := by
  induction entries with
  | nil => simp [eraseEntry]
  | cons entry rest ih =>
      obtain ⟨first, current⟩ := entry
      by_cases same : first = key
      · subst same
        have unequal : (other == first) = false := by simpa using different
        simp [eraseEntry, List.lookup_cons, unequal]
      · simp only [eraseEntry, same, if_false, List.lookup_cons, ih]

theorem mem_iff_lookup {key : Key} {value : Value} {entries : List (Key × Value)}
    (unique : (entries.map Prod.fst).Nodup) :
    (key, value) ∈ entries ↔ entries.lookup key = some value := by
  induction entries with
  | nil => simp
  | cons entry rest ih =>
      obtain ⟨first, current⟩ := entry
      simp only [List.map_cons, List.nodup_cons] at unique
      by_cases same : key = first
      · subst same
        have absent : (key, value) ∉ rest := fun member =>
          unique.1 (List.mem_map_of_mem (f := Prod.fst) member)
        simp [absent, eq_comm]
      · have different : (key == first) = false := by simpa using same
        simp [List.lookup_cons, different, ih unique.2, same]

theorem length_eraseEntry_of_mem {key : Key} {entries : List (Key × Value)}
    (present : key ∈ entries.map Prod.fst) :
    (eraseEntry key entries).length + 1 = entries.length := by
  induction entries with
  | nil => simp at present
  | cons entry rest ih =>
      obtain ⟨first, current⟩ := entry
      by_cases same : first = key
      · simp [eraseEntry, same]
      · have later : key ∈ rest.map Prod.fst := by simpa [Ne.symm same] using present
        simp [eraseEntry, same, ih later]

theorem length_setEntry_le (key : Key) (value : Value) (entries : List (Key × Value)) :
    (setEntry key value entries).length ≤ entries.length + 1 := by
  induction entries with
  | nil => simp [setEntry]
  | cons entry rest ih =>
      obtain ⟨first, current⟩ := entry
      by_cases same : first = key
      · simp [setEntry, same]
      · simpa [setEntry, same] using ih

end Entries

instance : EmptyCollection (OrderedMap Key Value) := ⟨⟨[], by simp⟩⟩

instance : Inhabited (OrderedMap Key Value) := ⟨∅⟩

@[simp] theorem entries_empty : (∅ : OrderedMap Key Value).entries = [] := rfl

section Operations

variable [DecidableEq Key]

instance [DecidableEq Value] : DecidableEq (OrderedMap Key Value) := fun left right =>
  decidable_of_iff (left.entries = right.entries) (by
    cases left
    cases right
    simp)

def get? (map : OrderedMap Key Value) (key : Key) : Option Value :=
  map.entries.lookup key

def set (map : OrderedMap Key Value) (key : Key) (value : Value) : OrderedMap Key Value :=
  ⟨setEntry key value map.entries, nodup_setEntry key value map.nodupKeys⟩

def erase (map : OrderedMap Key Value) (key : Key) : OrderedMap Key Value :=
  ⟨eraseEntry key map.entries, nodup_eraseEntry key map.nodupKeys⟩

def keys (map : OrderedMap Key Value) : List Key := map.entries.map Prod.fst

def values (map : OrderedMap Key Value) : List Value := map.entries.map Prod.snd

def contains (map : OrderedMap Key Value) (key : Key) : Bool := (map.get? key).isSome

def isEmpty (map : OrderedMap Key Value) : Bool := map.entries.isEmpty

def setAll (map : OrderedMap Key Value) (entries : List (Key × Value)) :
    OrderedMap Key Value :=
  entries.foldl (fun map entry => map.set entry.1 entry.2) map

def ofList (entries : List (Key × Value)) : OrderedMap Key Value :=
  (∅ : OrderedMap Key Value).setAll entries

def singleton (key : Key) (value : Value) : OrderedMap Key Value :=
  (∅ : OrderedMap Key Value).set key value

def mapValues (map : OrderedMap Key Value) (transform : Key → Value → Other) :
    OrderedMap Key Other :=
  ⟨map.entries.map fun entry => (entry.1, transform entry.1 entry.2), by
    have keysSame : (map.entries.map fun entry =>
        (entry.1, transform entry.1 entry.2)).map Prod.fst = map.entries.map Prod.fst := by
      simp
    rw [keysSame]
    exact map.nodupKeys⟩

def filter (map : OrderedMap Key Value) (keep : Key × Value → Bool) :
    OrderedMap Key Value :=
  ⟨map.entries.filter keep,
    map.nodupKeys.sublist (List.filter_sublist.map Prod.fst)⟩

/-- Rewrite the entries, in their order, and drop those for which there is nothing to write. -/
def filterMapValues (map : OrderedMap Key Value) (transform : Value → Option Other) :
    OrderedMap Key Other :=
  ⟨map.entries.filterMap fun entry => (transform entry.2).map (entry.1, ·), by
    refine map.nodupKeys.sublist ?_
    rw [List.map_filterMap]
    have keys : ∀ entry : Key × Value,
        Option.map Prod.fst ((transform entry.2).map (entry.1, ·)) =
          (Option.guard (fun _ => (transform entry.2).isSome) entry).map Prod.fst := by
      intro entry
      cases transform entry.2 <;> rfl
    rw [show (fun entry : Key × Value =>
        Option.map Prod.fst ((transform entry.2).map (entry.1, ·))) =
          fun entry => (Option.guard (fun entry => (transform entry.2).isSome) entry).map Prod.fst
      from funext keys, ← List.map_filterMap, List.filterMap_eq_filter]
    exact List.filter_sublist.map Prod.fst⟩

@[simp] theorem get?_empty (key : Key) : (∅ : OrderedMap Key Value).get? key = none := rfl

@[simp] theorem get?_set_self (map : OrderedMap Key Value) (key : Key) (value : Value) :
    (map.set key value).get? key = some value :=
  lookup_setEntry_self key value map.entries

@[simp] theorem get?_set_of_ne (map : OrderedMap Key Value) {key other : Key}
    (value : Value) (different : other ≠ key) :
    (map.set key value).get? other = map.get? other :=
  lookup_setEntry_of_ne value map.entries different

theorem get?_set (map : OrderedMap Key Value) (key other : Key) (value : Value) :
    (map.set key value).get? other = if other = key then some value else map.get? other := by
  by_cases same : other = key
  · simp [same]
  · simp [same]

@[simp] theorem get?_erase_self (map : OrderedMap Key Value) (key : Key) :
    (map.erase key).get? key = none :=
  lookup_eraseEntry_self key map.nodupKeys

@[simp] theorem get?_erase_of_ne (map : OrderedMap Key Value) {key other : Key}
    (different : other ≠ key) : (map.erase key).get? other = map.get? other :=
  lookup_eraseEntry_of_ne map.entries different

theorem get?_erase (map : OrderedMap Key Value) (key other : Key) :
    (map.erase key).get? other = if other = key then none else map.get? other := by
  by_cases same : other = key
  · simp [same]
  · simp [same]

theorem length_erase {map : OrderedMap Key Value} {key : Key} {value : Value}
    (found : map.get? key = some value) :
    (map.erase key).entries.length + 1 = map.entries.length :=
  length_eraseEntry_of_mem (List.mem_map_of_mem
    ((mem_iff_lookup map.nodupKeys).mpr found))

theorem length_setAll_le (entries : List (Key × Value)) (map : OrderedMap Key Value) :
    (map.setAll entries).entries.length ≤ map.entries.length + entries.length := by
  induction entries generalizing map with
  | nil => exact Nat.le_refl _
  | cons entry rest ih =>
      have later := ih (map.set entry.1 entry.2)
      have first := length_setEntry_le entry.1 entry.2 map.entries
      have here : (map.set entry.1 entry.2).entries.length ≤ map.entries.length + 1 := first
      rw [List.length_cons]
      exact Nat.le_trans later (by omega)

theorem mem_entries_iff {map : OrderedMap Key Value} {key : Key} {value : Value} :
    (key, value) ∈ map.entries ↔ map.get? key = some value :=
  mem_iff_lookup map.nodupKeys

theorem mem_keys_iff {map : OrderedMap Key Value} {key : Key} :
    key ∈ map.keys ↔ ∃ value, map.get? key = some value := by
  simp only [keys, List.mem_map, Prod.exists, exists_and_right, exists_eq_right]
  exact exists_congr fun value => mem_entries_iff

theorem get?_setAll (entries : List (Key × Value)) (map : OrderedMap Key Value) (key : Key) :
    (map.setAll entries).get? key = (entries.reverse.lookup key).or (map.get? key) := by
  induction entries generalizing map with
  | nil => simp [setAll]
  | cons entry rest ih =>
      obtain ⟨first, value⟩ := entry
      have step : (map.setAll ((first, value) :: rest)) = (map.set first value).setAll rest := rfl
      rw [step, ih, get?_set, List.reverse_cons, List.lookup_append]
      by_cases same : key = first
      · subst same
        cases rest.reverse.lookup key <;> simp
      · have different : (key == first) = false := by simpa using same
        cases rest.reverse.lookup key <;> simp [same, List.lookup_cons, different]

theorem filter_key_eq (map : OrderedMap Key Value) (key : Key) :
    map.entries.filter (fun entry => entry.1 = key) =
      ((map.get? key).map fun value => (key, value)).toList := by
  obtain ⟨entries, unique⟩ := map
  change _ = ((entries.lookup key).map _).toList
  dsimp only
  induction entries with
  | nil => rfl
  | cons entry rest ih =>
      obtain ⟨first, value⟩ := entry
      rw [List.map_cons, List.nodup_cons] at unique
      by_cases same : first = key
      · subst same
        have none := ih unique.2
        rw [lookup_eq_none_of_not_mem unique.1] at none
        rw [List.filter_cons, none, List.lookup_cons, beq_self_eq_true]
        simp
      · have other : (key == first) = false := beq_eq_false_iff_ne.mpr (Ne.symm same)
        rw [List.filter_cons_of_neg (by simpa using same), List.lookup_cons, other]
        exact ih unique.2

theorem mem_of_mem_ofList {entries : List (Key × Value)} {entry : Key × Value}
    (member : entry ∈ (ofList entries).entries) : entry ∈ entries := by
  have found : (ofList entries).get? entry.1 = some entry.2 := mem_entries_iff.mp member
  rw [ofList, get?_setAll, get?_empty, Option.or_none, List.lookup_eq_some_iff] at found
  obtain ⟨before, behind, same, _⟩ := found
  rw [← List.mem_reverse, same]
  exact List.mem_append_right _ List.mem_cons_self

theorem entries_set_of_not_mem {map : OrderedMap Key Value} {key : Key}
    (absent : key ∉ map.keys) (value : Value) :
    (map.set key value).entries = map.entries ++ [(key, value)] := by
  obtain ⟨entries, unique⟩ := map
  change key ∉ entries.map Prod.fst at absent
  change setEntry key value entries = entries ++ [(key, value)]
  clear unique
  induction entries with
  | nil => rfl
  | cons entry rest ih =>
      rw [List.map_cons, List.mem_cons, not_or] at absent
      rw [setEntry, if_neg (Ne.symm absent.1), ih absent.2]
      rfl

theorem entries_setAll_of_nodup {entries : List (Key × Value)} {map : OrderedMap Key Value}
    (unique : (map.keys ++ entries.map Prod.fst).Nodup) :
    (map.setAll entries).entries = map.entries ++ entries := by
  induction entries generalizing map with
  | nil => rw [List.append_nil]; rfl
  | cons entry rest ih =>
      obtain ⟨key, value⟩ := entry
      have absent : key ∉ map.keys := by
        intro member
        exact List.disjoint_of_nodup_append unique member List.mem_cons_self
      have extended := entries_set_of_not_mem absent value
      have later : ((map.set key value).keys ++ rest.map Prod.fst).Nodup := by
        rw [keys, extended, List.map_append, List.append_assoc]
        exact unique
      have step : map.setAll ((key, value) :: rest) = (map.set key value).setAll rest := rfl
      rw [step, ih later, extended, List.append_assoc]
      rfl

theorem entries_ofList_of_nodup {entries : List (Key × Value)}
    (unique : (entries.map Prod.fst).Nodup) : (ofList entries).entries = entries := by
  rw [ofList, entries_setAll_of_nodup (by exact unique), entries_empty, List.nil_append]

theorem get?_ofList_map (keys : List Key) (value : Value) (key : Key) :
    (ofList (keys.map fun key => (key, value))).get? key =
      if key ∈ keys then some value else none := by
  rw [ofList, get?_setAll, get?_empty, Option.or_none, ← List.map_reverse]
  have same : key ∈ keys ↔ key ∈ keys.reverse := List.mem_reverse.symm
  rw [if_congr same rfl rfl]
  induction keys.reverse with
  | nil => rfl
  | cons first rest ih =>
      rw [List.map_cons, List.lookup_cons]
      by_cases first : key = first
      · subst first
        simp
      · have different : (key == _) = false := beq_eq_false_iff_ne.mpr first
        simp only [different, ih, List.mem_cons, first, false_or]

theorem get?_setAll_entries (source map : OrderedMap Key Value) (key : Key) :
    (map.setAll source.entries).get? key = (source.get? key).or (map.get? key) := by
  rw [get?_setAll]
  congr 1
  have reversedUnique : (source.entries.reverse.map Prod.fst).Nodup := by
    rw [List.map_reverse, List.nodup_reverse]
    exact source.nodupKeys
  cases found : source.get? key with
  | none =>
      refine lookup_eq_none_of_not_mem fun member => ?_
      rw [List.map_reverse, List.mem_reverse] at member
      obtain ⟨value, present⟩ := mem_keys_iff.mp member
      simp [found] at present
  | some value =>
      refine (mem_iff_lookup reversedUnique).mp ?_
      rw [List.mem_reverse]
      exact mem_entries_iff.mpr found

/-- Folding over the entries of a map, when each step only changes what is
observed at its own key: a key sees the step for its own entry. -/
theorem observe_foldl_entries {State Observed : Type*} (observe : Key → State → Observed)
    (step : State → Key × Value → State) (update : Key → Value → Observed → Observed)
    (hit : ∀ state key value, observe key (step state (key, value)) =
      update key value (observe key state))
    (frame : ∀ state entry key, key ≠ entry.1 →
      observe key (step state entry) = observe key state)
    (map : OrderedMap Key Value) (state : State) (key : Key) :
    observe key (map.entries.foldl step state) =
      match map.get? key with
      | none => observe key state
      | some value => update key value (observe key state) := by
  obtain ⟨entries, unique⟩ := map
  simp only [get?]
  induction entries generalizing state with
  | nil => rfl
  | cons entry rest ih =>
      obtain ⟨first, current⟩ := entry
      simp only [List.map_cons, List.nodup_cons] at unique
      rw [List.foldl_cons, ih (step state (first, current)) unique.2]
      by_cases same : key = first
      · subst same
        rw [lookup_eq_none_of_not_mem unique.1]
        simp [hit]
      · have different : (key == first) = false := by simpa using same
        rw [frame state (first, current) key same, List.lookup_cons, different]

theorem get?_mapValues (map : OrderedMap Key Value) (transform : Key → Value → Other)
    (key : Key) :
    (map.mapValues transform).get? key = (map.get? key).map (transform key) := by
  cases found : map.get? key with
  | some value =>
      refine mem_iff_lookup (map.mapValues transform).nodupKeys |>.mp ?_
      exact List.mem_map.mpr ⟨(key, value), mem_entries_iff.mpr found, rfl⟩
  | none =>
      cases mapped : (map.mapValues transform).get? key with
      | none => rfl
      | some value =>
          have member := mem_entries_iff.mpr mapped
          obtain ⟨⟨source, original⟩, present, same⟩ := List.mem_map.mp member
          simp only [Prod.mk.injEq] at same
          rw [same.1] at present
          rw [mem_entries_iff.mp present] at found
          cases found

theorem get?_filter (map : OrderedMap Key Value) (keep : Key × Value → Bool) (key : Key) :
    (map.filter keep).get? key = (map.get? key).filter fun value => keep (key, value) := by
  cases found : map.get? key with
  | none =>
      cases kept : (map.filter keep).get? key with
      | none => rfl
      | some value =>
          have member := List.mem_filter.mp (mem_entries_iff.mpr kept)
          rw [mem_entries_iff.mp member.1] at found
          cases found
  | some value =>
      have member := mem_entries_iff.mpr found
      cases passed : keep (key, value) with
      | true =>
          have keptMember : (key, value) ∈ (map.filter keep).entries :=
            List.mem_filter.mpr ⟨member, passed⟩
          rw [mem_entries_iff.mp keptMember, Option.filter_some, passed, if_pos rfl]
      | false =>
          cases kept : (map.filter keep).get? key with
          | none => rw [Option.filter_some, passed]; rfl
          | some other =>
              have otherMember := List.mem_filter.mp (mem_entries_iff.mpr kept)
              rw [mem_entries_iff.mp otherMember.1] at found
              cases found
              simp [passed] at otherMember

theorem get?_filterMapValues (map : OrderedMap Key Value) (transform : Value → Option Other)
    (key : Key) :
    (map.filterMapValues transform).get? key = (map.get? key).bind transform := by
  have entry : ∀ other, (map.filterMapValues transform).get? key = some other ↔
      ∃ value, map.get? key = some value ∧ transform value = some other := by
    intro other
    rw [← mem_entries_iff, filterMapValues, List.mem_filterMap]
    constructor
    · rintro ⟨⟨candidate, value⟩, member, same⟩
      obtain ⟨written, transformed, equal⟩ := Option.map_eq_some_iff.mp same
      cases equal
      exact ⟨value, mem_entries_iff.mp member, transformed⟩
    · rintro ⟨value, found, transformed⟩
      exact ⟨(key, value), mem_entries_iff.mpr found, by rw [transformed]; rfl⟩
  ext other
  rw [entry other, Option.bind_eq_some_iff]

end Operations

end OrderedMap

namespace OrderedMap

variable {Outer Inner Value : Type*} [DecidableEq Outer] [DecidableEq Inner]

def getIn? (map : OrderedMap Outer (OrderedMap Inner Value)) (outer : Outer) (inner : Inner) :
    Option Value :=
  (map.get? outer).bind (·.get? inner)

def setIn (map : OrderedMap Outer (OrderedMap Inner Value)) (outer : Outer) (inner : Inner)
    (value : Value) : OrderedMap Outer (OrderedMap Inner Value) :=
  map.set outer (((map.get? outer).getD ∅).set inner value)

@[simp] theorem getIn?_empty (outer : Outer) (inner : Inner) :
    (∅ : OrderedMap Outer (OrderedMap Inner Value)).getIn? outer inner = none := rfl

theorem getIn?_setIn (map : OrderedMap Outer (OrderedMap Inner Value))
    (outer outer' : Outer) (inner inner' : Inner) (value : Value) :
    (map.setIn outer inner value).getIn? outer' inner' =
      if outer' = outer ∧ inner' = inner then some value else map.getIn? outer' inner' := by
  simp only [getIn?, setIn, get?_set]
  by_cases sameOuter : outer' = outer
  · subst sameOuter
    simp only [if_true, Option.bind_some, get?_set, true_and]
    cases map.get? outer' <;> simp
  · simp [sameOuter]

theorem getIn?_erase (map : OrderedMap Outer (OrderedMap Inner Value))
    (outer outer' : Outer) (inner : Inner) :
    (map.erase outer).getIn? outer' inner =
      if outer' = outer then none else map.getIn? outer' inner := by
  simp only [getIn?, get?_erase]
  by_cases same : outer' = outer <;> simp [same]

def entriesIn (map : OrderedMap Outer (OrderedMap Inner Value)) :
    List (Outer × Inner × Value) :=
  map.entries.flatMap fun outer => outer.2.entries.map fun inner => (outer.1, inner)

theorem mem_entriesIn {map : OrderedMap Outer (OrderedMap Inner Value)}
    {outer : Outer} {inner : Inner} {value : Value} :
    (outer, inner, value) ∈ map.entriesIn ↔ map.getIn? outer inner = some value := by
  simp only [entriesIn, List.mem_flatMap, List.mem_map, Prod.exists, Prod.mk.injEq, getIn?,
    Option.bind_eq_some_iff]
  constructor
  · rintro ⟨outer', row, rowMember, inner', value', member, rfl, rfl, rfl⟩
    exact ⟨row, mem_entries_iff.mp rowMember, mem_entries_iff.mp member⟩
  · rintro ⟨row, rowFound, found⟩
    exact ⟨outer, row, mem_entries_iff.mpr rowFound, inner, value, mem_entries_iff.mpr found,
      rfl, rfl, rfl⟩

def setAllIn (map : OrderedMap Outer (OrderedMap Inner Value))
    (entries : List (Outer × Inner × Value)) : OrderedMap Outer (OrderedMap Inner Value) :=
  entries.foldl (fun map entry => map.setIn entry.1 entry.2.1 entry.2.2) map

theorem getIn?_setAllIn_of_not_mem {entries : List (Outer × Inner × Value)}
    {map : OrderedMap Outer (OrderedMap Inner Value)} {outer : Outer} {inner : Inner}
    (absent : ∀ value, (outer, inner, value) ∉ entries) :
    (map.setAllIn entries).getIn? outer inner = map.getIn? outer inner := by
  induction entries generalizing map with
  | nil => rfl
  | cons entry rest ih =>
      obtain ⟨outer', inner', value⟩ := entry
      have step : map.setAllIn ((outer', inner', value) :: rest) =
          (map.setIn outer' inner' value).setAllIn rest := rfl
      rw [step, ih fun other member => absent other (List.mem_cons_of_mem _ member),
        getIn?_setIn, if_neg]
      rintro ⟨rfl, rfl⟩
      exact absent value List.mem_cons_self

theorem getIn?_setAllIn_of_mem {entries : List (Outer × Inner × Value)}
    {map : OrderedMap Outer (OrderedMap Inner Value)} {outer : Outer} {inner : Inner}
    {value : Value} (member : (outer, inner, value) ∈ entries)
    (functional : ∀ other, (outer, inner, other) ∈ entries → other = value) :
    (map.setAllIn entries).getIn? outer inner = some value := by
  induction entries generalizing map with
  | nil => cases member
  | cons entry rest ih =>
      obtain ⟨outer', inner', current⟩ := entry
      have step : map.setAllIn ((outer', inner', current) :: rest) =
          (map.setIn outer' inner' current).setAllIn rest := rfl
      rw [step]
      by_cases later : (outer, inner, value) ∈ rest
      · exact ih later fun other otherMember =>
          functional other (List.mem_cons_of_mem _ otherMember)
      · rcases List.mem_cons.mp member with same | impossible
        · cases same
          rw [getIn?_setAllIn_of_not_mem, getIn?_setIn, if_pos ⟨rfl, rfl⟩]
          intro other otherMember
          have equal := functional other (List.mem_cons_of_mem _ otherMember)
          exact later (equal ▸ otherMember)
        · exact absurd impossible later

theorem getIn?_setAllIn_entriesIn (source map : OrderedMap Outer (OrderedMap Inner Value))
    (outer : Outer) (inner : Inner) :
    (map.setAllIn source.entriesIn).getIn? outer inner =
      (source.getIn? outer inner).or (map.getIn? outer inner) := by
  cases found : source.getIn? outer inner with
  | none =>
      rw [getIn?_setAllIn_of_not_mem, Option.none_or]
      intro value member
      rw [mem_entriesIn.mp member] at found
      cases found
  | some value =>
      rw [getIn?_setAllIn_of_mem (mem_entriesIn.mpr found), Option.some_or]
      intro other member
      rw [mem_entriesIn.mp member] at found
      exact Option.some.inj found

end OrderedMap
