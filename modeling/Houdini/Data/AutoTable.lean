import Mathlib.Data.List.Nodup

/-! Tables whose rows get increasing numbers. A number is never given out twice, not even after its
row was deleted. -/

set_option autoImplicit false

universe u

namespace Houdini

structure AutoTable (Row : Type u) where
  entries : List (Nat × Row)
  next : Nat
  below : ∀ entry ∈ entries, entry.1 < next
  unique : (entries.map Prod.fst).Nodup

namespace AutoTable

variable {Row : Type u}

def empty : AutoTable Row where
  entries := []
  next := 1
  below := by simp
  unique := List.nodup_nil

def numbered (next : Nat) : List Row → List (Nat × Row)
  | [] => []
  | row :: rest => (next, row) :: numbered (next + 1) rest

theorem map_snd_numbered (next : Nat) (rows : List Row) :
    (numbered next rows).map Prod.snd = rows := by
  induction rows generalizing next with
  | nil => rfl
  | cons row rest ih => rw [numbered, List.map_cons, ih]

theorem numbered_map {Other : Type u} (change : Row → Other) (next : Nat) (rows : List Row) :
    numbered next (rows.map change) =
      (numbered next rows).map fun entry => (entry.1, change entry.2) := by
  induction rows generalizing next with
  | nil => rfl
  | cons row rest ih => rw [List.map_cons, numbered, numbered, List.map_cons, ih]

theorem bounds_of_mem_numbered {next : Nat} {rows : List Row} {entry : Nat × Row}
    (member : entry ∈ numbered next rows) : next ≤ entry.1 ∧ entry.1 < next + rows.length := by
  induction rows generalizing next with
  | nil => exact absurd member List.not_mem_nil
  | cons row rest ih =>
      rw [List.length_cons]
      rcases List.mem_cons.mp member with rfl | later
      · exact ⟨Nat.le_refl _, by simp only; omega⟩
      · obtain ⟨lower, upper⟩ := ih later
        exact ⟨by omega, by omega⟩

theorem nodup_numbered (next : Nat) (rows : List Row) :
    ((numbered next rows).map Prod.fst).Nodup := by
  induction rows generalizing next with
  | nil => exact List.nodup_nil
  | cons row rest ih =>
      rw [numbered, List.map_cons, List.nodup_cons]
      refine ⟨fun member => ?_, ih (next + 1)⟩
      obtain ⟨entry, later, same⟩ := List.mem_map.mp member
      have bound := (bounds_of_mem_numbered later).1
      omega

def insertAll (table : AutoTable Row) (rows : List Row) : AutoTable Row where
  entries := table.entries ++ numbered table.next rows
  next := table.next + rows.length
  below := by
    intro entry member
    rcases List.mem_append.mp member with older | added
    · exact Nat.lt_of_lt_of_le (table.below entry older) (Nat.le_add_right _ _)
    · exact (bounds_of_mem_numbered added).2
  unique := by
    rw [List.map_append, List.nodup_append]
    refine ⟨table.unique, nodup_numbered _ _, ?_⟩
    intro number older other added same
    obtain ⟨entry, member, rfl⟩ := List.mem_map.mp older
    obtain ⟨fresh, inserted, rfl⟩ := List.mem_map.mp added
    have lower := (bounds_of_mem_numbered inserted).1
    have upper := table.below entry member
    omega

def insert (table : AutoTable Row) (row : Row) : AutoTable Row := table.insertAll [row]

@[simp]
theorem entries_insert (table : AutoTable Row) (row : Row) :
    (table.insert row).entries = table.entries ++ [(table.next, row)] := rfl

def filter (table : AutoTable Row) (keep : Nat × Row → Bool) : AutoTable Row where
  entries := table.entries.filter keep
  next := table.next
  below := fun entry member => table.below entry (List.mem_of_mem_filter member)
  unique := table.unique.sublist (List.filter_sublist.map Prod.fst)

def update (table : AutoTable Row) (change : Row → Row) : AutoTable Row where
  entries := table.entries.map fun entry => (entry.1, change entry.2)
  next := table.next
  below := by
    intro entry member
    obtain ⟨original, present, rfl⟩ := List.mem_map.mp member
    exact table.below original present
  unique := by
    rw [List.map_map]
    exact table.unique

def updateAt (table : AutoTable Row) (change : Nat → Row → Row) : AutoTable Row where
  entries := table.entries.map fun entry => (entry.1, change entry.1 entry.2)
  next := table.next
  below := by
    intro entry member
    obtain ⟨original, present, rfl⟩ := List.mem_map.mp member
    exact table.below original present
  unique := by
    rw [List.map_map]
    exact table.unique

@[simp]
theorem keys_update (table : AutoTable Row) (change : Row → Row) :
    (table.update change).entries.map Prod.fst = table.entries.map Prod.fst := by
  simp [update]

@[simp]
theorem keys_updateAt (table : AutoTable Row) (change : Nat → Row → Row) :
    (table.updateAt change).entries.map Prod.fst = table.entries.map Prod.fst := by
  simp [updateAt]

theorem keys_insertAll (table : AutoTable Row) (rows : List Row) :
    table.entries.map Prod.fst ⊆ (table.insertAll rows).entries.map Prod.fst := by
  rw [insertAll, List.map_append]
  exact List.subset_append_left _ _

theorem eq_of_mem (table : AutoTable Row) {entry other : Nat × Row} (member : entry ∈ table.entries)
    (otherMember : other ∈ table.entries) (same : entry.1 = other.1) : entry = other :=
  List.inj_on_of_nodup_map table.unique member otherMember same

def row? (table : AutoTable Row) (number : Nat) : Option Row := table.entries.lookup number

theorem row?_eq_some_iff (table : AutoTable Row) {number : Nat} {row : Row} :
    table.row? number = some row ↔ (number, row) ∈ table.entries := by
  rw [row?, List.lookup_eq_some_iff]
  constructor
  · intro found
    obtain ⟨before, after, same, _⟩ := found
    rw [same]
    exact List.mem_append_right _ List.mem_cons_self
  · intro member
    obtain ⟨before, after, same⟩ := List.append_of_mem member
    refine ⟨before, after, same, fun entry earlier => ?_⟩
    have unique := table.unique
    rw [same, List.map_append, List.nodup_append] at unique
    have apart := unique.2.2 entry.1 (List.mem_map_of_mem earlier) number List.mem_cons_self
    simpa using Ne.symm apart

end AutoTable

end Houdini
