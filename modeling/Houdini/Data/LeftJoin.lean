import Mathlib.Data.List.Basic

/-! Joins that keep a row of the left side when nothing on the right side fits it. -/

set_option autoImplicit false

universe u v

namespace Houdini

variable {Left : Type u} {Right : Type v}

def joinedRows (row : Left) (found : List Right) : List (Left × Option Right) :=
  if found.isEmpty then [(row, none)] else found.map fun other => (row, some other)

def leftJoin (left : List Left) (found : Left → List Right) : List (Left × Option Right) :=
  left.flatMap fun row => joinedRows row (found row)

theorem length_joinedRows (row : Left) (found : List Right) :
    (joinedRows row found).length = max 1 found.length := by
  cases found with
  | nil => rfl
  | cons other rest => simp [joinedRows]

theorem mem_joinedRows_iff {row : Left} {found : List Right} {joined : Left × Option Right} :
    joined ∈ joinedRows row found ↔
      joined.1 = row ∧ (joined.2 = none ∧ found = [] ∨ ∃ other ∈ found, joined.2 = some other) := by
  obtain ⟨left, right⟩ := joined
  cases found with
  | nil => simp [joinedRows]
  | cons other rest =>
      cases right with
      | none => simp [joinedRows]
      | some value => simp [joinedRows]; grind

theorem mem_leftJoin_iff {left : List Left} {found : Left → List Right}
    {joined : Left × Option Right} :
    joined ∈ leftJoin left found ↔ joined.1 ∈ left ∧
      (joined.2 = none ∧ found joined.1 = [] ∨ ∃ other ∈ found joined.1, joined.2 = some other) := by
  rw [leftJoin, List.mem_flatMap]
  constructor
  · intro member
    obtain ⟨row, isRow, of⟩ := member
    obtain ⟨same, parts⟩ := mem_joinedRows_iff.mp of
    subst same
    exact ⟨isRow, parts⟩
  · intro parts
    exact ⟨joined.1, parts.1, mem_joinedRows_iff.mpr ⟨rfl, parts.2⟩⟩

theorem length_le_length_leftJoin (left : List Left) (found : Left → List Right) :
    left.length ≤ (leftJoin left found).length := by
  induction left with
  | nil => exact Nat.le_refl 0
  | cons row rest ih =>
      rw [leftJoin, List.flatMap_cons, List.length_append, length_joinedRows, List.length_cons,
        Nat.add_comm]
      exact Nat.add_le_add (Nat.le_max_left _ _) ih

/-- A row of the left side has its rows, and every other row has at least one. -/
theorem length_leftJoin_of_mem {left : List Left} (found : Left → List Right) {row : Left}
    (member : row ∈ left) :
    left.length + (found row).length ≤ (leftJoin left found).length + 1 := by
  obtain ⟨before, after, rfl⟩ := List.append_of_mem member
  have earlier := length_le_length_leftJoin before found
  have later := length_le_length_leftJoin after found
  have own := length_joinedRows row (found row)
  have split : leftJoin (before ++ row :: after) found =
      leftJoin before found ++ (joinedRows row (found row) ++ leftJoin after found) := by
    rw [leftJoin, List.flatMap_append, List.flatMap_cons]
    rfl
  rw [split]
  simp only [List.length_append, List.length_cons]
  omega

end Houdini
