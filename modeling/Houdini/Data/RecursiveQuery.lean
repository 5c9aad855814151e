import Mathlib.Data.List.Basic

/-! Recursive queries: rows from which others are derived, round by round. -/

set_option autoImplicit false

universe u

namespace Houdini

variable {Row : Type u}

def levels (step : Row → List Row) : Nat → List Row → List Row
  | 0, _ => []
  | rounds + 1, rows => rows ++ levels step rounds (rows.flatMap step)

variable {step : Row → List Row}

theorem levels_induction {good : Row → Prop} {rows : List Row} (base : ∀ row ∈ rows, good row)
    (next : ∀ row, good row → ∀ other ∈ step row, good other) (rounds : Nat) :
    ∀ row ∈ levels step rounds rows, good row := by
  induction rounds generalizing rows with
  | zero => exact fun row member => absurd member List.not_mem_nil
  | succ rounds ih =>
      intro row member
      rcases List.mem_append.mp member with first | later
      · exact base row first
      · refine ih (fun other derived => ?_) row later
        obtain ⟨origin, isFirst, leads⟩ := List.mem_flatMap.mp derived
        exact next origin (base origin isFirst) other leads

theorem levels_subset {rows others : List Row} (subset : rows ⊆ others) (rounds : Nat) :
    levels step rounds rows ⊆ levels step rounds others := by
  induction rounds generalizing rows others with
  | zero => exact fun _ member => member
  | succ rounds ih =>
      intro row member
      rcases List.mem_append.mp member with first | later
      · exact List.mem_append_left _ (subset first)
      · refine List.mem_append_right _ (ih (fun other derived => ?_) later)
        obtain ⟨origin, isFirst, leads⟩ := List.mem_flatMap.mp derived
        exact List.mem_flatMap.mpr ⟨origin, subset isFirst, leads⟩

theorem mem_levels_of_derived {rows : List Row} {row other : Row} {rounds : Nat} (member : row ∈ rows)
    (derived : other ∈ levels step rounds (step row)) : other ∈ levels step (rounds + 1) rows :=
  List.mem_append_right _ (levels_subset (fun _ leads => List.mem_flatMap.mpr ⟨row, member, leads⟩)
    rounds derived)

theorem mem_levels_of_mem {rows : List Row} {row : Row} {rounds : Nat} (member : row ∈ rows) :
    row ∈ levels step (rounds + 1) rows :=
  List.mem_append_left _ member

theorem derived_of_mem_levels {rows : List Row} {row : Row} {rounds : Nat}
    (member : row ∈ levels step rounds rows) :
    row ∈ rows ∨ ∃ origin ∈ levels step rounds rows, row ∈ step origin := by
  induction rounds generalizing rows with
  | zero => exact absurd member List.not_mem_nil
  | succ rounds ih =>
      rcases List.mem_append.mp member with first | later
      · exact .inl first
      · rcases ih later with derived | ⟨origin, known, leads⟩
        · obtain ⟨origin, isFirst, leads⟩ := List.mem_flatMap.mp derived
          exact .inr ⟨origin, List.mem_append_left _ isFirst, leads⟩
        · exact .inr ⟨origin, List.mem_append_right _ known, leads⟩

end Houdini
