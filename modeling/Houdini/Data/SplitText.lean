import Mathlib.Data.List.Basic

/-! Texts that are split at each occurrence of a character. -/

set_option autoImplicit false

namespace Houdini

variable {Letter : Type*} [BEq Letter] {separator : Letter}
  {text part : List Letter}

theorem not_mem_of_mem_splitOn [LawfulBEq Letter] (member : part ∈ text.splitOn separator) :
    separator ∉ part := by
  induction text generalizing part with
  | nil =>
      rw [List.splitOn_nil, List.mem_singleton] at member
      rw [member]
      exact List.not_mem_nil
  | cons char rest ih =>
      rw [List.splitOn_cons_eq_if_modifyHead] at member
      split at member
      · rcases List.mem_cons.mp member with rfl | later
        · exact List.not_mem_nil
        · exact ih later
      · next other =>
          cases parts : rest.splitOn separator with
          | nil => exact absurd parts (List.splitOn_ne_nil _ _)
          | cons first others =>
              rw [parts, List.modifyHead_cons] at member
              rcases List.mem_cons.mp member with rfl | later
              · rw [List.mem_cons, not_or]
                exact ⟨fun same => other (beq_iff_eq.mpr same.symm),
                  ih (parts ▸ List.mem_cons_self)⟩
              · exact ih (parts ▸ List.mem_cons_of_mem _ later)

end Houdini
