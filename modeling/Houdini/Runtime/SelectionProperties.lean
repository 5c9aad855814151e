import Houdini.Runtime.Selection

/-! Every selection is deeper than the selections of the fields that it has for a type. -/

set_option autoImplicit false

namespace Houdini.Runtime

theorem depth_le_fieldsDepth {fields : FieldSelections} {entry : String × SelectionField}
    (member : entry ∈ fields) : entry.2.depth ≤ fieldsDepth fields := by
  induction fields with
  | nil => cases member
  | cons first rest ih =>
      obtain ⟨name, field⟩ := first
      unfold fieldsDepth
      obtain same | later := List.mem_cons.mp member
      · rw [same]
        exact Nat.le_max_left _ _
      · exact Nat.le_trans (ih later) (Nat.le_max_right _ _)

theorem mem_of_lookup {fields : FieldSelections} {name : String} {field : SelectionField}
    (found : fields.lookup name = some field) : (name, field) ∈ fields := by
  obtain ⟨before, after, split, _⟩ := List.lookup_eq_some_iff.mp found
  rw [split]
  exact List.mem_append_right _ List.mem_cons_self

theorem fieldsDepth_le_typesDepth {types : List (String × FieldSelections)} {type : String}
    {fields : FieldSelections} (found : types.lookup type = some fields) :
    fieldsDepth fields ≤ typesDepth types := by
  induction types with
  | nil => cases found
  | cons first rest ih =>
      obtain ⟨name, current⟩ := first
      unfold typesDepth
      rw [List.lookup_cons] at found
      split at found
      · cases found
        exact Nat.le_max_left _ _
      · exact Nat.le_trans (ih found) (Nat.le_max_right _ _)

theorem SubscriptionSelection.depth_eq (selection : SubscriptionSelection) :
    selection.depth = max (fieldsDepth selection.fields)
      ((selection.abstractFields.map AbstractFields.depth).getD 0) + 1 := by
  obtain ⟨fragments, fields, abstractFields⟩ := selection
  cases abstractFields with
  | none => simp [SubscriptionSelection.depth]
  | some abstractFields => simp [SubscriptionSelection.depth]

theorem fieldsDepth_lt {selection : SubscriptionSelection} {typename : Option String}
    {fields : FieldSelections} (found : getFieldsForType selection typename = some fields) :
    fieldsDepth fields < selection.depth := by
  rw [selection.depth_eq]
  refine Nat.lt_succ_of_le ?_
  have base : fieldsDepth selection.fields ≤ max (fieldsDepth selection.fields)
      ((selection.abstractFields.map AbstractFields.depth).getD 0) := Nat.le_max_left _ _
  unfold getFieldsForType at found
  cases abstractFields : selection.abstractFields with
  | none =>
      simp only [abstractFields, Option.some.injEq] at found
      rw [← found, ← abstractFields]
      exact base
  | some table =>
      rw [← abstractFields]
      have typed {type : String} (present : table.fields.lookup type = some fields) :
          fieldsDepth fields ≤ max (fieldsDepth selection.fields)
            ((selection.abstractFields.map AbstractFields.depth).getD 0) := by
        have depth : table.depth = typesDepth table.fields := by
          obtain ⟨fields, typeMap⟩ := table
          rfl
        rw [abstractFields, Option.map_some, Option.getD_some, depth]
        exact Nat.le_trans (fieldsDepth_le_typesDepth present) (Nat.le_max_right _ _)
      have either {type : String} (present : ((table.fields.lookup type).orElse fun _ =>
          some selection.fields) = some fields) :
          fieldsDepth fields ≤ max (fieldsDepth selection.fields)
            ((selection.abstractFields.map AbstractFields.depth).getD 0) := by
        cases known : table.fields.lookup type with
        | none =>
            simp only [known, Option.orElse_none, Option.some.injEq] at present
            rw [← present]
            exact base
        | some other =>
            simp only [known, Option.orElse_some, Option.some.injEq] at present
            rw [present] at known
            exact typed known
      cases typename with
      | none =>
          simp only [abstractFields, Option.some.injEq] at found
          rw [← found]
          exact base
      | some typename =>
          simp only [abstractFields] at found
          split at found
          · cases found
            exact base
          · split at found
            · split at found
              · exact either found
              · exact typed found
            · exact either found

theorem depth_lt_of_getFieldsForType {selection inner : SubscriptionSelection}
    {typename : Option String} {fields : FieldSelections} {entry : String × SelectionField}
    (found : getFieldsForType selection typename = some fields) (member : entry ∈ fields)
    (nested : entry.2.selection = some inner) : inner.depth < selection.depth := by
  have same : entry.2.depth = inner.depth := by
    obtain ⟨name, field⟩ := entry
    obtain ⟨⟩ := field
    cases nested
    simp [SelectionField.depth]
  rw [← same]
  exact Nat.lt_of_le_of_lt (depth_le_fieldsDepth member) (fieldsDepth_lt found)

end Houdini.Runtime
