import Houdini.Runtime.Value

/-! Values are compared by what they are made of, whatever order the keys of objects come in. -/

set_option autoImplicit false

namespace Houdini.Runtime

namespace GraphQLValue

mutual

/-- `deepEquals`, for values that are read from text. -/
def deepEquals : GraphQLValue → GraphQLValue → Bool
  | .array left, right =>
      match right with
      | .array right => decide (left.length = right.length) && deepEqualsItems left right
      | _ => false
  | .object left, right =>
      decide (GraphQLValue.object left = right) ||
      match right with
      | .object right => decide (left.length = right.length) && deepEqualsFields left right
      | _ => false
  | left, right => decide (left = right)

def deepEqualsItems : List GraphQLValue → List GraphQLValue → Bool
  | [], _ => true
  | _ :: _, [] => false
  | left :: lefts, right :: rights => deepEquals left right && deepEqualsItems lefts rights

def deepEqualsFields : List (String × GraphQLValue) → List (String × GraphQLValue) → Bool
  | [], _ => true
  | (name, left) :: rest, others =>
      (match others.lookup name with
      | some right => deepEquals left right
      | none => false) && deepEqualsFields rest others

end

mutual

theorem deepEquals_refl : ∀ value : GraphQLValue, deepEquals value value = true
  | .array items => by
      simp [deepEquals, deepEqualsItems_refl items]
  | .undefined | .null | .boolean _ | .number _ | .string _ | .object _ | .component .. => by
      simp [deepEquals]

theorem deepEqualsItems_refl : ∀ items : List GraphQLValue, deepEqualsItems items items = true
  | [] => rfl
  | item :: rest => by
      simp [deepEqualsItems, deepEquals_refl item, deepEqualsItems_refl rest]

end

theorem deepEqualsFields_lookup {left right : List (String × GraphQLValue)}
    (equal : deepEqualsFields left right = true) {name : String} {value : GraphQLValue}
    (member : (name, value) ∈ left) :
    ∃ other, right.lookup name = some other ∧ deepEquals value other = true := by
  induction left with
  | nil => exact absurd member List.not_mem_nil
  | cons entry rest ih =>
      obtain ⟨key, first⟩ := entry
      rw [deepEqualsFields, Bool.and_eq_true] at equal
      rcases List.mem_cons.mp member with same | later
      · obtain ⟨rfl, rfl⟩ := Prod.mk.inj same
        have head := equal.1
        split at head
        · next other found => exact ⟨other, found, head⟩
        · cases head
      · exact ih equal.2 later

theorem mem_of_lookup {fields : List (String × GraphQLValue)} {name : String}
    {value : GraphQLValue} (found : fields.lookup name = some value) : (name, value) ∈ fields := by
  obtain ⟨before, after, split, _⟩ := List.lookup_eq_some_iff.mp found
  rw [split]
  exact List.mem_append_right _ List.mem_cons_self

mutual

theorem deepEquals_trans : ∀ left middle right : GraphQLValue,
    deepEquals left middle = true → deepEquals middle right = true → deepEquals left right = true
  | .array left, middle, right => by
      intro first second
      cases middle with
      | array middle =>
          cases right with
          | array right =>
              simp only [deepEquals, Bool.and_eq_true, decide_eq_true_eq] at first second ⊢
              exact ⟨first.1.trans second.1,
                deepEqualsItems_trans left middle right first.2 second.2⟩
          | _ => simp [deepEquals] at second
      | _ => simp [deepEquals] at first
  | .object left, middle, right => by
      intro first second
      simp only [deepEquals, Bool.or_eq_true, decide_eq_true_eq] at first
      rcases first with rfl | first
      · exact second
      cases middle with
      | object middle =>
          simp only [deepEquals, Bool.or_eq_true, decide_eq_true_eq] at second
          rcases second with rfl | second
          · simp only [deepEquals, Bool.or_eq_true]
            exact .inr first
          cases right with
          | object right =>
              simp only [deepEquals, Bool.or_eq_true, Bool.and_eq_true, decide_eq_true_eq]
                at first second ⊢
              exact .inr ⟨first.1.trans second.1,
                deepEqualsFields_trans left middle right first.2 second.2⟩
          | _ => simp at second
      | _ => simp at first
  | .undefined, middle, right | .null, middle, right | .boolean _, middle, right
  | .number _, middle, right | .string _, middle, right | .component .., middle, right => by
      intro first second
      simp only [deepEquals, decide_eq_true_eq] at first
      subst first
      exact second

theorem deepEqualsItems_trans : ∀ left middle right : List GraphQLValue,
    deepEqualsItems left middle = true → deepEqualsItems middle right = true →
      deepEqualsItems left right = true
  | [], _, _ => fun _ _ => rfl
  | first :: lefts, middle, right => by
      intro before after
      cases middle with
      | nil => simp [deepEqualsItems] at before
      | cons second middles =>
          cases right with
          | nil => simp [deepEqualsItems] at after
          | cons third rights =>
              simp only [deepEqualsItems, Bool.and_eq_true] at before after ⊢
              exact ⟨deepEquals_trans first second third before.1 after.1,
                deepEqualsItems_trans lefts middles rights before.2 after.2⟩

theorem deepEqualsFields_trans : ∀ left middle right : List (String × GraphQLValue),
    deepEqualsFields left middle = true → deepEqualsFields middle right = true →
      deepEqualsFields left right = true
  | [], _, _ => fun _ _ => rfl
  | (name, value) :: rest, middle, right => by
      intro before after
      rw [deepEqualsFields, Bool.and_eq_true] at before ⊢
      obtain ⟨head, tail⟩ := before
      refine ⟨?_, deepEqualsFields_trans rest middle right tail after⟩
      split at head
      · next other found =>
          obtain ⟨last, isLast, equal⟩ := deepEqualsFields_lookup after (mem_of_lookup found)
          rw [isLast]
          exact deepEquals_trans value other last head equal
      · cases head

end

end GraphQLValue

end Houdini.Runtime
