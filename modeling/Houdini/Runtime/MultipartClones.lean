import Houdini.Runtime.MultipartFiles

/-! What a clone keeps of a value. -/

set_option autoImplicit false

namespace Houdini.Runtime.Multipart

universe u

variable {File : Type u}

mutual

def cloned : Value File → Value File
  | .file file => .file file
  | .list items => .list (clonedItems items)
  | .object _ fields => .object true (clonedFields fields)
  | .builtin _ => .object true []
  | .primitive json => .primitive json

def clonedItems : List (Value File) → List (Value File)
  | [] => []
  | item :: rest => cloned item :: clonedItems rest

def clonedFields : List (Text × Value File) → List (Text × Value File)
  | [] => []
  | (key, value) :: rest =>
      if key = protoKey then clonedFields rest else (key, cloned value) :: clonedFields rest

end

mutual

/-- A clone loses nothing: no object has a text for its JSON, and no field of the name `__proto__`
has any JSON. -/
def Cloneable : Value File → Prop
  | .list items => CloneableItems items
  | .object _ fields => CloneableFields fields
  | .builtin json => json = none
  | .file _ | .primitive _ => True

def CloneableItems : List (Value File) → Prop
  | [] => True
  | item :: rest => Cloneable item ∧ CloneableItems rest

def CloneableFields : List (Text × Value File) → Prop
  | [] => True
  | (key, value) :: rest =>
      (if key = protoKey then described value = none else Cloneable value) ∧
        CloneableFields rest

end

mutual

theorem filesOf_cloned_sublist (value : Value File) :
    (filesOf (cloned value)).Sublist (filesOf value) := by
  match value with
  | .file file => exact List.Sublist.refl _
  | .primitive json => exact List.Sublist.refl _
  | .builtin json => exact List.Sublist.refl _
  | .list items => exact filesOfItems_cloned_sublist 0 items
  | .object isPlain fields => exact filesOfFields_cloned_sublist fields

theorem filesOfItems_cloned_sublist (index : Nat) (items : List (Value File)) :
    (filesOfItems index (clonedItems items)).Sublist (filesOfItems index items) := by
  match items with
  | [] => exact List.Sublist.refl _
  | item :: rest =>
      exact ((filesOf_cloned_sublist item).map _).append
        (filesOfItems_cloned_sublist (index + 1) rest)

theorem filesOfFields_cloned_sublist (fields : List (Text × Value File)) :
    (filesOfFields (clonedFields fields)).Sublist (filesOfFields fields) := by
  match fields with
  | [] => exact List.Sublist.refl _
  | (key, value) :: rest =>
      rw [clonedFields]
      split
      · exact (filesOfFields_cloned_sublist rest).trans (List.sublist_append_right _ _)
      · exact ((filesOf_cloned_sublist value).map _).append (filesOfFields_cloned_sublist rest)

end

theorem keys_clonedFields (fields : List (Text × Value File)) :
    (clonedFields fields).map Prod.fst = (fields.map Prod.fst).filter (· ≠ protoKey) := by
  induction fields with
  | nil => rfl
  | cons field rest ih =>
      obtain ⟨key, value⟩ := field
      by_cases proto : key = protoKey
      · simp [clonedFields, proto, ih]
      · simp [clonedFields, proto, ih]

mutual

theorem distinct_cloned (value : Value File) (distinct : Distinct value) :
    Distinct (cloned value) := by
  match value with
  | .file file => trivial
  | .primitive json => trivial
  | .builtin json => exact ⟨List.nodup_nil, trivial⟩
  | .list items =>
      rw [Distinct] at distinct
      exact distinctItems_cloned items distinct
  | .object isPlain fields =>
      rw [Distinct] at distinct
      refine ⟨?_, distinctFields_cloned fields distinct.2⟩
      rw [keys_clonedFields]
      exact distinct.1.filter _

theorem distinctItems_cloned (items : List (Value File)) (distinct : DistinctItems items) :
    DistinctItems (clonedItems items) := by
  match items with
  | [] => trivial
  | item :: rest =>
      rw [DistinctItems] at distinct
      exact ⟨distinct_cloned item distinct.1, distinctItems_cloned rest distinct.2⟩

theorem distinctFields_cloned (fields : List (Text × Value File))
    (distinct : DistinctFields fields) : DistinctFields (clonedFields fields) := by
  match fields with
  | [] => trivial
  | (key, value) :: rest =>
      rw [DistinctFields] at distinct
      have later := distinctFields_cloned rest distinct.2
      rw [clonedFields]
      split
      · exact later
      · exact ⟨distinct_cloned value distinct.1, later⟩

end

theorem described_cloned_cases (value : Value File) :
    (described (cloned value) = none ∧ described value = none) ∨
      ∃ json other, described (cloned value) = some json ∧ described value = some other := by
  unfold described
  cases value with
  | primitive json => cases json <;> simp [render, cloned]
  | file _ => simp [render, cloned]
  | builtin _ => simp [render, cloned]
  | list _ => simp [render, cloned]
  | object _ _ => simp [render, cloned]

theorem keys_renderFields_subset (put : List Text → File → Json File)
    (fields : List (Text × Value File)) :
    (renderFields put fields).map Prod.fst ⊆ fields.map Prod.fst := by
  induction fields with
  | nil => exact List.Subset.refl _
  | cons field rest ih =>
      obtain ⟨key, value⟩ := field
      rw [renderFields, List.map_cons]
      split
      · exact List.cons_subset_cons key ih
      · exact List.subset_cons_of_subset key ih

theorem proto_not_mem_clonedFields (put : List Text → File → Json File)
    (fields : List (Text × Value File)) :
    protoKey ∉ (renderFields put (clonedFields fields)).map Prod.fst := by
  intro member
  have kept := keys_renderFields_subset put _ member
  rw [keys_clonedFields, List.mem_filter] at kept
  simp at kept

mutual

theorem described_cloned_iff (value : Value File) :
    described (cloned value) = described value ↔ Cloneable value := by
  match value with
  | .file file => simp [cloned, Cloneable]
  | .primitive json => simp [cloned, Cloneable]
  | .builtin json => cases json <;> simp [described, cloned, Cloneable, render, renderFields]
  | .list items =>
      have all := renderItems_cloned_iff 0 items
      simpa [described, cloned, Cloneable, render] using all
  | .object isPlain fields =>
      have all := renderFields_cloned_iff fields
      simpa [described, cloned, Cloneable, render] using all

theorem renderItems_cloned_iff (index : Nat) (items : List (Value File)) :
    renderItems (fun _ file => .leaf (.file file)) index (clonedItems items) =
      renderItems (fun _ file => .leaf (.file file)) index items ↔ CloneableItems items := by
  match items with
  | [] => simp [clonedItems, CloneableItems]
  | item :: rest =>
      rw [clonedItems, renderItems, renderItems, List.cons.injEq, Prod.mk.injEq,
        renderItems_cloned_iff (index + 1) rest, CloneableItems, ← described_cloned_iff item]
      obtain both | ⟨json, other, first, second⟩ := described_cloned_cases item
      · rw [described, described] at both ⊢
        simp [both.1, both.2]
      · rw [described] at first second ⊢
        rw [described, first, second]
        simp

theorem renderFields_cloned_iff (fields : List (Text × Value File)) :
    renderFields (fun _ file => .leaf (.file file)) (clonedFields fields) =
      renderFields (fun _ file => .leaf (.file file)) fields ↔ CloneableFields fields := by
  match fields with
  | [] => simp [clonedFields, CloneableFields]
  | (key, value) :: rest =>
      have later := renderFields_cloned_iff rest
      have own := described_cloned_iff value
      rw [clonedFields, CloneableFields]
      by_cases proto : key = protoKey
      · rw [if_pos proto, if_pos proto, renderFields.eq_2, ← later]
        cases given : described value with
        | none =>
            rw [described] at given
            simp [given]
        | some json =>
            rw [described] at given
            rw [given]
            dsimp only
            constructor
            · intro same
              have absent := proto_not_mem_clonedFields
                (fun _ file => .leaf (.file file)) rest
              rw [same, proto] at absent
              exact absurd List.mem_cons_self absent
            · exact fun both => absurd both.1 (Option.some_ne_none json)
      · rw [if_neg proto, if_neg proto, renderFields, renderFields, ← own, ← later]
        obtain both | ⟨json, other, first, second⟩ := described_cloned_cases value
        · rw [described, described] at both ⊢
          simp [both.1, both.2]
        · rw [described] at first second ⊢
          rw [described, first, second]
          simp

end

theorem child?_eq_none {label : Text} {children : List (Text × Json File)}
    (absent : label ∉ children.map Prod.fst) : LabelledTree.child? label children = none := by
  induction children with
  | nil => rfl
  | cons child rest ih =>
      rw [List.map_cons, List.mem_cons, not_or] at absent
      rw [LabelledTree.child?, if_neg (Ne.symm absent.1), ih absent.2]

mutual

theorem at?_cloned (put : List Text → File → Json File) {path : List Text} {file : File}
    (value : Value File) (distinct : Distinct value) (member : (path, file) ∈ filesOf value)
    (lost : (path, file) ∉ filesOf (cloned value)) :
    (render put (cloned value)).bind (LabelledTree.at? path) = none := by
  match value with
  | .file other => exact absurd member lost
  | .primitive json => simp [filesOf] at member
  | .builtin json => simp [filesOf] at member
  | .list items =>
      rw [filesOf] at member
      obtain ⟨number, inside, _, same⟩ := label_of_mem_items member
      dsimp only at same
      subst same
      rw [Distinct] at distinct
      exact child?_clonedItems put 0 items distinct member lost
  | .object isPlain fields =>
      rw [filesOf] at member
      obtain ⟨key, _, inside, same⟩ := label_of_mem_fields member
      dsimp only at same
      subst same
      rw [Distinct] at distinct
      exact child?_clonedFields put fields distinct.1 distinct.2 member lost

theorem child?_clonedItems (put : List Text → File → Json File) {label : Text}
    {path : List Text} {file : File} (index : Nat) (items : List (Value File))
    (distinct : DistinctItems items) (member : (label :: path, file) ∈ filesOfItems index items)
    (lost : (label :: path, file) ∉ filesOfItems index (clonedItems items)) :
    (LabelledTree.child? label (renderItems put index (clonedItems items))).bind
      (LabelledTree.at? path) = none := by
  match items with
  | [] => cases member
  | item :: rest =>
      rw [DistinctItems] at distinct
      rw [filesOfItems, List.mem_append, List.mem_map] at member
      rw [clonedItems, filesOfItems, List.mem_append, not_or, List.mem_map] at lost
      rw [clonedItems, renderItems, LabelledTree.child?]
      cases member with
      | inl own =>
          obtain ⟨inside, among, same⟩ := own
          obtain ⟨rfl, rfl⟩ := List.cons.inj (congrArg Prod.fst same)
          have here : (inside.1, inside.2) ∉ filesOf (cloned item) := fun still =>
            lost.1 ⟨inside, still, same⟩
          have nothing := at?_cloned (fun path => put (indexText index :: path)) item distinct.1
            among here
          rw [if_pos rfl]
          cases rendered : render (fun path => put (indexText index :: path)) (cloned item) with
          | none =>
              cases labels : inside.1 with
              | nil =>
                  cases item with
                  | file other => simp [cloned, render] at rendered
                  | primitive json => simp [filesOf] at among
                  | builtin json => simp [filesOf] at among
                  | list items => simp [cloned, render] at rendered
                  | object isPlain fields => simp [cloned, render] at rendered
              | cons first others => rfl
          | some json =>
              rw [rendered] at nothing
              exact nothing
      | inr later =>
          obtain ⟨number, inside, above, same⟩ := label_of_mem_items later
          have label := (List.cons.inj same).1
          have different : indexText index ≠ indexText number := fun equal =>
            absurd (indexText_injective equal) (by omega)
          subst label
          rw [if_neg different]
          exact child?_clonedItems put (index + 1) rest distinct.2 later lost.2

theorem child?_clonedFields (put : List Text → File → Json File) {key : Text}
    {path : List Text} {file : File} (fields : List (Text × Value File))
    (nodup : (fields.map Prod.fst).Nodup) (distinct : DistinctFields fields)
    (member : (key :: path, file) ∈ filesOfFields fields)
    (lost : (key :: path, file) ∉ filesOfFields (clonedFields fields)) :
    (LabelledTree.child? key (renderFields put (clonedFields fields))).bind
      (LabelledTree.at? path) = none := by
  match fields with
  | [] => cases member
  | (name, value) :: rest =>
      rw [DistinctFields] at distinct
      rw [List.map_cons, List.nodup_cons] at nodup
      rw [filesOfFields, List.mem_append, List.mem_map] at member
      cases member with
      | inl own =>
          obtain ⟨inside, among, same⟩ := own
          obtain ⟨rfl, rfl⟩ := List.cons.inj (congrArg Prod.fst same)
          rw [clonedFields] at lost ⊢
          have absent : name ∉ (renderFields put (clonedFields rest)).map Prod.fst := by
            intro member
            have kept := keys_renderFields_subset put _ member
            rw [keys_clonedFields, List.mem_filter] at kept
            exact nodup.1 kept.1
          split at lost
          · next proto =>
              rw [if_pos proto, child?_eq_none absent, Option.bind_none]
          · next proper =>
              rw [filesOfFields, List.mem_append, not_or, List.mem_map] at lost
              have here : (inside.1, inside.2) ∉ filesOf (cloned value) := fun still =>
                lost.1 ⟨inside, still, same⟩
              have nothing := at?_cloned (fun path => put (name :: path)) value distinct.1
                among here
              rw [if_neg proper, renderFields]
              cases rendered : render (fun path => put (name :: path)) (cloned value) with
              | none => rw [child?_eq_none absent, Option.bind_none]
              | some json =>
                  rw [rendered] at nothing
                  dsimp only
                  rwa [LabelledTree.child?, if_pos rfl]
      | inr later =>
          obtain ⟨other, listed, inside, same⟩ := label_of_mem_fields later
          have label := (List.cons.inj same).1
          have different : name ≠ key := fun equal => nodup.1 (equal ▸ label ▸ listed)
          rw [clonedFields] at lost ⊢
          split at lost
          · next proto =>
              rw [if_pos proto]
              exact child?_clonedFields put rest nodup.2 distinct.2 later lost
          · next proper =>
              rw [filesOfFields, List.mem_append, not_or] at lost
              have nothing := child?_clonedFields put rest nodup.2 distinct.2 later lost.2
              rw [if_neg proper, renderFields]
              cases render (fun path => put (name :: path)) (cloned value) with
              | none => exact nothing
              | some json =>
                  dsimp only
                  rwa [LabelledTree.child?, if_neg different]

end

end Houdini.Runtime.Multipart
