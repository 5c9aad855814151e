import Mathlib.Data.List.Basic

/-! Trees whose nodes have a name for each of their children, and replacing what stands at a path. -/

set_option autoImplicit false

namespace Houdini

universe u v w

inductive LabelledTree (Label : Type u) (Kind : Type v) (Leaf : Type w) where
  | leaf (value : Leaf)
  | node (kind : Kind) (children : List (Label × LabelledTree Label Kind Leaf))

namespace LabelledTree

variable {Label : Type u} {Kind : Type v} {Leaf : Type w} [DecidableEq Label]

def child? (label : Label) :
    List (Label × LabelledTree Label Kind Leaf) → Option (LabelledTree Label Kind Leaf)
  | [] => none
  | (name, child) :: rest => if name = label then some child else child? label rest

def at? : List Label → LabelledTree Label Kind Leaf → Option (LabelledTree Label Kind Leaf)
  | [], tree => some tree
  | label :: path, node _ children => (child? label children).bind (at? path)
  | _ :: _, leaf _ => none

def changeChild (label : Label)
    (change : LabelledTree Label Kind Leaf → Option (LabelledTree Label Kind Leaf)) :
    List (Label × LabelledTree Label Kind Leaf) →
      Option (List (Label × LabelledTree Label Kind Leaf))
  | [] => none
  | (name, child) :: rest =>
      if name = label then (change child).map fun changed => (name, changed) :: rest
      else (changeChild label change rest).map ((name, child) :: ·)

/-- The tree with a leaf in place of what stands at a path, if anything does. -/
def replace? (value : Leaf) :
    List Label → LabelledTree Label Kind Leaf → Option (LabelledTree Label Kind Leaf)
  | [], _ => some (leaf value)
  | label :: path, node kind children =>
      (changeChild label (replace? value path) children).map (node kind)
  | _ :: _, leaf _ => none

variable {change : LabelledTree Label Kind Leaf → Option (LabelledTree Label Kind Leaf)}
  {children changed : List (Label × LabelledTree Label Kind Leaf)} {label : Label}

theorem child?_of_changeChild (replaced : changeChild label change children = some changed) :
    ∃ old new, child? label children = some old ∧ change old = some new ∧
      child? label changed = some new ∧
      ∀ other, other ≠ label → child? other changed = child? other children := by
  induction children generalizing changed with
  | nil => cases replaced
  | cons entry rest ih =>
      obtain ⟨name, child⟩ := entry
      rw [changeChild] at replaced
      split at replaced
      · next same =>
          obtain ⟨new, became, rfl⟩ := Option.map_eq_some_iff.mp replaced
          refine ⟨child, new, by rw [child?, if_pos same], became, by rw [child?, if_pos same],
            fun other different => ?_⟩
          have apart : name ≠ other := fun equal => different (equal.symm.trans same)
          rw [child?, child?, if_neg apart, if_neg apart]
      · next apart =>
          obtain ⟨later, became, rfl⟩ := Option.map_eq_some_iff.mp replaced
          obtain ⟨old, new, found, replacement, placed, others⟩ := ih became
          refine ⟨old, new, by rw [child?, if_neg apart, found], replacement,
            by rw [child?, if_neg apart, placed], fun other different => ?_⟩
          rw [child?, child?, others other different]

variable {value : Leaf} {tree result : LabelledTree Label Kind Leaf} {path other : List Label}

theorem at?_eq_none_of_replace? (replaced : replace? value path tree = some result)
    (missing : at? other tree = none) : at? other result = none := by
  induction path generalizing tree result other with
  | nil =>
      cases Option.some.inj replaced
      cases other with
      | nil => cases missing
      | cons _ _ => rfl
  | cons label path ih =>
      cases tree with
      | leaf _ => cases replaced
      | node kind children =>
          obtain ⟨changed, became, rfl⟩ := Option.map_eq_some_iff.mp replaced
          obtain ⟨old, new, found, replacement, placed, others⟩ := child?_of_changeChild became
          cases other with
          | nil => cases missing
          | cons name other =>
              rw [at?] at missing ⊢
              by_cases same : name = label
              · subst same
                rw [found] at missing
                rw [placed]
                exact ih replacement missing
              · rwa [others name same]

theorem at?_ne_leaf_of_replace? {leafValue : Leaf}
    (replaced : replace? value path tree = some result) (different : other ≠ path)
    (absent : at? other tree ≠ some (leaf leafValue)) :
    at? other result ≠ some (leaf leafValue) := by
  induction path generalizing tree result other with
  | nil =>
      cases Option.some.inj replaced
      cases other with
      | nil => exact absurd rfl different
      | cons _ _ => exact Option.some_ne_none _ ∘ Eq.symm
  | cons label path ih =>
      cases tree with
      | leaf _ => cases replaced
      | node kind children =>
          obtain ⟨changed, became, rfl⟩ := Option.map_eq_some_iff.mp replaced
          obtain ⟨old, new, found, replacement, placed, others⟩ := child?_of_changeChild became
          cases other with
          | nil =>
              intro leafy
              cases Option.some.inj leafy
          | cons name other =>
              rw [at?] at absent ⊢
              by_cases same : name = label
              · subst same
                rw [found] at absent
                rw [placed]
                exact ih replacement (fun equal => different (congrArg (name :: ·) equal)) absent
              · rwa [others name same]

end LabelledTree

end Houdini
