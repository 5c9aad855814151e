import Houdini.Data.ListPatch

/-! Stacks that hold two views for every level. The order of the two makes no difference as long as
one of them adds nothing, or they are equal, down to the level that decides what is read. -/

set_option autoImplicit false

universe u v

namespace PatchView

variable {Scalar : Type v} {Entry : Type u}

/-- The view only removes what the other view of its level removes as well. -/
structure Idle (hidden : ListPatch Entry) (view : PatchView Scalar Entry) : Prop where
  stored : view.stored = .nothing
  deletes : view.deletes = false
  patch : view.patch.Same hidden

/-- The patch removes all that the other one removes, which does nothing else. -/
structure Hides (hidden patch : ListPatch Entry) : Prop where
  insertStart : hidden.insertStart = []
  insertEnd : hidden.insertEnd = []
  removed : ∀ entry ∈ hidden.removed, entry ∈ patch.removed

def Undivided (hidden : ListPatch Entry) (left right : PatchView Scalar Entry) : Prop :=
  left.Idle hidden ∨ right.Idle hidden ∨ left = right

def Decides (view : PatchView Scalar Entry) : Prop :=
  view.stored ≠ .nothing ∨ view.deletes = true

theorem Idle.not_decides {hidden : ListPatch Entry} {view : PatchView Scalar Entry}
    (idle : view.Idle hidden) : ¬ view.Decides := by
  rintro (stored | deletes)
  · exact stored idle.stored
  · exact Bool.false_ne_true (idle.deletes.symm.trans deletes)

variable [DecidableEq Entry] {hidden pending : ListPatch Entry}
  {view left right : PatchView Scalar Entry} {rest others : List (PatchView Scalar Entry)}

theorem Idle.read_cons (idle : view.Idle hidden) :
    read pending (view :: rest) = read (pending.comp hidden) rest := by
  rw [read_nothing idle.stored idle.deletes]
  exact read_same {
    insertStart := by simp [idle.patch.insertStart]
    insertEnd := by simp [idle.patch.insertEnd]
    removed := fun entry => by simp [idle.patch.removed entry] } rest

theorem Hides.read_comp (hides : Hides hidden view.patch) :
    read (pending.comp hidden) (view :: rest) = read pending (view :: rest) :=
  read_cons_same {
    insertStart := by simp [hides.insertStart]
    insertEnd := by simp [hides.insertEnd]
    removed := fun entry => by
      have known := hides.removed entry
      simp only [ListPatch.comp_removed, List.mem_append]
      tauto } rest

theorem Hides.read_comp_below (hides : Hides hidden view.patch) :
    read ((pending.comp view.patch).comp hidden) rest = read (pending.comp view.patch) rest :=
  read_same {
    insertStart := by simp [hides.insertStart]
    insertEnd := by simp [hides.insertEnd]
    removed := fun entry => by
      have known := hides.removed entry
      simp only [ListPatch.comp_removed, List.mem_append]
      tauto } rest

theorem Decides.read_cons (decides : view.Decides) :
    read pending (view :: rest) = read pending (view :: others) := by
  simp only [read]
  cases stored : view.stored with
  | scalar value => rfl
  | list entries => rfl
  | nothing =>
      have deletes := decides.resolve_left fun something => something stored
      rw [if_pos deletes, if_pos deletes]

theorem read_cons_congr (same : ∀ pending : ListPatch Entry, read pending rest = read pending others) :
    read pending (view :: rest) = read pending (view :: others) := by
  simp only [read, same]

theorem Idle.read_below (idle : left.Idle hidden) (hides : Hides hidden right.patch) :
    read pending (right :: left :: rest) = read pending (right :: rest) := by
  simp only [read.eq_2 pending right]
  cases right.stored with
  | scalar value => rfl
  | list entries => rfl
  | nothing =>
      dsimp only
      rw [idle.read_cons, hides.read_comp_below]

theorem Idle.read_above (idle : left.Idle hidden) (hides : Hides hidden right.patch) :
    read pending (left :: right :: rest) = read pending (right :: rest) := by
  rw [idle.read_cons, hides.read_comp]

theorem Undivided.read_swap (undivided : Undivided hidden left right)
    (hidesLeft : Hides hidden left.patch) (hidesRight : Hides hidden right.patch) :
    read pending (left :: right :: rest) = read pending (right :: left :: rest) := by
  rcases undivided with idle | idle | rfl
  · rw [idle.read_above hidesRight, idle.read_below hidesRight]
  · rw [idle.read_above hidesLeft, idle.read_below hidesLeft]
  · rfl

theorem Undivided.read_decided (undivided : Undivided hidden left right)
    (hidesLeft : Hides hidden left.patch) (hidesRight : Hides hidden right.patch)
    (decides : left.Decides ∨ right.Decides) :
    read pending (left :: right :: rest) = read pending (right :: left :: others) := by
  rcases undivided with idle | idle | rfl
  · rw [idle.read_above hidesRight, idle.read_below hidesRight]
    exact (decides.resolve_left idle.not_decides).read_cons
  · rw [idle.read_above hidesLeft, idle.read_below hidesLeft]
    exact (decides.resolve_right idle.not_decides).read_cons
  · exact (decides.elim id id).read_cons

structure Level (Scalar : Type v) (Entry : Type u) where
  hidden : ListPatch Entry
  left : PatchView Scalar Entry
  right : PatchView Scalar Entry

def UndividedAbove : List (Level Scalar Entry) → Prop
  | [] => True
  | level :: rest =>
      Undivided level.hidden level.left level.right ∧
        (level.left.Decides ∨ level.right.Decides ∨ UndividedAbove rest)

theorem read_swapped {levels : List (Level Scalar Entry)} (undivided : UndividedAbove levels)
    (hides : ∀ level ∈ levels,
      Hides level.hidden level.left.patch ∧ Hides level.hidden level.right.patch)
    (pending : ListPatch Entry) :
    read pending (levels.flatMap fun level => [level.left, level.right]) =
      read pending (levels.flatMap fun level => [level.right, level.left]) := by
  induction levels generalizing pending with
  | nil => rfl
  | cons level rest ih =>
      obtain ⟨hidesLeft, hidesRight⟩ := hides level List.mem_cons_self
      obtain ⟨first, left | right | later⟩ := undivided
      · exact first.read_decided hidesLeft hidesRight (.inl left)
      · exact first.read_decided hidesLeft hidesRight (.inr right)
      · have below := ih later fun other member => hides other (List.mem_cons_of_mem _ member)
        refine (first.read_swap hidesLeft hidesRight).trans ?_
        exact read_cons_congr fun pending => read_cons_congr below

end PatchView
