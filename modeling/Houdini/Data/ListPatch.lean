import Mathlib.Data.List.Basic

/-! Stacks of views over one cell. A view may store a scalar or a list, may
patch the lists stored below it, and may delete what is below it. Reading a
stack from the top composes patches until a stored value is found. Removals win
over insertions, wherever in the stack either stands. -/

set_option autoImplicit false

universe u v

structure ListPatch (Entry : Type u) where
  insertStart : List Entry := []
  insertEnd : List Entry := []
  removed : List Entry := []

namespace ListPatch

variable {Entry : Type u}

def comp (upper lower : ListPatch Entry) : ListPatch Entry where
  insertStart := upper.insertStart ++ lower.insertStart
  insertEnd := lower.insertEnd ++ upper.insertEnd
  removed := upper.removed ++ lower.removed

@[simp] theorem comp_insertStart (upper lower : ListPatch Entry) :
    (upper.comp lower).insertStart = upper.insertStart ++ lower.insertStart := rfl

@[simp] theorem comp_insertEnd (upper lower : ListPatch Entry) :
    (upper.comp lower).insertEnd = lower.insertEnd ++ upper.insertEnd := rfl

@[simp] theorem comp_removed (upper lower : ListPatch Entry) :
    (upper.comp lower).removed = upper.removed ++ lower.removed := rfl

theorem comp_assoc (first second third : ListPatch Entry) :
    (first.comp second).comp third = first.comp (second.comp third) := by
  simp [comp, List.append_assoc]

theorem empty_comp (patch : ListPatch Entry) : comp {} patch = patch := by
  simp [comp]

variable [DecidableEq Entry]

def keeps (patch : ListPatch Entry) (entry : Entry) : Bool :=
  !patch.removed.contains entry

theorem keeps_iff {patch : ListPatch Entry} {entry : Entry} :
    patch.keeps entry = true ↔ entry ∉ patch.removed := by
  simp [keeps]

theorem keeps_comp (upper lower : ListPatch Entry) (entry : Entry) :
    (upper.comp lower).keeps entry = (upper.keeps entry && lower.keeps entry) := by
  simp [keeps, Bool.not_or]

def apply (patch : ListPatch Entry) (entries : List Entry) : List Entry :=
  (patch.insertStart ++ entries ++ patch.insertEnd).filter patch.keeps

theorem mem_apply {patch : ListPatch Entry} {entries : List Entry} {entry : Entry} :
    entry ∈ patch.apply entries ↔
      (entry ∈ patch.insertStart ∨ entry ∈ entries ∨ entry ∈ patch.insertEnd) ∧
        entry ∉ patch.removed := by
  rw [apply, List.mem_filter, keeps_iff]
  simp

def Avoids (patch : ListPatch Entry) (hidden : List Entry) : Prop :=
  ∀ entry ∈ hidden, entry ∉ patch.insertStart ∧ entry ∉ patch.insertEnd

/-- The second patch shows what the first one shows, although it may have
dropped insertions and removals of entries that the first one removes. An entry
that it no longer removes is `cancelled`: the second patch does not insert it. -/
structure Covers (cancelled : List Entry) (patch reduced : ListPatch Entry) : Prop where
  insertStart : patch.insertStart.filter patch.keeps = reduced.insertStart.filter patch.keeps
  insertEnd : patch.insertEnd.filter patch.keeps = reduced.insertEnd.filter patch.keeps
  sound : ∀ entry ∈ reduced.removed, entry ∈ patch.removed
  complete : ∀ entry ∈ patch.removed, entry ∈ reduced.removed ∨ entry ∈ cancelled
  avoids : reduced.Avoids cancelled

theorem Covers.refl (patch : ListPatch Entry) : Covers [] patch patch where
  insertStart := rfl
  insertEnd := rfl
  sound := fun _ member => member
  complete := fun _ member => .inl member
  avoids := fun _ member => nomatch member

private theorem filter_keeps_comp {entries other : List Entry} {upper : ListPatch Entry}
    (same : entries.filter upper.keeps = other.filter upper.keeps) (lower : ListPatch Entry) :
    entries.filter (upper.comp lower).keeps = other.filter (upper.comp lower).keeps := by
  have split (list : List Entry) :
      list.filter (upper.comp lower).keeps = (list.filter upper.keeps).filter lower.keeps := by
    rw [List.filter_filter]
    refine List.filter_congr fun entry _ => ?_
    rw [keeps_comp, Bool.and_comm]
  rw [split, split, same]

theorem Covers.comp {cancelled : List Entry} {patch reduced : ListPatch Entry}
    (covers : Covers cancelled patch reduced) {lower : ListPatch Entry}
    (avoids : lower.Avoids cancelled) :
    Covers cancelled (patch.comp lower) (reduced.comp lower) where
  insertStart := by
    rw [comp_insertStart, comp_insertStart, List.filter_append, List.filter_append,
      filter_keeps_comp covers.insertStart lower]
  insertEnd := by
    rw [comp_insertEnd, comp_insertEnd, List.filter_append, List.filter_append,
      filter_keeps_comp covers.insertEnd lower]
  sound := by
    intro entry member
    rcases List.mem_append.mp member with upper | below
    · exact List.mem_append_left _ (covers.sound entry upper)
    · exact List.mem_append_right _ below
  complete := by
    intro entry member
    rcases List.mem_append.mp member with upper | below
    · exact (covers.complete entry upper).imp (List.mem_append_left _) id
    · exact .inl (List.mem_append_right _ below)
  avoids := by
    intro entry member
    have fromReduced := covers.avoids entry member
    have fromLower := avoids entry member
    simp [fromReduced.1, fromReduced.2, fromLower.1, fromLower.2]

theorem Covers.comp_left {cancelled : List Entry} {patch reduced : ListPatch Entry}
    (covers : Covers cancelled patch reduced) (upper : ListPatch Entry)
    (avoids : upper.Avoids cancelled) :
    Covers cancelled (upper.comp patch) (upper.comp reduced) where
  insertStart := by
    have split : (upper.comp patch).keeps = fun entry => upper.keeps entry && patch.keeps entry :=
      funext (keeps_comp upper patch)
    simp only [comp_insertStart, List.filter_append, split, ← List.filter_filter,
      covers.insertStart]
  insertEnd := by
    have split : (upper.comp patch).keeps = fun entry => upper.keeps entry && patch.keeps entry :=
      funext (keeps_comp upper patch)
    simp only [comp_insertEnd, List.filter_append, split, ← List.filter_filter,
      covers.insertEnd]
  sound := by
    intro entry member
    rcases List.mem_append.mp member with above | reducedMember
    · exact List.mem_append_left _ above
    · exact List.mem_append_right _ (covers.sound entry reducedMember)
  complete := by
    intro entry member
    rcases List.mem_append.mp member with above | patchMember
    · exact .inl (List.mem_append_left _ above)
    · exact (covers.complete entry patchMember).imp (List.mem_append_right _) id
  avoids := by
    intro entry member
    have fromReduced := covers.avoids entry member
    have fromUpper := avoids entry member
    simp [fromReduced.1, fromReduced.2, fromUpper.1, fromUpper.2]

/-- The patches insert the same entries and remove the same set. -/
structure Same (patch other : ListPatch Entry) : Prop where
  insertStart : patch.insertStart = other.insertStart
  insertEnd : patch.insertEnd = other.insertEnd
  removed : ∀ entry, entry ∈ patch.removed ↔ entry ∈ other.removed

theorem Same.keeps_eq {patch other : ListPatch Entry} (same : Same patch other) :
    patch.keeps = other.keeps := by
  funext entry
  rw [Bool.eq_iff_iff, keeps_iff, keeps_iff, same.removed]

theorem Same.apply_eq {patch other : ListPatch Entry} (same : Same patch other)
    (entries : List Entry) : patch.apply entries = other.apply entries := by
  rw [apply, apply, same.insertStart, same.insertEnd, same.keeps_eq]

theorem Covers.of_same {cancelled : List Entry} {patch other reduced : ListPatch Entry}
    (covers : Covers cancelled patch reduced) (same : Same other patch) :
    Covers cancelled other reduced where
  insertStart := by rw [same.insertStart, same.keeps_eq, covers.insertStart]
  insertEnd := by rw [same.insertEnd, same.keeps_eq, covers.insertEnd]
  sound := fun entry member => (same.removed entry).mpr (covers.sound entry member)
  complete := fun entry member => covers.complete entry ((same.removed entry).mp member)
  avoids := covers.avoids

private theorem filter_reduced {cancelled entries : List Entry}
    {patch reduced : ListPatch Entry} (covers : Covers cancelled patch reduced)
    (avoids : ∀ entry ∈ cancelled, entry ∉ entries) :
    entries.filter patch.keeps = entries.filter reduced.keeps := by
  refine List.filter_congr fun entry member => ?_
  rw [Bool.eq_iff_iff, keeps_iff, keeps_iff, not_iff_not]
  constructor
  · intro removed
    rcases covers.complete entry removed with kept | dropped
    · exact kept
    · exact absurd member (avoids entry dropped)
  · exact covers.sound entry

theorem Covers.apply_eq {cancelled : List Entry} {patch reduced : ListPatch Entry}
    (covers : Covers cancelled patch reduced) {entries : List Entry}
    (avoids : ∀ entry ∈ cancelled, entry ∉ entries) :
    patch.apply entries = reduced.apply entries := by
  simp only [apply, List.filter_append]
  rw [covers.insertStart, covers.insertEnd, filter_reduced covers avoids,
    filter_reduced covers fun entry member => (covers.avoids entry member).1,
    filter_reduced covers fun entry member => (covers.avoids entry member).2]

theorem apply_eq_of_removed {patch other : ListPatch Entry} {entries : List Entry}
    (insertStart : other.insertStart = patch.insertStart)
    (insertEnd : other.insertEnd = patch.insertEnd)
    (fewer : ∀ entry ∈ patch.removed, entry ∈ other.removed)
    (extra : ∀ entry ∈ other.removed, entry ∉ patch.apply entries) :
    other.apply entries = patch.apply entries := by
  rw [apply, apply, insertStart, insertEnd]
  refine List.filter_congr fun entry member => ?_
  rw [Bool.eq_iff_iff, keeps_iff, keeps_iff, not_iff_not]
  constructor
  · intro removed
    by_contra shown
    exact extra entry removed (List.mem_filter.mpr ⟨member, keeps_iff.mpr shown⟩)
  · exact fewer entry

/-- The patch removes no entry, and inserts only what it removes. -/
structure Idle (patch : ListPatch Entry) (entries : List Entry) : Prop where
  kept : ∀ entry ∈ entries, entry ∉ patch.removed
  insertStart : ∀ entry ∈ patch.insertStart, entry ∈ patch.removed
  insertEnd : ∀ entry ∈ patch.insertEnd, entry ∈ patch.removed

private theorem filter_keeps_eq_nil {patch : ListPatch Entry} {entries : List Entry} :
    entries.filter patch.keeps = [] ↔ ∀ entry ∈ entries, entry ∈ patch.removed := by
  simp [List.filter_eq_nil_iff, keeps]

theorem Idle.apply_eq {patch : ListPatch Entry} {entries : List Entry}
    (idle : patch.Idle entries) : patch.apply entries = entries := by
  have stays : entries.filter patch.keeps = entries :=
    List.filter_eq_self.mpr fun entry member => keeps_iff.mpr (idle.kept entry member)
  rw [apply, List.filter_append, List.filter_append, filter_keeps_eq_nil.mpr idle.insertStart,
    filter_keeps_eq_nil.mpr idle.insertEnd, stays, List.nil_append, List.append_nil]

theorem idle_of_length {patch : ListPatch Entry} {entries : List Entry}
    (kept : ∀ entry ∈ entries, entry ∉ patch.removed)
    (length : (patch.apply entries).length = entries.length) : patch.Idle entries := by
  have stays : entries.filter patch.keeps = entries :=
    List.filter_eq_self.mpr fun entry member => keeps_iff.mpr (kept entry member)
  rw [apply, List.filter_append, List.filter_append, stays, List.length_append,
    List.length_append] at length
  refine ⟨kept, filter_keeps_eq_nil.mp ?_, filter_keeps_eq_nil.mp ?_⟩
  · exact List.eq_nil_of_length_eq_zero (by omega)
  · exact List.eq_nil_of_length_eq_zero (by omega)

theorem apply_eq_self_iff {patch : ListPatch Entry} {entries : List Entry} :
    patch.apply entries = entries ↔ patch.Idle entries := by
  constructor
  · intro same
    refine idle_of_length (fun entry member removed => ?_) (congrArg List.length same)
    rw [← same] at member
    exact (mem_apply.mp member).2 removed
  · exact Idle.apply_eq

end ListPatch

inductive StoredCell (Scalar : Type v) (Entry : Type u) where
  | nothing
  | scalar (value : Scalar)
  | list (entries : List Entry)

structure PatchView (Scalar : Type v) (Entry : Type u) where
  stored : StoredCell Scalar Entry
  deletes : Bool
  patch : ListPatch Entry

namespace PatchView

variable {Scalar : Type v} {Entry : Type u} [DecidableEq Entry]

/-- What a stack shows. A stored scalar is found before a delete of its own
view, a stored list is not. -/
def read (pending : ListPatch Entry) : List (PatchView Scalar Entry) →
    StoredCell Scalar Entry
  | [] => .nothing
  | view :: rest =>
      match view.stored with
      | .scalar value => .scalar value
      | .list entries =>
          if view.deletes then .nothing
          else .list ((pending.comp view.patch).apply entries)
      | .nothing =>
          if view.deletes then .nothing else read (pending.comp view.patch) rest

attribute [local grind =] read

def Contributes (view : PatchView Scalar Entry) (entry : Entry) : Prop :=
  (∃ entries, view.stored = .list entries ∧ entry ∈ entries) ∨
    entry ∈ view.patch.insertStart ∨ entry ∈ view.patch.insertEnd

/-- Covering patches read the same below, when nothing below contributes a
cancelled entry. -/
theorem read_covers {cancelled : List Entry} {patch reduced : ListPatch Entry}
    {views : List (PatchView Scalar Entry)} (covers : patch.Covers cancelled reduced)
    (absent : ∀ view ∈ views, ∀ entry ∈ cancelled, ¬ view.Contributes entry) :
    read patch views = read reduced views := by
  induction views generalizing patch reduced with
  | nil => rfl
  | cons view rest ih =>
      have silent := absent view List.mem_cons_self
      have avoids : view.patch.Avoids cancelled := fun entry member =>
        ⟨fun inserted => silent entry member (.inr (.inl inserted)),
          fun inserted => silent entry member (.inr (.inr inserted))⟩
      cases stored : view.stored with
      | scalar value => simp [read, stored]
      | list entries =>
          have missing : ∀ entry ∈ cancelled, entry ∉ entries := fun entry member present =>
            silent entry member (.inl ⟨entries, stored, present⟩)
          simp only [read, stored, (covers.comp avoids).apply_eq missing]
      | nothing =>
          simp only [read, stored]
          rw [ih (covers.comp avoids) fun below member =>
            absent below (List.mem_cons_of_mem _ member)]

theorem read_same {patch other : ListPatch Entry} (same : patch.Same other)
    (views : List (PatchView Scalar Entry)) : read patch views = read other views :=
  read_covers ((ListPatch.Covers.refl other).of_same same) fun _ _ _ member => nomatch member

/-- Reading depends on a pending patch only through its composition with the
patch of the first view. -/
theorem read_cons_same {patch other : ListPatch Entry} {view : PatchView Scalar Entry}
    (same : (patch.comp view.patch).Same (other.comp view.patch))
    (rest : List (PatchView Scalar Entry)) :
    read patch (view :: rest) = read other (view :: rest) := by
  simp only [read]
  cases view.stored with
  | scalar value => rfl
  | list entries => simp only [same.apply_eq]
  | nothing => simp only [read_same same rest]

theorem read_deletes {view : PatchView Scalar Entry} {pending : ListPatch Entry}
    {rest : List (PatchView Scalar Entry)} (stored : ∀ value, view.stored ≠ .scalar value)
    (deletes : view.deletes = true) : read pending (view :: rest) = .nothing := by
  cases found : view.stored with
  | scalar value => exact absurd found (stored value)
  | list entries => simp [read, found, deletes]
  | nothing => simp [read, found, deletes]

def Alike (view other : PatchView Scalar Entry) : Prop :=
  view = other ∨ (view.deletes = true ∧ ∀ value, view.stored ≠ .scalar value) ∧
    other.deletes = true ∧ ∀ value, other.stored ≠ .scalar value

theorem read_alike {views others : List (PatchView Scalar Entry)}
    (alike : List.Forall₂ Alike views others) (pending : ListPatch Entry) :
    read pending views = read pending others := by
  induction alike generalizing pending with
  | nil => rfl
  | @cons view other rest others first _ ih =>
      rcases first with rfl | ⟨⟨deletes, stored⟩, deletesOther, storedOther⟩
      · simp only [read, ih]
      · rw [read_deletes stored deletes, read_deletes storedOther deletesOther]

theorem read_scalar {view : PatchView Scalar Entry} {pending : ListPatch Entry}
    {rest : List (PatchView Scalar Entry)} {value : Scalar} (stored : view.stored = .scalar value) :
    read pending (view :: rest) = .scalar value := by
  simp [read, stored]

theorem read_list {view : PatchView Scalar Entry} {pending : ListPatch Entry}
    {rest : List (PatchView Scalar Entry)} {entries : List Entry}
    (stored : view.stored = .list entries) (kept : view.deletes = false) :
    read pending (view :: rest) = .list ((pending.comp view.patch).apply entries) := by
  simp [read, stored, kept]

theorem read_nothing {view : PatchView Scalar Entry} {pending : ListPatch Entry}
    {rest : List (PatchView Scalar Entry)} (stored : view.stored = .nothing)
    (kept : view.deletes = false) :
    read pending (view :: rest) = read (pending.comp view.patch) rest := by
  simp [read, stored, kept]

theorem stored_of_read_scalar {pending : ListPatch Entry}
    {views : List (PatchView Scalar Entry)} {value : Scalar}
    (shown : read pending views = .scalar value) : ∃ view ∈ views, view.stored = .scalar value := by
  induction views generalizing pending with
  | nil => simp [read] at shown
  | cons view rest ih =>
      cases stored : view.stored with
      | scalar other =>
          simp only [read, stored, StoredCell.scalar.injEq] at shown
          exact ⟨view, List.mem_cons_self, by rw [stored, shown]⟩
      | list entries => cases deletes : view.deletes <;> simp [read, stored, deletes] at shown
      | nothing =>
          cases deletes : view.deletes with
          | true => simp [read, stored, deletes] at shown
          | false =>
              rw [read_nothing stored deletes] at shown
              obtain ⟨other, member, found⟩ := ih shown
              exact ⟨other, List.mem_cons_of_mem _ member, found⟩

theorem read_eq_nothing_iff {pending other : ListPatch Entry}
    {views : List (PatchView Scalar Entry)} :
    read pending views = .nothing ↔ read other views = .nothing := by
  induction views generalizing pending other with
  | nil => simp [read]
  | cons view rest ih =>
      cases stored : view.stored with
      | scalar value => simp [read, stored]
      | list entries => cases deletes : view.deletes <;> simp [read, stored, deletes]
      | nothing =>
          cases deletes : view.deletes with
          | true => simp [read, stored, deletes]
          | false =>
              simp only [read, stored, deletes, Bool.false_eq_true, if_false]
              exact ih

/-- The upper part of a stack either decides what is shown or hands a patch to
the rest. The patch inserts only what the upper part inserts. -/
theorem read_append (pending : ListPatch Entry) (upper : List (PatchView Scalar Entry)) :
    (∃ cell, ∀ rest, read pending (upper ++ rest) = cell) ∨
      ∃ reached : ListPatch Entry,
        (∀ rest, read pending (upper ++ rest) = read reached rest) ∧
          ∀ avoided, pending.Avoids avoided → (∀ view ∈ upper, view.patch.Avoids avoided) →
            reached.Avoids avoided := by
  induction upper generalizing pending with
  | nil => exact .inr ⟨pending, fun _ => rfl, fun _ avoids _ => avoids⟩
  | cons view below ih =>
      cases stored : view.stored with
      | scalar value => exact .inl ⟨.scalar value, fun rest => by simp [read, stored]⟩
      | list entries =>
          exact .inl ⟨if view.deletes then .nothing
            else .list ((pending.comp view.patch).apply entries),
            fun rest => by simp [read, stored]⟩
      | nothing =>
          cases deletes : view.deletes with
          | true => exact .inl ⟨.nothing, fun rest => by simp [read, stored, deletes]⟩
          | false =>
              have step (rest : List (PatchView Scalar Entry)) :
                  read pending (view :: below ++ rest) =
                    read (pending.comp view.patch) (below ++ rest) :=
                read_nothing stored deletes
              rcases ih (pending.comp view.patch) with ⟨cell, decided⟩ | ⟨reached, reads, avoids⟩
              · exact .inl ⟨cell, fun rest => (step rest).trans (decided rest)⟩
              · refine .inr ⟨reached, fun rest => (step rest).trans (reads rest), ?_⟩
                intro avoided pendingAvoids upperAvoids
                refine avoids avoided ?_ fun other member =>
                  upperAvoids other (List.mem_cons_of_mem _ member)
                intro entry member
                have fromPending := pendingAvoids entry member
                have fromView := upperAvoids view List.mem_cons_self entry member
                simp [fromPending.1, fromPending.2, fromView.1, fromView.2]

theorem read_insert {upper lower : ListPatch Entry} {views : List (PatchView Scalar Entry)}
    {entries : List Entry} (inserts : upper.removed = [])
    (fresh : ∀ entry ∈ upper.insertStart ++ upper.insertEnd, entry ∉ lower.removed ∧
      ∀ view ∈ views, entry ∉ view.patch.removed)
    (shown : read lower views = .list entries) :
    read (upper.comp lower) views = .list (upper.insertStart ++ entries ++ upper.insertEnd) := by
  induction views generalizing lower with
  | nil => simp [read] at shown
  | cons view rest ih =>
      have kept : ∀ entry ∈ upper.insertStart ++ upper.insertEnd,
          entry ∉ (lower.comp view.patch).removed := by
        intro entry member
        rw [ListPatch.comp_removed, List.mem_append, not_or]
        exact ⟨(fresh entry member).1, (fresh entry member).2 view List.mem_cons_self⟩
      cases stored : view.stored with
      | scalar value => simp [read, stored] at shown
      | list stored' =>
          cases deletes : view.deletes with
          | true => simp [read, stored, deletes] at shown
          | false =>
              rw [read_list stored deletes] at shown ⊢
              rw [← StoredCell.list.inj shown, ListPatch.comp_assoc]
              generalize lower.comp view.patch = patch at kept
              have keeps : (upper.comp patch).keeps = patch.keeps := by
                funext entry
                rw [ListPatch.keeps_comp]
                simp [ListPatch.keeps, inserts]
              have unfiltered (list : List Entry)
                  (part : ∀ entry ∈ list, entry ∈ upper.insertStart ++ upper.insertEnd) :
                  list.filter patch.keeps = list :=
                List.filter_eq_self.mpr fun entry member =>
                  ListPatch.keeps_iff.mpr (kept entry (part entry member))
              rw [ListPatch.apply, ListPatch.apply, keeps, ListPatch.comp_insertStart,
                ListPatch.comp_insertEnd]
              simp only [List.filter_append]
              rw [unfiltered upper.insertStart fun _ member => List.mem_append_left _ member,
                unfiltered upper.insertEnd fun _ member => List.mem_append_right _ member]
              simp only [List.append_assoc]
      | nothing =>
          cases deletes : view.deletes with
          | true => simp [read, stored, deletes] at shown
          | false =>
              rw [read_nothing stored deletes] at shown ⊢
              rw [ListPatch.comp_assoc]
              exact ih (fun entry member => ⟨kept entry member, fun other below =>
                (fresh entry member).2 other (List.mem_cons_of_mem _ below)⟩) shown

private theorem not_removed_of_read {pending : ListPatch Entry} {views : List (PatchView Scalar Entry)}
    {entries : List Entry} (shown : read pending views = .list entries) {entry : Entry}
    (member : entry ∈ entries) : entry ∉ pending.removed := by
  induction views generalizing pending with
  | nil => simp [read] at shown
  | cons view rest ih =>
      have above (removed : entry ∈ pending.removed) :
          entry ∈ (pending.comp view.patch).removed := List.mem_append_left _ removed
      cases stored : view.stored with
      | scalar value => simp [read, stored] at shown
      | list stored' =>
          cases deletes : view.deletes with
          | true => simp [read, stored, deletes] at shown
          | false =>
              rw [read_list stored deletes] at shown
              rw [← StoredCell.list.inj shown] at member
              exact fun removed => (ListPatch.mem_apply.mp member).2 (above removed)
      | nothing =>
          cases deletes : view.deletes with
          | true => simp [read, stored, deletes] at shown
          | false =>
              rw [read_nothing stored deletes] at shown
              exact fun removed => ih shown (above removed)

theorem not_removed_of_read_cons {pending : ListPatch Entry} {view : PatchView Scalar Entry}
    {rest : List (PatchView Scalar Entry)} {entries : List Entry}
    (shown : read pending (view :: rest) = .list entries) {entry : Entry}
    (member : entry ∈ entries) : entry ∉ view.patch.removed := by
  intro removed
  have above : entry ∈ (pending.comp view.patch).removed := List.mem_append_right _ removed
  cases stored : view.stored with
  | scalar value => simp [read, stored] at shown
  | list stored' =>
      cases deletes : view.deletes with
      | true => simp [read, stored, deletes] at shown
      | false =>
          rw [read_list stored deletes] at shown
          rw [← StoredCell.list.inj shown] at member
          exact (ListPatch.mem_apply.mp member).2 above
  | nothing =>
      cases deletes : view.deletes with
      | true => simp [read, stored, deletes] at shown
      | false =>
          rw [read_nothing stored deletes] at shown
          exact not_removed_of_read shown member above

end PatchView
