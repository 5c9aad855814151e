import Houdini.Runtime.Cache.SubscriptionWalks
import Mathlib.Algebra.GroupWithZero.Nat

/-! How many references a subscriber has to a field of a record, and what is left when some of them
are released. -/

set_option autoImplicit false

namespace Houdini.Runtime.Cache

namespace FieldSubscribers

/-- The subscribers of one kind are those with references. -/
structure Tally (selections : List FieldSelection) (counts : OrderedMap Nat Nat) : Prop where
  listed : ∀ onMessage, (∃ selection ∈ selections, selection.1.onMessage = onMessage) ↔
    ∃ count, counts.get? onMessage = some count
  positive : ∀ onMessage count, counts.get? onMessage = some count → 0 < count

theorem tally_empty : Tally [] ∅ where
  listed := by simp
  positive := by simp

section Counts

variable {selections : List FieldSelection} {counts : OrderedMap Nat Nat} {onMessage count : Nat}

theorem get?_leave (other : Nat) :
    (leave selections counts onMessage count).2.get? other =
      if other = onMessage then if count ≤ 1 then none else some (count - 1)
      else counts.get? other := by
  unfold leave
  by_cases last : count ≤ 1
  · simp only [if_pos last, OrderedMap.get?_erase]
  · simp only [if_neg last, OrderedMap.get?_set]

theorem Tally.leave (tally : Tally selections counts) (found : counts.get? onMessage = some count) :
    Tally (FieldSubscribers.leave selections counts onMessage count).1
      (FieldSubscribers.leave selections counts onMessage count).2 where
  listed := by
    intro other
    have known := tally.listed other
    by_cases last : count ≤ 1
    · simp only [FieldSubscribers.leave, if_pos last, List.mem_filter, bne_iff_ne]
      rw [OrderedMap.get?_erase]
      constructor
      · rintro ⟨selection, ⟨member, different⟩, rfl⟩
        rw [if_neg different]
        exact known.mp ⟨selection, member, rfl⟩
      · rintro ⟨held, present⟩
        split at present
        · cases present
        · next different =>
            obtain ⟨selection, member, rfl⟩ := known.mpr ⟨held, present⟩
            exact ⟨selection, ⟨member, different⟩, rfl⟩
    · simp only [FieldSubscribers.leave, if_neg last]
      rw [known, OrderedMap.get?_set]
      split
      · next same =>
          subst same
          simp [found]
      · exact Iff.rfl
  positive := by
    intro other held present
    rw [get?_leave] at present
    split at present
    · split at present
      · cases present
      · have same := Option.some.inj present
        omega
    · exact tally.positive other held present

theorem Tally.visit (tally : Tally selections counts) (selection : FieldSelection) :
    Tally (if counts.contains selection.1.onMessage then selections else selections ++ [selection])
      (FieldSubscribers.visit counts selection.1) where
  listed := by
    intro other
    have known := tally.listed other
    unfold FieldSubscribers.visit
    rw [OrderedMap.get?_set]
    by_cases same : other = selection.1.onMessage
    · subst same
      simp only [if_pos, Option.some.injEq, exists_eq', iff_true]
      split
      · next present => exact known.mpr (Option.isSome_iff_exists.mp present)
      · exact ⟨selection, List.mem_append_right _ List.mem_cons_self, rfl⟩
    · rw [if_neg same, ← known]
      split
      · exact Iff.rfl
      · constructor
        · rintro ⟨held, member, rfl⟩
          rcases List.mem_append.mp member with older | newest
          · exact ⟨held, older, rfl⟩
          · exact absurd (congrArg (fun held : FieldSelection => held.1.onMessage)
              (List.mem_singleton.mp newest)) same
        · rintro ⟨held, member, rfl⟩
          exact ⟨held, List.mem_append_left _ member, rfl⟩
  positive := by
    intro other held present
    unfold FieldSubscribers.visit at present
    rw [OrderedMap.get?_set] at present
    split at present
    · have same := Option.some.inj present
      omega
    · exact tally.positive other held present

end Counts

variable {field : FieldSubscribers}

def references (field : FieldSubscribers) (onMessage : Nat) : Nat :=
  (field.referenceCounts.get? onMessage).getD 0 +
    (field.maskedParentReferenceCounts.get? onMessage).getD 0

structure Tallied (field : FieldSubscribers) : Prop where
  selections : Tally field.selections field.referenceCounts
  maskedParents : Tally field.maskedParentSelections field.maskedParentReferenceCounts

theorem tallied_empty : Tallied {} where
  selections := tally_empty
  maskedParents := tally_empty

theorem Tallied.add (tallied : field.Tallied) (selection : FieldSelection) (masked : Bool) :
    (field.add selection masked).Tallied := by
  cases masked with
  | true => exact ⟨tallied.selections, tallied.maskedParents.visit selection⟩
  | false => exact ⟨tallied.selections.visit selection, tallied.maskedParents⟩

theorem references_add_pos (selection : FieldSelection) (masked : Bool) :
    0 < (field.add selection masked).references selection.1.onMessage := by
  cases masked with
  | true =>
      simp only [add, references, visit, if_true, OrderedMap.get?_set_self, Option.getD_some]
      omega
  | false =>
      simp only [add, references, visit, Bool.false_eq_true, if_false, OrderedMap.get?_set_self,
        Option.getD_some]
      omega

theorem remove_cases (field : FieldSubscribers) (preferMasked : Bool) (spec : SubscriptionSpec) :
    (field.referenceCounts.get? spec.onMessage = none ∧
      field.maskedParentReferenceCounts.get? spec.onMessage = none ∧
      field.remove preferMasked spec = field) ∨
    (∃ count, field.referenceCounts.get? spec.onMessage = some count ∧
      field.remove preferMasked spec = field.leaveSelections spec.onMessage count) ∨
    ∃ count, field.maskedParentReferenceCounts.get? spec.onMessage = some count ∧
      field.remove preferMasked spec = field.leaveMaskedParents spec.onMessage count := by
  cases found : field.referenceCounts.get? spec.onMessage with
  | none =>
      cases maskedFound : field.maskedParentReferenceCounts.get? spec.onMessage with
      | none => exact .inl ⟨rfl, rfl, by simp [remove, found, maskedFound]⟩
      | some count => exact .inr (.inr ⟨count, rfl, by simp [remove, found, maskedFound]⟩)
  | some count =>
      cases maskedFound : field.maskedParentReferenceCounts.get? spec.onMessage with
      | none => exact .inr (.inl ⟨count, rfl, by simp [remove, found, maskedFound]⟩)
      | some maskedCount =>
          cases preferMasked with
          | true => exact .inr (.inr ⟨maskedCount, rfl, by simp [remove, found, maskedFound]⟩)
          | false => exact .inr (.inl ⟨count, rfl, by simp [remove, found, maskedFound]⟩)

theorem Tallied.remove (tallied : field.Tallied) (preferMasked : Bool) (spec : SubscriptionSpec) :
    (field.remove preferMasked spec).Tallied := by
  rcases field.remove_cases preferMasked spec with
    ⟨_, _, same⟩ | ⟨count, found, left⟩ | ⟨count, found, left⟩
  · rw [same]
    exact tallied
  · rw [left]
    exact ⟨tallied.selections.leave found, tallied.maskedParents⟩
  · rw [left]
    exact ⟨tallied.selections, tallied.maskedParents.leave found⟩

theorem Tallied.references_remove (tallied : field.Tallied) (preferMasked : Bool)
    (spec : SubscriptionSpec) (onMessage : Nat) :
    (field.remove preferMasked spec).references onMessage =
      field.references onMessage - if spec.onMessage = onMessage then 1 else 0 := by
  have leaves {selections : List FieldSelection} {counts : OrderedMap Nat Nat} {count : Nat}
      (found : counts.get? spec.onMessage = some count) (positive : 0 < count) :
      ((leave selections counts spec.onMessage count).2.get? onMessage).getD 0 +
        (if spec.onMessage = onMessage then 1 else 0) = (counts.get? onMessage).getD 0 := by
    rw [get?_leave]
    by_cases same : onMessage = spec.onMessage
    · subst same
      rw [if_pos rfl, if_pos rfl, found]
      split
      · simp only [Option.getD_none, Option.getD_some]
        omega
      · simp only [Option.getD_some]
        omega
    · rw [if_neg same, if_neg (Ne.symm same), Nat.add_zero]
  rcases field.remove_cases preferMasked spec with
    ⟨unknown, maskedUnknown, same⟩ | ⟨count, found, left⟩ | ⟨count, found, left⟩
  · rw [same]
    by_cases named : spec.onMessage = onMessage
    · subst named
      simp [references, unknown, maskedUnknown]
    · rw [if_neg named, Nat.sub_zero]
  · have rest := @leaves field.selections _ _ found (tallied.selections.positive _ _ found)
    rw [left]
    unfold references leaveSelections
    dsimp only
    omega
  · have rest := @leaves field.maskedParentSelections _ _ found
      (tallied.maskedParents.positive _ _ found)
    rw [left]
    unfold references leaveMaskedParents
    dsimp only
    omega

theorem Tallied.foldl_remove (tallied : field.Tallied) (preferMasked : Bool)
    (specs : List SubscriptionSpec) :
    (specs.foldl (FieldSubscribers.remove preferMasked) field).Tallied ∧ ∀ onMessage,
      (specs.foldl (FieldSubscribers.remove preferMasked) field).references onMessage =
        field.references onMessage - (specs.map (·.onMessage)).count onMessage := by
  induction specs generalizing field with
  | nil => exact ⟨tallied, fun _ => rfl⟩
  | cons spec rest ih =>
      obtain ⟨later, references⟩ := ih (tallied.remove preferMasked spec)
      refine ⟨later, fun onMessage => ?_⟩
      rw [List.foldl_cons, references, tallied.references_remove, List.map_cons, List.count_cons]
      simp only [beq_iff_eq]
      omega

theorem isEmpty_iff (tallied : field.Tallied) :
    (field.referenceCounts.isEmpty && field.maskedParentReferenceCounts.isEmpty) = true ↔
      ∀ onMessage, field.references onMessage = 0 := by
  have empty {selections : List FieldSelection} {counts : OrderedMap Nat Nat}
      (tally : Tally selections counts) :
      counts.isEmpty = true ↔ ∀ onMessage, (counts.get? onMessage).getD 0 = 0 := by
    unfold OrderedMap.isEmpty
    rw [List.isEmpty_iff]
    constructor
    · intro none onMessage
      unfold OrderedMap.get?
      rw [none]
      rfl
    · intro zero
      refine List.eq_nil_iff_forall_not_mem.mpr fun entry member => ?_
      have found := OrderedMap.mem_entries_iff.mp member
      have positive := tally.positive _ _ found
      have none := zero entry.1
      rw [found, Option.getD_some] at none
      omega
  rw [Bool.and_eq_true, empty tallied.selections, empty tallied.maskedParents]
  unfold references
  constructor
  · rintro ⟨none, maskedNone⟩ onMessage
    rw [none, maskedNone]
  · intro zero
    exact ⟨fun onMessage => Nat.eq_zero_of_add_eq_zero_right (zero onMessage),
      fun onMessage => Nat.eq_zero_of_add_eq_zero_left (zero onMessage)⟩

theorem Tallied.references_pos_iff (tallied : field.Tallied) {onMessage : Nat} :
    0 < field.references onMessage ↔
      ∃ selection ∈ field.selections ++ field.maskedParentSelections,
        selection.1.onMessage = onMessage := by
  have positive {selections : List FieldSelection} {counts : OrderedMap Nat Nat}
      (tally : Tally selections counts) : 0 < (counts.get? onMessage).getD 0 ↔
        ∃ selection ∈ selections, selection.1.onMessage = onMessage := by
    rw [tally.listed]
    constructor
    · intro positive
      cases found : counts.get? onMessage with
      | none => simp [found] at positive
      | some count => exact ⟨count, rfl⟩
    · rintro ⟨count, found⟩
      rw [found, Option.getD_some]
      exact tally.positive _ _ found
  unfold references
  rw [Nat.add_pos_iff_pos_or_pos, positive tallied.selections, positive tallied.maskedParents]
  simp only [List.mem_append, or_and_right, exists_or]

end FieldSubscribers

namespace InMemorySubscriptions

variable {subscriptions : InMemorySubscriptions}

def references (subscriptions : InMemorySubscriptions) (id key : String) (onMessage : Nat) : Nat :=
  ((subscriptions.field? id key).map (·.references onMessage)).getD 0

def Registered (subscriptions : InMemorySubscriptions) (id key : String) (onMessage : Nat) : Prop :=
  ∃ selection ∈ subscriptions.get id key ++ subscriptions.getMaskedParents id key,
    selection.1.onMessage = onMessage

structure Tallied (subscriptions : InMemorySubscriptions) : Prop where
  placed : ∀ id position, subscriptions.subscribers.get? id = some position →
    position < subscriptions.tables.length
  tallied : ∀ table ∈ subscriptions.tables, ∀ key field, table.get? key = some field →
    field.Tallied
  used : ∀ table ∈ subscriptions.tables, ∀ key field, table.get? key = some field →
    ∃ onMessage, 0 < field.references onMessage

theorem tallied_empty : Tallied {} where
  placed := by simp
  tallied := by simp
  used := by simp

theorem table?_eq {id : String} {position : Nat}
    (placed : subscriptions.subscribers.get? id = some position) :
    subscriptions.table? id = subscriptions.tables[position]? := by
  rw [table?, placed, Option.bind_some]

theorem field?_of_table? {id key : String} {table : OrderedMap String FieldSubscribers}
    (found : subscriptions.table? id = some table) :
    subscriptions.field? id key = table.get? key := by
  rw [field?, found, Option.bind_some]

theorem mem_tables_of_table? {id : String} {table : OrderedMap String FieldSubscribers}
    (found : subscriptions.table? id = some table) : table ∈ subscriptions.tables := by
  obtain ⟨position, _, atPosition⟩ := Option.bind_eq_some_iff.mp found
  exact List.mem_of_getElem? atPosition

namespace Tallied

theorem field (tallied : subscriptions.Tallied) {id key : String} {field : FieldSubscribers}
    (found : subscriptions.field? id key = some field) : field.Tallied := by
  obtain ⟨table, isTable, inTable⟩ := Option.bind_eq_some_iff.mp found
  exact tallied.tallied table (mem_tables_of_table? isTable) key field inTable

theorem field?_eq_none_iff (tallied : subscriptions.Tallied) {id key : String} :
    subscriptions.field? id key = none ↔ ∀ onMessage, subscriptions.references id key onMessage = 0 := by
  unfold references
  cases found : subscriptions.field? id key with
  | none => simp
  | some field =>
      obtain ⟨table, isTable, inTable⟩ := Option.bind_eq_some_iff.mp found
      obtain ⟨onMessage, positive⟩ := tallied.used table (mem_tables_of_table? isTable) key field inTable
      simp only [reduceCtorEq, Option.map_some, Option.getD_some, false_iff, not_forall]
      exact ⟨onMessage, Nat.ne_of_gt positive⟩

theorem registered_iff (tallied : subscriptions.Tallied) {id key : String} {onMessage : Nat} :
    subscriptions.Registered id key onMessage ↔
      0 < subscriptions.references id key onMessage := by
  unfold Registered references get getMaskedParents
  cases found : subscriptions.field? id key with
  | none => simp
  | some field =>
      simp only [Option.map_some, Option.getD_some]
      exact (tallied.field found).references_pos_iff.symm

end Tallied

theorem Tallied.ensureTable (tallied : subscriptions.Tallied) (id : String) :
    (subscriptions.ensureTable id).2.Tallied ∧
      (subscriptions.ensureTable id).2.subscribers.get? id =
        some (subscriptions.ensureTable id).1 := by
  unfold InMemorySubscriptions.ensureTable
  cases placed : subscriptions.subscribers.get? id with
  | some position => exact ⟨tallied, placed⟩
  | none =>
      refine ⟨⟨fun other position known => ?_, fun table member => ?_, fun table member => ?_⟩, ?_⟩
      · rw [List.length_append, List.length_singleton]
        dsimp only at known
        rw [OrderedMap.get?_set] at known
        split at known
        · have same := Option.some.inj known
          omega
        · have inside := tallied.placed other position known
          omega
      · rcases List.mem_append.mp member with older | newest
        · exact tallied.tallied table older
        · obtain rfl := List.mem_singleton.mp newest
          simp
      · rcases List.mem_append.mp member with older | newest
        · exact tallied.used table older
        · obtain rfl := List.mem_singleton.mp newest
          simp
      · exact OrderedMap.get?_set_self _ _ _

theorem Tallied.addFieldSubscription (tallied : subscriptions.Tallied) (id key : String)
    (selection : FieldSelection) (masked : Bool) :
    (subscriptions.addFieldSubscription id key selection masked).Tallied := by
  obtain ⟨ensured, _⟩ := tallied.ensureTable id
  unfold InMemorySubscriptions.addFieldSubscription
  generalize subscriptions.ensureTable id = ensure at ensured ⊢
  obtain ⟨position, tables⟩ := ensure
  dsimp only at ensured ⊢
  have modified {table : OrderedMap String FieldSubscribers} (member : table ∈ tables.tables)
      {other : String} {field : FieldSubscribers}
      (found : (table.set key (((table.get? key).getD {}).add selection masked)).get? other =
        some field) : field.Tallied ∧ ∃ onMessage, 0 < field.references onMessage := by
    rw [OrderedMap.get?_set] at found
    split at found
    · obtain rfl := Option.some.inj found
      refine ⟨FieldSubscribers.Tallied.add ?_ selection masked, _,
        FieldSubscribers.references_add_pos selection masked⟩
      cases known : table.get? key with
      | none => exact FieldSubscribers.tallied_empty
      | some held => exact ensured.tallied table member key held known
    · exact ⟨ensured.tallied table member other field found,
        ensured.used table member other field found⟩
  have all : ∀ table ∈ tables.tables.modify position fun table =>
      table.set key (((table.get? key).getD {}).add selection masked), ∀ other field,
        table.get? other = some field → field.Tallied ∧ ∃ onMessage, 0 < field.references onMessage := by
    intro table member other field found
    obtain ⟨place, isTable⟩ := List.mem_iff_getElem?.mp member
    rw [List.getElem?_modify] at isTable
    obtain ⟨held, atPlace, same⟩ := Option.map_eq_some_iff.mp isTable
    have isHeld := List.mem_of_getElem? atPlace
    split at same
    · rw [← same] at found
      exact modified isHeld found
    · rw [← same] at found
      exact ⟨ensured.tallied held isHeld other field found,
        ensured.used held isHeld other field found⟩
  refine ⟨fun other place known => ?_, fun table member other field found =>
    (all table member other field found).1, fun table member other field found =>
    (all table member other field found).2⟩
  rw [List.length_modify]
  exact ensured.placed other place known

theorem Tallied.copySubscribers (tallied : subscriptions.Tallied) (source target : String) :
    (subscriptions.copySubscribers source target).Tallied := by
  unfold InMemorySubscriptions.copySubscribers
  cases placed : subscriptions.subscribers.get? source with
  | some position =>
      refine ⟨fun other place known => ?_, tallied.tallied, tallied.used⟩
      dsimp only at known
      rw [OrderedMap.get?_set] at known
      split at known
      · obtain rfl := Option.some.inj known
        exact tallied.placed source _ placed
      · exact tallied.placed other place known
  | none =>
      refine ⟨fun other place known => ?_, fun table member => ?_, fun table member => ?_⟩
      · rw [List.length_append, List.length_singleton]
        dsimp only at known
        rw [OrderedMap.get?_set] at known
        split at known
        · have same := Option.some.inj known
          omega
        · have inside := tallied.placed other place known
          omega
      · rcases List.mem_append.mp member with older | newest
        · exact tallied.tallied table older
        · obtain rfl := List.mem_singleton.mp newest
          simp
      · rcases List.mem_append.mp member with older | newest
        · exact tallied.used table older
        · obtain rfl := List.mem_singleton.mp newest
          simp

theorem Tallied.reset (tallied : subscriptions.Tallied) : subscriptions.reset.Tallied where
  placed := by
    intro id position known
    unfold InMemorySubscriptions.reset at known
    dsimp only at known
    have kept := OrderedMap.mem_entries_iff.mpr known
    exact tallied.placed id position
      (OrderedMap.mem_entries_iff.mp (List.mem_of_mem_filter kept))
  tallied := tallied.tallied
  used := tallied.used

def withLeft (table : OrderedMap String FieldSubscribers) (key : String)
    (left : FieldSubscribers) : OrderedMap String FieldSubscribers :=
  if left.referenceCounts.isEmpty && left.maskedParentReferenceCounts.isEmpty then table.erase key
  else table.set key left

theorem removeSubscribers_cases (subscriptions : InMemorySubscriptions) (id key : String)
    (specs : List SubscriptionSpec) (preferMasked : Bool) :
    (subscriptions.field? id key = none ∧
      subscriptions.removeSubscribers id key specs preferMasked = subscriptions) ∨
    ∃ position table field, subscriptions.subscribers.get? id = some position ∧
      subscriptions.tables[position]? = some table ∧ table.get? key = some field ∧
      subscriptions.removeSubscribers id key specs preferMasked =
        { tables := subscriptions.tables.set position
            (withLeft table key (specs.foldl (FieldSubscribers.remove preferMasked) field))
          subscribers :=
            if (withLeft table key (specs.foldl (FieldSubscribers.remove preferMasked)
                field)).isEmpty then
              subscriptions.subscribers.erase id
            else subscriptions.subscribers } := by
  unfold removeSubscribers
  cases placed : subscriptions.subscribers.get? id with
  | none =>
      refine .inl ⟨?_, rfl⟩
      simp [field?, table?, placed]
  | some position =>
      cases found : subscriptions.field? id key with
      | none => exact .inl ⟨rfl, rfl⟩
      | some field =>
          obtain ⟨table, isTable, inTable⟩ := Option.bind_eq_some_iff.mp found
          refine .inr ⟨position, table, field, rfl, ?_, inTable, ?_⟩
          · rw [← table?_eq placed]
            exact isTable
          · simp only [isTable, Option.getD_some]
            rfl

section Releases

variable {table : OrderedMap String FieldSubscribers} {field left : FieldSubscribers}

theorem references_withLeft (tallied : left.Tallied) (key other : String) (onMessage : Nat) :
    (((withLeft table key left).get? other).map (·.references onMessage)).getD 0 =
      if other = key then left.references onMessage
      else ((table.get? other).map (·.references onMessage)).getD 0 := by
  unfold withLeft
  split
  · next empty =>
      rw [OrderedMap.get?_erase]
      split
      · exact ((FieldSubscribers.isEmpty_iff tallied).mp empty onMessage).symm
      · rfl
  · rw [OrderedMap.get?_set]
    split
    · rfl
    · rfl

theorem of_get?_withLeft (tallied : left.Tallied) {key other : String} {held : FieldSubscribers}
    (found : (withLeft table key left).get? other = some held) :
    (held = left ∧ ∃ onMessage, 0 < left.references onMessage) ∨ table.get? other = some held := by
  unfold withLeft at found
  split at found
  · rw [OrderedMap.get?_erase] at found
    split at found
    · cases found
    · exact .inr found
  · next used =>
      rw [OrderedMap.get?_set] at found
      split at found
      · refine .inl ⟨(Option.some.inj found).symm, ?_⟩
        by_contra none
        refine used ((FieldSubscribers.isEmpty_iff tallied).mpr fun onMessage => ?_)
        exact Nat.eq_zero_of_not_pos fun positive => none ⟨onMessage, positive⟩
      · exact .inr found

theorem get?_eq_none_of_isEmpty (empty : table.isEmpty = true) (key : String) :
    table.get? key = none := by
  unfold OrderedMap.get?
  rw [List.isEmpty_iff.mp empty]
  rfl

end Releases

def SharesTable (subscriptions : InMemorySubscriptions) (id other : String) : Prop :=
  subscriptions.subscribers.get? id = subscriptions.subscribers.get? other ∧
    (subscriptions.subscribers.get? other).isSome = true

instance (subscriptions : InMemorySubscriptions) (id other : String) :
    Decidable (subscriptions.SharesTable id other) := by
  unfold SharesTable
  infer_instance

/-- How many references of a subscriber a release takes off a field of a record. -/
def releasedAt (subscriptions : InMemorySubscriptions) (id key : String) (onMessage : Nat)
    (release : Release) : Nat :=
  if subscriptions.SharesTable id release.visit.record ∧ key = release.visit.key then
    (release.targets.map (·.onMessage)).count onMessage
  else 0

def released (subscriptions : InMemorySubscriptions) (releases : List Release) (id key : String)
    (onMessage : Nat) : Nat :=
  (releases.map (subscriptions.releasedAt id key onMessage)).sum

/-- What is left after some references were released. A record that is forgotten has none left. -/
structure Reduced (start left : InMemorySubscriptions)
    (released : String → String → Nat → Nat) : Prop where
  tallied : left.Tallied
  references : ∀ id key onMessage, left.references id key onMessage =
    start.references id key onMessage - released id key onMessage
  places : ∀ id, left.subscribers.get? id = start.subscribers.get? id ∨
    left.subscribers.get? id = none ∧ ∀ other key onMessage,
      start.subscribers.get? other = start.subscribers.get? id →
        left.references other key onMessage = 0

theorem Reduced.start (tallied : subscriptions.Tallied) :
    Reduced subscriptions subscriptions fun _ _ _ => 0 where
  tallied := tallied
  references := fun _ _ _ => rfl
  places := fun _ => .inl rfl

theorem references_eq {id : String} {position : Nat} {table : OrderedMap String FieldSubscribers}
    (placed : subscriptions.subscribers.get? id = some position)
    (atPosition : subscriptions.tables[position]? = some table) (key : String) (onMessage : Nat) :
    subscriptions.references id key onMessage =
      ((table.get? key).map (·.references onMessage)).getD 0 := by
  rw [references, field?_of_table? ((table?_eq placed).trans atPosition)]

theorem references_eq_zero {id : String} (unknown : subscriptions.subscribers.get? id = none)
    (key : String) (onMessage : Nat) : subscriptions.references id key onMessage = 0 := by
  simp [references, field?, table?, unknown]

theorem Tallied.removeSubscribers (tallied : subscriptions.Tallied) (id key : String)
    (specs : List SubscriptionSpec) (preferMasked : Bool) :
    (subscriptions.removeSubscribers id key specs preferMasked).Tallied := by
  rcases subscriptions.removeSubscribers_cases id key specs preferMasked with
    ⟨_, same⟩ | ⟨position, table, field, placed, atPosition, found, result⟩
  · rw [same]
    exact tallied
  · have isTable := List.mem_of_getElem? atPosition
    have left := ((tallied.tallied table isTable key field found).foldl_remove preferMasked specs).1
    rw [result]
    refine ⟨?_, ?_, ?_⟩
    · intro other place known
      rw [List.length_set]
      dsimp only at known
      split at known
      · rw [OrderedMap.get?_erase] at known
        split at known
        · cases known
        · exact tallied.placed other place known
      · exact tallied.placed other place known
    · intro held member other heldField heldFound
      rcases List.mem_or_eq_of_mem_set member with older | rfl
      · exact tallied.tallied held older other heldField heldFound
      · rcases of_get?_withLeft left heldFound with ⟨rfl, _⟩ | older
        · exact left
        · exact tallied.tallied table isTable other heldField older
    · intro held member other heldField heldFound
      rcases List.mem_or_eq_of_mem_set member with older | rfl
      · exact tallied.used held older other heldField heldFound
      · rcases of_get?_withLeft left heldFound with ⟨rfl, positive⟩ | older
        · exact positive
        · exact tallied.used table isTable other heldField older

theorem Tallied.references_removeSubscribers (tallied : subscriptions.Tallied)
    {id key : String} {specs : List SubscriptionSpec} {preferMasked : Bool}
    (other otherKey : String) (onMessage : Nat) :
    (subscriptions.removeSubscribers id key specs preferMasked).references other otherKey
        onMessage =
      subscriptions.references other otherKey onMessage -
        if subscriptions.SharesTable other id ∧ otherKey = key then
          (specs.map (·.onMessage)).count onMessage
        else 0 := by
  rcases subscriptions.removeSubscribers_cases id key specs preferMasked with
    ⟨unknown, same⟩ | ⟨position, table, field, placed, atPosition, found, result⟩
  · rw [same]
    split
    · next shared =>
        have same : subscriptions.references other otherKey onMessage =
            subscriptions.references id key onMessage := by
          rw [shared.2]
          unfold references field? table?
          rw [shared.1.1]
        rw [same, tallied.field?_eq_none_iff.mp unknown onMessage, Nat.zero_sub]
    · rfl
  · obtain ⟨left, references⟩ :=
      (tallied.tallied table (List.mem_of_getElem? atPosition) key field found).foldl_remove
        preferMasked specs
    have inside : position < subscriptions.tables.length := tallied.placed id position placed
    have after (known : subscriptions.subscribers.get? other = some position) :
        (((withLeft table key (specs.foldl (FieldSubscribers.remove preferMasked)
          field)).get? otherKey).map (·.references onMessage)).getD 0 =
        subscriptions.references other otherKey onMessage -
          if subscriptions.SharesTable other id ∧ otherKey = key then
            (specs.map (·.onMessage)).count onMessage
          else 0 := by
      have shared : subscriptions.SharesTable other id := ⟨known.trans placed.symm, by simp [placed]⟩
      rw [references_withLeft left, references_eq known atPosition]
      by_cases same : otherKey = key
      · rw [if_pos same, if_pos ⟨shared, same⟩, same, found, references, Option.map_some,
          Option.getD_some]
      · rw [if_neg same, if_neg fun both => same both.2, Nat.sub_zero]
    rw [result]
    by_cases known : subscriptions.subscribers.get? other = some position
    · rw [← after known]
      by_cases empty : (withLeft table key (specs.foldl (FieldSubscribers.remove preferMasked)
          field)).isEmpty
      · simp only [if_pos empty]
        rw [get?_eq_none_of_isEmpty empty, Option.map_none, Option.getD_none]
        by_cases here : other = id
        · exact references_eq_zero (by simp [here]) _ _
        · rw [@references_eq _ _ position _ (by simp [here, known])
            (by simp [inside]; rfl), get?_eq_none_of_isEmpty empty]
          rfl
      · simp only [if_neg empty]
        rw [@references_eq _ _ position _ (by simpa using known) (by simp [inside]; rfl)]
    · have apart : ¬ (subscriptions.SharesTable other id ∧ otherKey = key) := fun both =>
        known (both.1.1.trans placed)
      rw [if_neg apart, Nat.sub_zero]
      have different : other ≠ id := fun same => known (same ▸ placed)
      unfold InMemorySubscriptions.references field? table?
      dsimp only
      have same : (if (withLeft table key (specs.foldl (FieldSubscribers.remove preferMasked)
            field)).isEmpty then subscriptions.subscribers.erase id
          else subscriptions.subscribers).get? other = subscriptions.subscribers.get? other := by
        split
        · exact OrderedMap.get?_erase_of_ne _ different
        · rfl
      rw [same]
      cases place : subscriptions.subscribers.get? other with
      | none => rfl
      | some otherPosition =>
          have distinct : position ≠ otherPosition := fun same => known (same ▸ place)
          simp only [Option.bind_some]
          rw [List.getElem?_set_ne distinct]

theorem removeSubscribers_places (subscriptions : InMemorySubscriptions) (id key : String)
    (specs : List SubscriptionSpec) (preferMasked : Bool) (other : String) :
    let left := subscriptions.removeSubscribers id key specs preferMasked
    left.subscribers.get? other = subscriptions.subscribers.get? other ∨
      other = id ∧ left.subscribers.get? other = none ∧ ∀ alike alikeKey onMessage,
        subscriptions.subscribers.get? alike = subscriptions.subscribers.get? id →
          left.references alike alikeKey onMessage = 0 := by
  rcases subscriptions.removeSubscribers_cases id key specs preferMasked with
    ⟨_, same⟩ | ⟨position, table, field, placed, atPosition, found, result⟩
  · exact .inl (by rw [same])
  · rw [result]
    dsimp only
    by_cases empty : (withLeft table key (specs.foldl (FieldSubscribers.remove preferMasked)
        field)).isEmpty
    · by_cases here : other = id
      · refine .inr ⟨here, by rw [if_pos empty, here, OrderedMap.get?_erase_self], ?_⟩
        intro alike alikeKey onMessage shared
        by_cases same : alike = id
        · exact references_eq_zero (by simp [if_pos empty, same]) _ _
        · have inside : position < subscriptions.tables.length :=
            (List.getElem?_eq_some_iff.mp atPosition).1
          rw [@references_eq _ _ position _ (by simp [if_pos empty, same, shared, placed])
            (by simp [inside]; rfl), get?_eq_none_of_isEmpty empty]
          rfl
      · exact .inl (by rw [if_pos empty, OrderedMap.get?_erase_of_ne _ here])
    · exact .inl (by rw [if_neg empty])

namespace Reduced

variable {start left : InMemorySubscriptions} {taken : String → String → Nat → Nat}

theorem references_eq_zero (reduced : Reduced start left taken) {id other : String}
    (unknown : left.subscribers.get? other = none)
    (shared : start.SharesTable id other) (key : String) (onMessage : Nat) :
    left.references id key onMessage = 0 := by
  rcases reduced.places other with same | ⟨_, none⟩
  · exact absurd (shared.2) (by rw [← same, unknown]; simp)
  · exact none id key onMessage shared.1

theorem release (reduced : Reduced start left taken) (release : Release) :
    Reduced start (left.release release) fun id key onMessage =>
      taken id key onMessage + start.releasedAt id key onMessage release where
  tallied := reduced.tallied.removeSubscribers _ _ _ _
  references := by
    intro id key onMessage
    have after := @Tallied.references_removeSubscribers _ reduced.tallied release.visit.record
      release.visit.key release.targets release.visit.masked id key onMessage
    have before := reduced.references id key onMessage
    unfold InMemorySubscriptions.release releasedAt
    by_cases shared : start.SharesTable id release.visit.record
    · by_cases still : left.SharesTable id release.visit.record
      · simp only [still, shared, true_and] at after ⊢
        omega
      · -- one of the records was forgotten, so that nothing is left for either
        have none : left.references id key onMessage = 0 := by
          rcases reduced.places release.visit.record with same | ⟨unknown, _⟩
          · rcases reduced.places id with alike | ⟨unknown, _⟩
            · refine absurd ⟨?_, ?_⟩ still
              · rw [alike, same, shared.1]
              · rw [same]
                exact shared.2
            · exact InMemorySubscriptions.references_eq_zero unknown key onMessage
          · exact reduced.references_eq_zero unknown shared key onMessage
        rw [none, Nat.zero_sub] at after
        rw [after]
        omega
    · have apart : ¬ left.SharesTable id release.visit.record := by
        intro still
        have known (other : String) (place : (left.subscribers.get? other).isSome = true) :
            left.subscribers.get? other = start.subscribers.get? other := by
          rcases reduced.places other with same | ⟨unknown, _⟩
          · exact same
          · rw [unknown] at place
            cases place
        have record := known release.visit.record still.2
        refine shared ⟨?_, ?_⟩
        · rw [← known id (by rw [still.1]; exact still.2), ← record, still.1]
        · rw [← record]
          exact still.2
      simp only [apart, shared, false_and, if_false] at after ⊢
      omega
  places := by
    intro id
    have after := left.removeSubscribers_places release.visit.record release.visit.key
      release.targets release.visit.masked id
    have fewer (other key : String) (onMessage : Nat) :
        left.references other key onMessage = 0 →
          (left.release release).references other key onMessage = 0 := by
      intro none
      unfold InMemorySubscriptions.release
      rw [reduced.tallied.references_removeSubscribers, none, Nat.zero_sub]
    rcases reduced.places id with same | ⟨unknown, none⟩
    · rcases after with kept | ⟨rfl, forgotten, none⟩
      · exact .inl (kept.trans same)
      · refine .inr ⟨forgotten, fun other key onMessage shared => ?_⟩
        rcases reduced.places other with alike | ⟨unknown, _⟩
        · exact none other key onMessage (by rw [alike, same, shared])
        · exact fewer other key onMessage
            (InMemorySubscriptions.references_eq_zero unknown key onMessage)
    · refine .inr ⟨?_, fun other key onMessage shared =>
        fewer other key onMessage (none other key onMessage shared)⟩
      rcases after with kept | ⟨_, forgotten, _⟩
      · exact kept.trans unknown
      · exact forgotten

theorem foldl_release (releases : List Release) (reduced : Reduced start left taken) :
    Reduced start (releases.foldl InMemorySubscriptions.release left) fun id key onMessage =>
      taken id key onMessage + start.released releases id key onMessage := by
  induction releases generalizing left taken with
  | nil => exact reduced
  | cons release rest ih =>
      have later := ih (reduced.release release)
      refine ⟨later.tallied, fun id key onMessage => ?_, later.places⟩
      rw [List.foldl_cons, later.references]
      unfold released
      rw [List.map_cons, List.sum_cons, Nat.add_assoc]

end Reduced

end InMemorySubscriptions

end Houdini.Runtime.Cache
