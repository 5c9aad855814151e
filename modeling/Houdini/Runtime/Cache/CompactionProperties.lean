import Houdini.Runtime.Cache.StorageProperties
import Mathlib.Data.List.Induction

/-! What compacting a merged operation list keeps, one id at a time, and when
the compacted list shows the same lists as the full one. -/

set_option autoImplicit false

namespace Houdini.Runtime.Cache

namespace Layer

theorem netOperations_append (upper lower : List ListOperation) (id : String) :
    netOperations (upper ++ lower) id = netOperations upper id + netOperations lower id := by
  simp only [netOperations, List.countP_append]
  omega

def compactFrom (net : String → Int) (operations : List ListOperation) :
    List ListOperation :=
  operations.foldl (fun kept operation =>
    if survives net kept operation then kept ++ [operation] else kept) []

theorem compactOperations_eq (operations : List ListOperation) :
    compactOperations operations = compactFrom (netOperations operations) operations := rfl

theorem compactFrom_concat (net : String → Int) (operations : List ListOperation)
    (operation : ListOperation) :
    compactFrom net (operations ++ [operation]) =
      if survives net (compactFrom net operations) operation
        then compactFrom net operations ++ [operation]
        else compactFrom net operations := by
  rw [compactFrom, List.foldl_append]
  rfl

theorem compactFrom_sublist (net : String → Int) (operations : List ListOperation) :
    (compactFrom net operations).Sublist operations := by
  induction operations using List.reverseRecOn with
  | nil => exact List.Sublist.refl []
  | append_singleton operations operation ih =>
      rw [compactFrom_concat]
      split
      · exact ih.append (List.Sublist.refl [operation])
      · exact ih.trans (List.sublist_append_left operations [operation])

theorem compactOperations_subset {operations : List ListOperation}
    {operation : ListOperation} (member : operation ∈ compactOperations operations) :
    operation ∈ operations :=
  (compactFrom_sublist _ operations).subset member

private theorem countP_concat_of_other {test : ListOperation → Bool}
    (operations : List ListOperation) {operation : ListOperation}
    (other : test operation = false) :
    (operations ++ [operation]).countP test = operations.countP test := by
  simp [List.countP_append, other]

private theorem countP_concat_of_test {test : ListOperation → Bool}
    (operations : List ListOperation) {operation : ListOperation}
    (passed : test operation = true) :
    (operations ++ [operation]).countP test = operations.countP test + 1 := by
  simp [List.countP_append, passed]

private theorem inserts_self (location : OperationLocation) (id : String) :
    (ListOperation.insert location id).inserts id = true := by
  simp [ListOperation.inserts, ListOperation.isInsert, ListOperation.target]

private theorem removes_self (id : String) : (ListOperation.remove id).removes id = true := by
  simp [ListOperation.removes, ListOperation.isRemove, ListOperation.target]

theorem compactFrom_inserts (net : String → Int) (operations : List ListOperation)
    (id : String) :
    ((compactFrom net operations).countP (·.inserts id) : Int) =
      min (operations.countP (·.inserts id) : Int) (max (net id) 0) := by
  induction operations using List.reverseRecOn with
  | nil =>
      simp only [compactFrom, List.foldl_nil, List.countP_nil]
      omega
  | append_singleton operations operation ih =>
      rw [compactFrom_concat]
      by_cases inserts : operation.inserts id = true
      · cases operation with
        | remove target => simp [ListOperation.inserts, ListOperation.isInsert] at inserts
        | insert location target =>
            have same : target = id := by
              simpa [ListOperation.inserts, ListOperation.isInsert, ListOperation.target]
                using inserts
            subst same
            have grows (list : List ListOperation) :
                (list ++ [ListOperation.insert location target]).countP (·.inserts target) =
                  list.countP (·.inserts target) + 1 :=
              countP_concat_of_test list inserts
            by_cases kept :
                survives net (compactFrom net operations) (.insert location target) = true
            · rw [if_pos kept, grows, grows]
              simp only [survives, Bool.and_eq_true, decide_eq_true_eq] at kept
              omega
            · rw [if_neg kept, grows]
              simp only [survives, Bool.and_eq_true, decide_eq_true_eq, not_and] at kept
              omega
      · have other := Bool.eq_false_iff.mpr inserts
        rw [countP_concat_of_other operations other]
        split
        · rw [countP_concat_of_other _ other, ih]
        · exact ih

theorem compactFrom_removes (net : String → Int) (operations : List ListOperation)
    (id : String) :
    ((compactFrom net operations).countP (·.removes id) : Int) =
      min (operations.countP (·.removes id) : Int) (max (-net id) 0) := by
  induction operations using List.reverseRecOn with
  | nil =>
      simp only [compactFrom, List.foldl_nil, List.countP_nil]
      omega
  | append_singleton operations operation ih =>
      rw [compactFrom_concat]
      by_cases removes : operation.removes id = true
      · cases operation with
        | insert location target => simp [ListOperation.removes, ListOperation.isRemove] at removes
        | remove target =>
            have same : target = id := by
              simpa [ListOperation.removes, ListOperation.isRemove, ListOperation.target]
                using removes
            subst same
            have grows (list : List ListOperation) :
                (list ++ [ListOperation.remove target]).countP (·.removes target) =
                  list.countP (·.removes target) + 1 :=
              countP_concat_of_test list removes
            by_cases kept : survives net (compactFrom net operations) (.remove target) = true
            · rw [if_pos kept, grows, grows]
              simp only [survives, Bool.and_eq_true, decide_eq_true_eq] at kept
              omega
            · rw [if_neg kept, grows]
              simp only [survives, Bool.and_eq_true, decide_eq_true_eq, not_and] at kept
              omega
      · have other := Bool.eq_false_iff.mpr removes
        rw [countP_concat_of_other operations other]
        split
        · rw [countP_concat_of_other _ other, ih]
        · exact ih

theorem compactOperations_inserts (operations : List ListOperation) (id : String) :
    ((compactOperations operations).countP (·.inserts id) : Int) =
      max (netOperations operations id) 0 := by
  rw [compactOperations_eq, compactFrom_inserts]
  simp only [netOperations]
  omega

theorem compactOperations_removes (operations : List ListOperation) (id : String) :
    ((compactOperations operations).countP (·.removes id) : Int) =
      max (-netOperations operations id) 0 := by
  rw [compactOperations_eq, compactFrom_removes]
  simp only [netOperations]
  omega

private theorem countP_concat_le (operations : List ListOperation) (operation : ListOperation)
    (test : ListOperation → Bool) :
    operations.countP test ≤ (operations ++ [operation]).countP test :=
  (List.sublist_append_left operations [operation]).countP_le

theorem compactFrom_filter (net : String → Int) (operations : List ListOperation)
    (test : ListOperation → Bool)
    (within : ∀ operation, test operation = true →
      (operations.countP (·.inserts operation.target) : Int) ≤ max (net operation.target) 0 ∧
        (operations.countP (·.removes operation.target) : Int) ≤
          max (-net operation.target) 0) :
    (compactFrom net operations).filter test = operations.filter test := by
  induction operations using List.reverseRecOn with
  | nil => rfl
  | append_singleton operations operation ih =>
      have prefixKept := ih fun other passed => by
        have bounds := within other passed
        have inserts := countP_concat_le operations operation (·.inserts other.target)
        have removes := countP_concat_le operations operation (·.removes other.target)
        omega
      rw [compactFrom_concat]
      by_cases passed : test operation = true
      · have bounds := within operation passed
        have kept : survives net (compactFrom net operations) operation = true := by
          cases operation with
          | insert location target =>
              have count := compactFrom_inserts net operations target
              have grows : (operations ++ [ListOperation.insert location target]).countP
                  (·.inserts target) = operations.countP (·.inserts target) + 1 :=
                countP_concat_of_test operations (by simp [inserts_self])
              simp only [ListOperation.target] at bounds
              simp only [survives, Bool.and_eq_true, decide_eq_true_eq]
              omega
          | remove target =>
              have count := compactFrom_removes net operations target
              have grows : (operations ++ [ListOperation.remove target]).countP
                  (·.removes target) = operations.countP (·.removes target) + 1 :=
                countP_concat_of_test operations (by simp [removes_self])
              simp only [ListOperation.target] at bounds
              simp only [survives, Bool.and_eq_true, decide_eq_true_eq]
              omega
        rw [if_pos kept, List.filter_append, List.filter_append, prefixKept]
      · have dropped : [operation].filter test = [] := by simp [passed]
        rw [List.filter_append, dropped, List.append_nil]
        split
        · rw [List.filter_append, dropped, List.append_nil, prefixKept]
        · exact prefixKept

theorem netOperations_compactOperations (operations : List ListOperation) (id : String) :
    netOperations (compactOperations operations) id = netOperations operations id := by
  have inserts := compactOperations_inserts operations id
  have removes := compactOperations_removes operations id
  unfold netOperations at *
  omega

/-- Layers can be merged in any grouping: compacting parts first leaves as many operations of each
kind, and compacting once is enough. -/
theorem compactOperations_staged (upper lower : List ListOperation) :
    (∀ id, (compactOperations (compactOperations upper ++ compactOperations lower)).countP
          (·.inserts id) = (compactOperations (upper ++ lower)).countP (·.inserts id) ∧
        (compactOperations (compactOperations upper ++ compactOperations lower)).countP
          (·.removes id) = (compactOperations (upper ++ lower)).countP (·.removes id)) ∧
      compactOperations (compactOperations upper) = compactOperations upper := by
  constructor
  · intro id
    have net : netOperations (compactOperations upper ++ compactOperations lower) id =
        netOperations (upper ++ lower) id := by
      rw [netOperations_append, netOperations_append, netOperations_compactOperations,
        netOperations_compactOperations]
    constructor
    · rw [← Int.natCast_inj, compactOperations_inserts, compactOperations_inserts, net]
    · rw [← Int.natCast_inj, compactOperations_removes, compactOperations_removes, net]
  · have kept := compactFrom_filter (netOperations (compactOperations upper))
      (compactOperations upper) (fun _ => true) fun operation _ => by
        rw [compactOperations_inserts, compactOperations_removes, netOperations_compactOperations]
        exact ⟨Int.le_refl _, Int.le_refl _⟩
    rwa [List.filter_true, List.filter_true] at kept

end Layer

namespace ListOperation

def Inserts (operations : List ListOperation) (id : String) : Prop :=
  ∃ location, .insert location id ∈ operations

def Removes (operations : List ListOperation) (id : String) : Prop :=
  .remove id ∈ operations

theorem inserts_iff {operations : List ListOperation} {id : String} :
    Inserts operations id ↔ 0 < operations.countP (·.inserts id) := by
  rw [List.countP_pos_iff]
  constructor
  · rintro ⟨location, member⟩
    exact ⟨_, member, by simp [inserts, isInsert, target]⟩
  · rintro ⟨operation, member, test⟩
    cases operation with
    | remove other => simp [inserts, isInsert] at test
    | insert location other =>
        have same : other = id := by simpa [inserts, isInsert, target] using test
        exact ⟨location, same ▸ member⟩

theorem removes_iff {operations : List ListOperation} {id : String} :
    Removes operations id ↔ 0 < operations.countP (·.removes id) := by
  rw [List.countP_pos_iff]
  constructor
  · intro member
    exact ⟨_, member, by simp [removes, isRemove, target]⟩
  · rintro ⟨operation, member, test⟩
    cases operation with
    | insert location other => simp [removes, isRemove] at test
    | remove other =>
        have same : other = id := by simpa [removes, isRemove, target] using test
        exact same ▸ member

theorem inserts_append {upper lower : List ListOperation} {id : String} :
    Inserts (upper ++ lower) id ↔ Inserts upper id ∨ Inserts lower id := by
  simp [Inserts, exists_or]

theorem removes_append {upper lower : List ListOperation} {id : String} :
    Removes (upper ++ lower) id ↔ Removes upper id ∨ Removes lower id := by
  simp [Removes]

theorem netOperations_of_not_inserts {operations : List ListOperation} {id : String}
    (none : ¬ Inserts operations id) :
    Layer.netOperations operations id = -(operations.countP (·.removes id) : Int) := by
  rw [inserts_iff] at none
  unfold Layer.netOperations
  omega

theorem not_inserts_compact {operations : List ListOperation} {id : String}
    (balanced : Layer.netOperations operations id ≤ 0) :
    ¬ Inserts (Layer.compactOperations operations) id := by
  have count := Layer.compactOperations_inserts operations id
  rw [inserts_iff]
  omega

theorem removes_compact {operations : List ListOperation} {id : String}
    (removed : Layer.netOperations operations id < 0) :
    Removes (Layer.compactOperations operations) id := by
  have count := Layer.compactOperations_removes operations id
  rw [removes_iff]
  omega

theorem mem_patch_removed {operations : List ListOperation} {value : GraphQLValue} :
    value ∈ (patch operations).removed ↔ ∃ id, value = .string id ∧ Removes operations id := by
  simp only [patch, List.mem_filterMap, Removes]
  constructor
  · rintro ⟨operation, member, target⟩
    cases operation with
    | insert location id => cases location <;> simp [removeTarget?] at target
    | remove id =>
        simp only [removeTarget?, Option.some.injEq] at target
        exact ⟨id, target.symm, member⟩
  · rintro ⟨id, rfl, member⟩
    exact ⟨.remove id, member, rfl⟩

theorem mem_patch_inserted {operations : List ListOperation} {value : GraphQLValue} :
    value ∈ (patch operations).insertStart ∨ value ∈ (patch operations).insertEnd ↔
      ∃ id, value = .string id ∧ Inserts operations id := by
  simp only [patch, List.mem_filterMap, List.mem_reverse, Inserts]
  constructor
  · rintro (⟨operation, member, target⟩ | ⟨operation, member, target⟩)
    · cases operation with
      | remove id => simp [startTarget?] at target
      | insert location id =>
          cases location with
          | «end» => simp [startTarget?] at target
          | start =>
              simp only [startTarget?, Option.some.injEq] at target
              exact ⟨id, target.symm, _, member⟩
    · cases operation with
      | remove id => simp [endTarget?] at target
      | insert location id =>
          cases location with
          | start => simp [endTarget?] at target
          | «end» =>
              simp only [endTarget?, Option.some.injEq] at target
              exact ⟨id, target.symm, _, member⟩
  · rintro ⟨id, rfl, location, member⟩
    cases location with
    | start => exact .inl ⟨_, member, rfl⟩
    | «end» => exact .inr ⟨_, member, rfl⟩

theorem patch_avoids {operations : List ListOperation} {hidden : List GraphQLValue}
    (absent : ∀ id, .string id ∈ hidden → ¬ Inserts operations id) :
    (patch operations).Avoids hidden := by
  intro entry member
  have missing : ¬ (entry ∈ (patch operations).insertStart ∨
      entry ∈ (patch operations).insertEnd) := by
    rw [mem_patch_inserted]
    rintro ⟨id, rfl, inserted⟩
    exact absent id member inserted
  exact not_or.mp missing

theorem compactOperations_filter (operations : List ListOperation)
    (test : ListOperation → Bool)
    (oneSided : ∀ operation, test operation = true →
      ¬ (Inserts operations operation.target ∧ Removes operations operation.target)) :
    (Layer.compactOperations operations).filter test = operations.filter test := by
  refine Layer.compactFrom_filter _ operations test fun operation passed => ?_
  have single := oneSided operation passed
  rw [inserts_iff, removes_iff] at single
  unfold Layer.netOperations
  omega

private theorem filter_filterMap_target (operations list : List ListOperation)
    (target? : ListOperation → Option GraphQLValue)
    (targets : ∀ operation value, target? operation = some value →
      value = .string operation.target) :
    (list.filterMap target?).filter (patch operations).keeps =
      (list.filter fun operation => !operations.contains (.remove operation.target)).filterMap
        target? := by
  induction list with
  | nil => rfl
  | cons operation rest ih =>
      cases found : target? operation with
      | none =>
          by_cases kept : (!operations.contains (.remove operation.target)) = true
          · rw [List.filter_cons_of_pos (by exact kept), List.filterMap_cons_none found,
              List.filterMap_cons_none found, ih]
          · rw [List.filter_cons_of_neg (by exact kept), List.filterMap_cons_none found, ih]
      | some value =>
          have named := targets operation value found
          have sameTest : (patch operations).keeps value =
              !operations.contains (.remove operation.target) := by
            rw [Bool.eq_iff_iff, ListPatch.keeps_iff, mem_patch_removed, named]
            simp [Removes]
          by_cases kept : (!operations.contains (.remove operation.target)) = true
          · rw [List.filter_cons_of_pos (by exact kept), List.filterMap_cons_some found,
              List.filterMap_cons_some found, List.filter_cons_of_pos (by rw [sameTest, kept]),
              ih]
          · rw [List.filter_cons_of_neg (by exact kept), List.filterMap_cons_some found,
              List.filter_cons_of_neg (by rw [sameTest]; exact kept), ih]

/-- A reduced list of operations shows the same lists as the full one when it
keeps every operation on an id that is never removed, and a removal of every
removed id that is not cancelled. -/
theorem patch_covers {operations reduced : List ListOperation} {cancelled : List GraphQLValue}
    (kept : reduced.filter (fun operation => !operations.contains (.remove operation.target)) =
      operations.filter fun operation => !operations.contains (.remove operation.target))
    (sound : ∀ id, Removes reduced id → Removes operations id)
    (complete : ∀ id, Removes operations id → Removes reduced id ∨ .string id ∈ cancelled)
    (avoids : ∀ id, .string id ∈ cancelled → ¬ Inserts reduced id) :
    ListPatch.Covers cancelled (patch operations) (patch reduced) where
  insertStart := by
    have targets : ∀ operation value, startTarget? operation = some value →
        value = .string operation.target := by
      intro operation value found
      cases operation with
      | remove id => simp [startTarget?] at found
      | insert location id => cases location <;> simp_all [startTarget?, target]
    change ((operations.filterMap startTarget?).filter (patch operations).keeps) =
      (reduced.filterMap startTarget?).filter (patch operations).keeps
    rw [filter_filterMap_target operations operations startTarget? targets,
      filter_filterMap_target operations reduced startTarget? targets, kept]
  insertEnd := by
    have targets : ∀ operation value, endTarget? operation = some value →
        value = .string operation.target := by
      intro operation value found
      cases operation with
      | remove id => simp [endTarget?] at found
      | insert location id => cases location <;> simp_all [endTarget?, target]
    change ((operations.filterMap endTarget?).reverse.filter (patch operations).keeps) =
      (reduced.filterMap endTarget?).reverse.filter (patch operations).keeps
    rw [List.filter_reverse, List.filter_reverse,
      filter_filterMap_target operations operations endTarget? targets,
      filter_filterMap_target operations reduced endTarget? targets, kept]
  sound := by
    intro entry member
    obtain ⟨id, rfl, removed⟩ := mem_patch_removed.mp member
    exact mem_patch_removed.mpr ⟨id, rfl, sound id removed⟩
  complete := by
    intro entry member
    obtain ⟨id, rfl, removed⟩ := mem_patch_removed.mp member
    exact (complete id removed).imp_left fun still => mem_patch_removed.mpr ⟨id, rfl, still⟩
  avoids := patch_avoids avoids

/-- Compacting shows the same lists when every id that is both inserted and
removed is either removed more often or cancelled. -/
theorem compactOperations_covers (operations : List ListOperation)
    (cancelled : List GraphQLValue)
    (settles : ∀ id, Inserts operations id → Removes operations id →
      Layer.netOperations operations id < 0 ∨ .string id ∈ cancelled)
    (balanced : ∀ id, .string id ∈ cancelled → Layer.netOperations operations id ≤ 0) :
    ListPatch.Covers cancelled (patch operations)
      (patch (Layer.compactOperations operations)) := by
  refine patch_covers ?_ ?_ ?_ ?_
  · refine compactOperations_filter operations _ fun operation passed both => ?_
    simp only [Bool.not_eq_true', List.contains_eq_mem, decide_eq_false_iff_not] at passed
    exact passed both.2
  · exact fun id removed => Layer.compactOperations_subset removed
  · intro id removed
    by_cases inserted : Inserts operations id
    · exact (settles id inserted removed).imp_left removes_compact
    · refine .inl (removes_compact ?_)
      rw [netOperations_of_not_inserts inserted]
      have count := removes_iff.mp removed
      omega
  · exact fun id member => not_inserts_compact (balanced id member)

end ListOperation

end Houdini.Runtime.Cache
