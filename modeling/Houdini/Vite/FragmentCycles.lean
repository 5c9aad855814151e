import Houdini.Data.CycleSearch
import Houdini.Vite.TaskDatabaseProperties

/-! Fragments that spread themselves. A run looks at the spreads in the fragments of its task. -/

set_option autoImplicit false

namespace Houdini.Vite

namespace TaskDatabase

variable (db : TaskDatabase)

def fragments : List (Nat × DocumentRow) :=
  db.documents.entries.filter fun entry => entry.2.definition.isFragment

def spreadTargets : SelectedItem → List String
  | .fragment fieldName =>
      (db.fragments.filter fun entry => entry.2.definition.name = fieldName).map
        (·.2.definition.name)
  | _ => []

def fragmentEdges (task : Option String) : List (String × String) :=
  (db.fragments.filter fun entry => db.inTask task entry.2).flatMap fun entry =>
    (entry.2.definition.selections.flatMap db.spreadTargets).map fun target =>
      (entry.2.definition.name, target)

def fragmentGraph (task : Option String) : Graph String where
  next name := ((db.fragmentEdges task).filter fun edge => edge.1 = name).map Prod.snd
  nodes := (db.fragmentEdges task).map Prod.fst ++ (db.fragmentEdges task).map Prod.snd
  next_subset := by
    intro name other member
    obtain ⟨edge, isEdge, rfl⟩ := List.mem_map.mp member
    exact List.mem_append_right _ (List.mem_map_of_mem (List.mem_of_mem_filter isEdge))

def cycleMessage (cycle : List String) : String :=
  "Fragment cycle detected: " ++ " -> ".intercalate cycle ++ " -> " ++ cycle.headD ""

structure FragmentOrder (task : Option String) where
  order : List String
  complete : ∀ name, name ∈ order ↔ name ∈ (db.fragmentGraph task).nodes

def validateFragmentCycles {task : Option String} (order : FragmentOrder db task) : List String :=
  (CycleSearch.searchAll (db.fragmentGraph task) order.order).cycles.map cycleMessage

variable {db} {task : Option String} {name other : String}

theorem mem_fragments {raw : Nat} {definition : Definition} :
    (∃ number, (number, ⟨raw, definition⟩) ∈ db.fragments) ↔
      db.Holds raw definition ∧ definition.isFragment = true := by
  constructor
  · intro found
    obtain ⟨number, member⟩ := found
    obtain ⟨known, isFragment⟩ := List.mem_filter.mp member
    exact ⟨⟨number, known⟩, isFragment⟩
  · intro both
    obtain ⟨⟨number, known⟩, isFragment⟩ := both
    exact ⟨number, List.mem_filter.mpr ⟨known, isFragment⟩⟩

def SpreadsIn (db : TaskDatabase) (task : Option String) (name other : String) : Prop :=
  (∃ raw definition, db.Holds raw definition ∧ definition.isFragment = true ∧
    db.inTask task ⟨raw, definition⟩ = true ∧ definition.name = name ∧
    SelectedItem.fragment other ∈ definition.selections) ∧
  ∃ raw definition, db.Holds raw definition ∧ definition.isFragment = true ∧
    definition.name = other

def Spreads (db : TaskDatabase) : String → String → Prop := db.SpreadsIn none

theorem mem_spreadTargets {item : SelectedItem} :
    other ∈ db.spreadTargets item ↔ item = .fragment other ∧
      ∃ raw definition, db.Holds raw definition ∧ definition.isFragment = true ∧
        definition.name = other := by
  cases item with
  | field => simp [spreadTargets]
  | inlineFragment => simp [spreadTargets]
  | fragment fieldName =>
      rw [spreadTargets, List.mem_map]
      constructor
      · intro found
        obtain ⟨entry, member, named⟩ := found
        obtain ⟨isFragment, same⟩ := List.mem_filter.mp member
        rw [decide_eq_true_eq] at same
        obtain ⟨holds, kind⟩ := mem_fragments.mp ⟨entry.1, isFragment⟩
        exact ⟨by rw [← same, named], entry.2.rawDocument, entry.2.definition, holds, kind, named⟩
      · intro found
        obtain ⟨same, raw, definition, holds, kind, named⟩ := found
        obtain ⟨number, member⟩ := mem_fragments.mpr ⟨holds, kind⟩
        cases same
        exact ⟨_, List.mem_filter.mpr ⟨member, decide_eq_true named⟩, named⟩

theorem mem_fragmentEdges : (name, other) ∈ db.fragmentEdges task ↔
    db.SpreadsIn task name other := by
  rw [fragmentEdges, List.mem_flatMap]
  constructor
  · intro found
    obtain ⟨entry, member, edge⟩ := found
    obtain ⟨isFragment, inTask⟩ := List.mem_filter.mp member
    obtain ⟨target, selected, same⟩ := List.mem_map.mp edge
    obtain ⟨item, isItem, targets⟩ := List.mem_flatMap.mp selected
    obtain ⟨rfl, rfl⟩ := Prod.mk.inj same
    obtain ⟨rfl, exists'⟩ := mem_spreadTargets.mp targets
    obtain ⟨holds, kind⟩ := mem_fragments.mp ⟨entry.1, isFragment⟩
    exact ⟨⟨_, _, holds, kind, inTask, rfl, isItem⟩, exists'⟩
  · intro spreads
    obtain ⟨⟨raw, definition, holds, kind, inTask, rfl, selected⟩, exists'⟩ := spreads
    obtain ⟨number, member⟩ := mem_fragments.mpr ⟨holds, kind⟩
    refine ⟨_, List.mem_filter.mpr ⟨member, inTask⟩, List.mem_map.mpr ⟨other, ?_, rfl⟩⟩
    exact List.mem_flatMap.mpr ⟨_, selected, mem_spreadTargets.mpr ⟨rfl, exists'⟩⟩

theorem leads_fragmentGraph : (db.fragmentGraph task).Leads = db.SpreadsIn task := by
  funext name other
  refine propext ?_
  rw [← mem_fragmentEdges]
  change other ∈ ((db.fragmentEdges task).filter fun edge => edge.1 = name).map Prod.snd ↔ _
  constructor
  · intro member
    obtain ⟨edge, isEdge, rfl⟩ := List.mem_map.mp member
    obtain ⟨known, same⟩ := List.mem_filter.mp isEdge
    rw [decide_eq_true_eq] at same
    rw [← same]
    exact known
  · intro member
    exact List.mem_map.mpr ⟨_, List.mem_filter.mpr ⟨member, decide_eq_true rfl⟩, rfl⟩

theorem validateFragmentCycles_ne_nil_iff (order : FragmentOrder db task) :
    db.validateFragmentCycles order ≠ [] ↔
      ∃ name, Relation.TransGen (db.SpreadsIn task) name name := by
  have within : order.order ⊆ (db.fragmentGraph task).nodes :=
    fun name member => (order.complete name).mp member
  obtain ⟨areCycles, acyclic⟩ := CycleSearch.searchAll_cycles within
  rw [leads_fragmentGraph] at acyclic
  rw [validateFragmentCycles, ne_eq, List.map_eq_nil_iff]
  constructor
  · intro some
    obtain ⟨cycle, member⟩ := List.exists_mem_of_ne_nil _ some
    obtain ⟨name, _, closed⟩ := (areCycles cycle member).exists_closed
    rw [leads_fragmentGraph] at closed
    exact ⟨name, closed⟩
  · intro found none
    obtain ⟨name, closed⟩ := found
    obtain ⟨next, leads, _⟩ := Relation.TransGen.head'_iff.mp closed
    refine acyclic none name ((order.complete name).mpr ?_) closed
    exact List.mem_append_left _ (List.mem_map_of_mem (f := Prod.fst) (mem_fragmentEdges.mpr leads))

/-- A run over all documents, or for a task whose source strings the walk chose. -/
inductive Run where
  | full (db : TaskDatabase)
  | chosen (db : TaskDatabase) (task : String)

namespace Run

def database : Run → TaskDatabase
  | .full db => db
  | .chosen db task => db.walk task

def task? : Run → Option String
  | .full _ => none
  | .chosen _ task => some task

def Has (run : Run) (name : String) : Prop :=
  ∃ raw definition, run.database.Holds raw definition ∧ definition.isFragment = true ∧
    run.database.inTask run.task? ⟨raw, definition⟩ = true ∧ definition.name = name

/-- The spreads of the whole project lead from a fragment of the run into a cycle. -/
def ReachesCycle (run : Run) : Prop :=
  ∃ name cyclic, run.Has name ∧ Relation.ReflTransGen run.database.Spreads name cyclic ∧
    Relation.TransGen run.database.Spreads cyclic cyclic

def Catches (run : Run) : Prop :=
  ∀ order : FragmentOrder run.database run.task?,
    run.database.validateFragmentCycles order ≠ [] ↔ run.ReachesCycle

variable (run : Run)

theorem spreads_of_spreadsIn {name other : String}
    (spreads : run.database.SpreadsIn run.task? name other) :
    run.Has name ∧ run.database.Spreads name other := by
  obtain ⟨⟨raw, definition, holds, kind, inTask, named, selected⟩, target⟩ := spreads
  refine ⟨⟨raw, definition, holds, kind, inTask, named⟩, ⟨raw, definition, holds, kind, ?_, named,
    selected⟩, target⟩
  obtain ⟨number, member⟩ := holds
  exact inTask_none run.database member

/-- Cycles are caught if and only if a run that leads into one has all fragments of one. -/
theorem catches_iff : run.Catches ↔ (run.ReachesCycle →
    ∃ name, Relation.TransGen (run.database.SpreadsIn run.task?) name name) := by
  have leads : (∃ name, Relation.TransGen (run.database.SpreadsIn run.task?) name name) →
      run.ReachesCycle := by
    intro found
    obtain ⟨name, closed⟩ := found
    obtain ⟨next, first, _⟩ := Relation.TransGen.head'_iff.mp closed
    exact ⟨name, name, (run.spreads_of_spreadsIn first).1, .refl,
      Relation.TransGen.mono (fun _ _ spreads => (run.spreads_of_spreadsIn spreads).2) _ _ closed⟩
  constructor
  · intro catches reaches
    have order : FragmentOrder run.database run.task? := ⟨_, fun _ => Iff.rfl⟩
    exact (validateFragmentCycles_ne_nil_iff order).mp ((catches order).mpr reaches)
  · intro within order
    rw [validateFragmentCycles_ne_nil_iff]
    exact ⟨leads, within⟩

end Run

theorem inTask_walk {raw : Nat} {definition : Definition} {current : String}
    (holds : db.Holds raw definition) (reached : definition.name ∈ db.reached current) :
    (db.walk current).inTask (some current) ⟨raw, definition⟩ = true := by
  obtain ⟨number, member⟩ := holds
  obtain ⟨entry, known, same⟩ := List.mem_map.mp (db.loadedFrom _ member)
  refine inTask_iff.mpr ⟨(entry.1, { entry.2 with currentTask := some current }), ?_, same⟩
  refine List.mem_filter.mpr ⟨mem_walk_iff.mpr ⟨entry.2, known, .inl ⟨?_, rfl⟩⟩, ?_⟩
  · rw [same]
    exact ⟨definition, ⟨number, member⟩, reached⟩
  · simp [RawDocument.inTask]

/-- A cycle is reported if the walk reaches one of its fragments, given that every spread was
recorded as a dependency. -/
theorem Run.catches_of_reached {current cyclic : String}
    (recorded : ∀ name other, db.Spreads name other → db.Depends name other)
    (closed : Relation.TransGen db.Spreads cyclic cyclic) (reached : cyclic ∈ db.reached current)
    (order : FragmentOrder (db.walk current) (some current)) :
    (db.walk current).validateFragmentCycles order ≠ [] := by
  have all : ∀ name, Relation.ReflTransGen db.Spreads cyclic name →
      Relation.ReflTransGen db.Spreads name cyclic → name ∈ db.reached current := by
    intro name there back
    obtain ⟨origin, isSeed, either⟩ := mem_reached_iff.mp reached
    refine mem_reached_iff.mpr ⟨origin, isSeed, ?_⟩
    cases either with
    | inl up => exact .inl ((Relation.ReflTransGen.mono recorded _ _ back).trans up)
    | inr down => exact .inr (down.trans (Relation.ReflTransGen.mono recorded _ _ there))
  refine (validateFragmentCycles_ne_nil_iff order).mpr ⟨cyclic, ?_⟩
  have within : ∀ name, Relation.TransGen db.Spreads cyclic name →
      Relation.ReflTransGen db.Spreads name cyclic →
      Relation.TransGen ((db.walk current).SpreadsIn (some current)) cyclic name := by
    have step : ∀ name other, Relation.ReflTransGen db.Spreads cyclic name →
        Relation.ReflTransGen db.Spreads name cyclic → db.Spreads name other →
        (db.walk current).SpreadsIn (some current) name other := by
      intro name other there back spreads
      obtain ⟨⟨raw, definition, holds, kind, _, named, selected⟩, target⟩ := spreads
      exact ⟨⟨raw, definition, holds, kind,
        inTask_walk holds (by rw [named]; exact all name there back), named, selected⟩, target⟩
    intro name forth back
    induction forth with
    | single spreads => exact .single (step _ _ .refl (closed.to_reflTransGen) spreads)
    | tail before spreads ih =>
        have backwards := Relation.ReflTransGen.head spreads back
        exact (ih backwards).tail (step _ _ before.to_reflTransGen backwards spreads)
  exact within cyclic closed .refl

def spreading (name : String) (targets : List String) : Definition where
  name := name
  isFragment := true
  selections := targets.map .fragment
  componentField := none
  lists := []
  printed := ""

def sourceOf (task : Option String) : RawDocument where
  offsetLine := none
  offsetColumn := none
  filepath := ""
  content := ""
  currentTask := task
  loadedWith := none

/-- A fragment is edited, and spreads itself from now on. -/
def editedLoop : TaskDatabase where
  rawDocuments := AutoTable.empty.insertAll [sourceOf (some "1")]
  documents := AutoTable.empty.insertAll [⟨1, spreading "Loop" ["Loop"]⟩]
  componentFields := []
  dependencies := [⟨1, "Loop"⟩]
  loadedFrom := by decide
  providedBy := by decide
  dependsFrom := by decide

def editedLoopOrder : FragmentOrder (editedLoop.walk "1") (some "1") := ⟨_, fun _ => Iff.rfl⟩

theorem catches_editedLoop : (editedLoop.walk "1").validateFragmentCycles editedLoopOrder ≠ [] := by
  have holds : editedLoop.Holds 1 (spreading "Loop" ["Loop"]) := ⟨1, by decide⟩
  have only {raw : Nat} {definition : Definition} (found : editedLoop.Holds raw definition) :
      raw = 1 ∧ definition = spreading "Loop" ["Loop"] := by
    obtain ⟨number, member⟩ := found
    simp only [editedLoop, AutoTable.insertAll, AutoTable.empty, AutoTable.numbered,
      List.nil_append, List.mem_singleton, Prod.mk.injEq, DocumentRow.mk.injEq] at member
    exact member.2
  have spreads : editedLoop.Spreads "Loop" "Loop" :=
    ⟨⟨1, _, holds, rfl, rfl, rfl, List.mem_singleton_self _⟩, 1, _, holds, rfl, rfl⟩
  refine Run.catches_of_reached (fun name other spreads => ?_) (.single spreads)
    (mem_reached_iff.mpr ⟨"Loop", by decide, .inl .refl⟩) editedLoopOrder
  obtain ⟨⟨raw, definition, found, _, _, rfl, selected⟩, _⟩ := spreads
  obtain ⟨rfl, rfl⟩ := only found
  obtain rfl : other = "Loop" := by simpa [spreading] using selected
  exact ⟨1, _, rfl, 1, by decide, by decide⟩

/-- `Card` was edited. `List` spreads it, and it spreads one of two fragments that spread each
other. -/
def editedCard : TaskDatabase where
  rawDocuments := AutoTable.empty.insertAll
    [sourceOf (some "1"), sourceOf none, sourceOf none, sourceOf none]
  documents := AutoTable.empty.insertAll [⟨1, spreading "Card" []⟩,
    ⟨2, spreading "List" ["Card", "Left"]⟩, ⟨3, spreading "Left" ["Right"]⟩,
    ⟨4, spreading "Right" ["Left"]⟩]
  componentFields := []
  dependencies := [⟨2, "Card"⟩, ⟨2, "Left"⟩, ⟨3, "Right"⟩, ⟨4, "Left"⟩]
  loadedFrom := by decide
  providedBy := by decide
  dependsFrom := by decide

theorem holds_editedCard {raw : Nat} {definition : Definition}
    (holds : editedCard.Holds raw definition) :
    (raw = 1 ∧ definition = spreading "Card" []) ∨
      (raw = 2 ∧ definition = spreading "List" ["Card", "Left"]) ∨
      (raw = 3 ∧ definition = spreading "Left" ["Right"]) ∨
      (raw = 4 ∧ definition = spreading "Right" ["Left"]) := by
  obtain ⟨number, member⟩ := holds
  simp only [editedCard, AutoTable.insertAll, AutoTable.empty, AutoTable.numbered, List.nil_append,
    List.mem_cons, Prod.mk.injEq, DocumentRow.mk.injEq, List.not_mem_nil, or_false] at member
  rcases member with first | second | third | last
  · exact .inl first.2
  · exact .inr (.inl second.2)
  · exact .inr (.inr (.inl third.2))
  · exact .inr (.inr (.inr last.2))

theorem depends_editedCard {name other : String} (depends : editedCard.Depends name other) :
    name ≠ "Card" ∧ (other = "Card" ∨ other = "List" → name = "List") := by
  obtain ⟨raw, definition, rfl, number, member, row⟩ := depends
  simp only [editedCard, AutoTable.insertAll, AutoTable.empty, AutoTable.numbered, List.nil_append,
    List.mem_cons, Prod.mk.injEq, DocumentRow.mk.injEq, Dependency.mk.injEq, List.not_mem_nil,
    or_false] at member row
  rcases member with ⟨rfl, _, rfl⟩ | ⟨rfl, _, rfl⟩ | ⟨rfl, _, rfl⟩ | ⟨rfl, _, rfl⟩
  · simp at row
  · simp [spreading]
  · have target : other = "Right" := by simpa using row
    simp [target, spreading]
  · have target : other = "Left" := by simpa using row
    simp [target, spreading]

theorem reached_editedCard {name : String} :
    name ∈ editedCard.reached "1" ↔ name = "Card" ∨ name = "List" := by
  have seed : editedCard.seed "1" = ["Card"] := by decide
  rw [mem_reached_iff, seed]
  constructor
  · intro found
    obtain ⟨origin, isSeed, either⟩ := found
    rw [List.mem_singleton] at isSeed
    subst isSeed
    cases either with
    | inl up =>
        induction up using Relation.ReflTransGen.head_induction_on with
        | refl => exact .inl rfl
        | head depends _ ih => exact .inr ((depends_editedCard depends).2 ih)
    | inr down =>
        obtain same | ⟨_, depends, _⟩ := down.cases_head
        · exact .inl same.symm
        · exact absurd rfl (depends_editedCard depends).1
  · intro either
    refine ⟨"Card", List.mem_singleton.mpr rfl, .inl ?_⟩
    cases either with
    | inl card => rw [card]
    | inr list =>
        rw [list]
        exact .single ⟨2, spreading "List" ["Card", "Left"], rfl, 2, by decide, by decide⟩

theorem spreadsIn_editedCard {name other : String}
    (spreads : (editedCard.walk "1").SpreadsIn (some "1") name other) :
    name = "List" ∧ other ≠ "List" := by
  obtain ⟨⟨raw, definition, holds, _, inTask, rfl, selected⟩, _⟩ := spreads
  have reached : definition.name = "Card" ∨ definition.name = "List" := by
    obtain ⟨entry, row, same⟩ := inTask_iff.mp inTask
    obtain ⟨member, marked⟩ := List.mem_filter.mp row
    obtain ⟨before, known, outcome⟩ := mem_walk_iff.mp member
    dsimp only at same
    rw [same] at known outcome
    rcases outcome with ⟨⟨found, foundHolds, isReached⟩, _⟩ | ⟨_, unmarked⟩
    · rw [reached_editedCard] at isReached
      rcases holds_editedCard holds with ⟨rfl, rfl⟩ | ⟨rfl, rfl⟩ | ⟨rfl, rfl⟩ | ⟨rfl, rfl⟩
      · exact .inl rfl
      · exact .inr rfl
      · rcases holds_editedCard foundHolds with other | other | other | other
        · cases other.1
        · cases other.1
        · rw [other.2] at isReached
          simp [spreading] at isReached
        · cases other.1
      · rcases holds_editedCard foundHolds with other | other | other | other
        · cases other.1
        · cases other.1
        · cases other.1
        · rw [other.2] at isReached
          simp [spreading] at isReached
    · rw [unmarked] at marked
      simp only [editedCard, AutoTable.insertAll, AutoTable.empty, AutoTable.numbered,
        List.nil_append, List.mem_cons, Prod.mk.injEq, List.not_mem_nil, or_false] at known
      rcases holds_editedCard holds with ⟨rfl, rfl⟩ | ⟨rfl, rfl⟩ | ⟨rfl, rfl⟩ | ⟨rfl, rfl⟩
      · exact .inl rfl
      · exact .inr rfl
      · obtain rfl : before = sourceOf none := by simpa using known
        cases marked
      · obtain rfl : before = sourceOf none := by simpa using known
        cases marked
  rcases holds_editedCard holds with ⟨rfl, rfl⟩ | ⟨rfl, rfl⟩ | ⟨rfl, rfl⟩ | ⟨rfl, rfl⟩
  · simp [spreading] at selected
  · refine ⟨rfl, fun same => ?_⟩
    rw [same] at selected
    simp [spreading] at selected
  · simp [spreading] at reached
  · simp [spreading] at reached

/-- The two fragments are not in the task, so that nothing is reported. -/
theorem editedCard_not_caught : ¬ ∀ run : Run, run.Catches := by
  intro claim
  have caught := (Run.catches_iff (.chosen editedCard "1")).mp (claim _)
  have spreads : ∀ raw definition target targetRaw targetDefinition,
      (raw, ⟨raw, definition⟩) ∈ editedCard.documents.entries → definition.isFragment = true →
      SelectedItem.fragment target ∈ definition.selections →
      (targetRaw, ⟨targetRaw, targetDefinition⟩) ∈ editedCard.documents.entries →
      targetDefinition.isFragment = true → targetDefinition.name = target →
      (editedCard.walk "1").Spreads definition.name target := by
    intro raw definition target targetRaw targetDefinition member kind selected isTarget targetKind
      named
    exact ⟨⟨raw, definition, ⟨raw, member⟩, kind, inTask_none _ member, rfl, selected⟩,
      targetRaw, targetDefinition, ⟨targetRaw, isTarget⟩, targetKind, named⟩
  have left := spreads 3 (spreading "Left" ["Right"]) "Right" 4 (spreading "Right" ["Left"])
    (by decide) rfl (by decide) (by decide) rfl rfl
  have right := spreads 4 (spreading "Right" ["Left"]) "Left" 3 (spreading "Left" ["Right"])
    (by decide) rfl (by decide) (by decide) rfl rfl
  have list := spreads 2 (spreading "List" ["Card", "Left"]) "Left" 3 (spreading "Left" ["Right"])
    (by decide) rfl (by decide) (by decide) rfl rfl
  have holds : editedCard.Holds 2 (spreading "List" ["Card", "Left"]) := ⟨2, by decide⟩
  have has : (Run.chosen editedCard "1").Has "List" :=
    ⟨2, spreading "List" ["Card", "Left"], holds, rfl,
      inTask_walk holds (reached_editedCard.mpr (.inr rfl)), rfl⟩
  obtain ⟨name, closed⟩ := caught ⟨"List", "Left", has, .single list, .head left (.single right)⟩
  obtain ⟨_, first, _⟩ := Relation.TransGen.head'_iff.mp closed
  obtain ⟨_, _, last⟩ := Relation.TransGen.tail'_iff.mp closed
  exact (spreadsIn_editedCard last).2 (spreadsIn_editedCard first).1

end TaskDatabase

end Houdini.Vite
