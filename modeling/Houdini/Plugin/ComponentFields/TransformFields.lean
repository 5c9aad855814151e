import Houdini.Data.LeftJoin
import Houdini.Plugin.Database.Tables

/-! Component fields become spreads of their fragments, with the arguments of the field. -/

set_option autoImplicit false

namespace Houdini.Plugin.ComponentFields

def withDirective : String := "with"

structure ComponentField where
  typeField : Option String
  fragment : Option String
  deriving DecidableEq

def arguments (tables : Tables) (selection document : Nat) : List (String × Nat) :=
  (tables.selectionArguments.entries.filter fun entry =>
    entry.2.selection = selection ∧ entry.2.document = document).map
      fun entry => (entry.2.name, entry.2.value)

def isWith (tables : Tables) (selection number : Nat) : Bool :=
  tables.selectionDirectives.entries.any fun entry =>
    entry.1 = number ∧ entry.2 = ⟨selection, withDirective⟩

def withArguments (tables : Tables) (selection document : Nat) : List (String × Nat) :=
  (tables.selectionDirectiveArguments.entries.filter fun entry =>
    entry.2.document = document ∧ isWith tables selection entry.2.parent).map
      fun entry => (entry.2.name, entry.2.value)

def Owned (tables : Tables) : Prop :=
  ∀ entry ∈ tables.selectionDirectiveArguments.entries,
    entry.2.parent ∈ tables.selectionDirectives.entries.map Prod.fst

/-- What the transformation reads. A document without a source has no state. The foreign keys of the
tables hold. -/
structure Project where
  tables : Tables
  componentFields : List ComponentField
  states : Nat → Option DocumentState
  task : Option String
  owned : Owned tables
  valued : ∀ entry ∈ tables.selectionArguments.entries,
    entry.2.value ∈ tables.argumentValues.entries.map Prod.fst

namespace Project

variable (project : Project)

abbrev Join := ComponentField × Nat
abbrev Row := Join × Option (String × Nat)

def inTask (document : Nat) : Bool :=
  (project.states document).any (DocumentState.isPending project.task)

def matching (selection : StoredSelection) : List ComponentField :=
  project.componentFields.filter fun field =>
    selection.type.isSome ∧ field.typeField = selection.type

def references (selection : Nat) : List Nat :=
  (project.tables.selectionRefs.entries.filter fun entry => entry.2.child = selection).map
    fun entry => entry.2.document

def joins (entry : Nat × StoredSelection) : List Join :=
  (project.matching entry.2).flatMap fun field =>
    ((project.references entry.1).filter project.inTask).map fun document => (field, document)

/-- The rows of the group of a selection. Without arguments a join has one row. -/
def rows (entry : Nat × StoredSelection) : List Row :=
  leftJoin (project.joins entry) fun join => arguments project.tables entry.1 join.2

end Project

open Project

/-- What the database is free in: the order in which it aggregates the rows of a group, and the row
that the columns come from that are not aggregated. -/
structure Grouping where
  order : Nat → List Row → List Row
  permutes : ∀ selection rows, (order selection rows).Perm rows
  bare : Nat → List Row → Option Row
  bare_mem : ∀ selection rows row, bare selection rows = some row → row ∈ rows
  bare_isSome : ∀ selection rows, rows ≠ [] → (bare selection rows).isSome

structure Result where
  tables : Tables
  failed : Bool := false

def spread (fragment : String) (selection : StoredSelection) : StoredSelection :=
  { selection with kind := .fragment, fieldName := fragment, aliased := none, type := none }

def convertToSpread (tables : Tables) (id : Nat) (fragment : String) : Tables :=
  { tables with
    selections := tables.selections.updateAt fun other selection =>
      if other = id then spread fragment selection else selection }

def deleteArguments (tables : Tables) (id : Nat) : Tables :=
  { tables with
    selectionArguments := tables.selectionArguments.filter fun entry => entry.2.selection ≠ id }

/-- Insert arguments of a directive until the value of one is missing. -/
def insertArguments (values : List Nat) (parent document : Nat) :
    List (String × Nat) → AutoTable SelectionDirectiveArgument →
      AutoTable SelectionDirectiveArgument × Bool
  | [], table => (table, false)
  | arg :: rest, table =>
      if arg.2 ∈ values then
        insertArguments values parent document rest (table.insert ⟨parent, arg.1, arg.2, document⟩)
      else (table, true)

def Project.Row.parsed (row : Row) : String × Nat := row.2.getD ("", 0)

def addWith (tables : Tables) (id document : Nat) (args : List (String × Nat)) : Result :=
  let inserted := insertArguments (tables.argumentValues.entries.map Prod.fst)
    tables.selectionDirectives.next document args tables.selectionDirectiveArguments
  { tables :=
      { tables with
        selectionDirectives := tables.selectionDirectives.insert ⟨id, withDirective⟩
        selectionDirectiveArguments := inserted.1 }
    failed := inserted.2 }

def transformField (tables : Tables) (id : Nat) (row : Row) (args : List (String × Nat)) :
    Result :=
  let converted := convertToSpread tables id (row.1.1.fragment.getD "")
  if row.2.isNone then { tables := converted }
  else addWith (deleteArguments converted id) id row.1.2 args

namespace Project

variable (project : Project)

def step (grouping : Grouping) (result : Result) (entry : Nat × StoredSelection) : Result :=
  match grouping.bare entry.1 (project.rows entry) with
  | none => result
  | some row =>
      let transformed := transformField result.tables entry.1 row
        ((grouping.order entry.1 (project.rows entry)).map Row.parsed)
      { transformed with failed := result.failed || transformed.failed }

def transformFields (grouping : Grouping) : Result :=
  project.tables.selections.entries.foldl (project.step grouping) { tables := project.tables }

/-- The transformation goes through, and every selection of a component field that a document
refers to is a spread of the fragment then, with exactly the arguments of the field in that
document. -/
def Spreads (result : Result) : Prop :=
  result.failed = false ∧
    ∀ entry ∈ project.tables.selections.entries,
      project.matching entry.2 ≠ [] → project.references entry.1 ≠ [] →
        (∃ field ∈ project.matching entry.2,
          (entry.1, spread (field.fragment.getD "") entry.2) ∈ result.tables.selections.entries) ∧
        ∀ document ∈ project.references entry.1,
          (withArguments result.tables entry.1 document).Perm
            (arguments project.tables entry.1 document)

/-- A selection that is joined once, or has no arguments where it is joined. Documents that are not
looked at hold its arguments already. -/
structure Single (entry : Nat × StoredSelection) : Prop where
  joined : project.joins entry ≠ []
  settled : ∀ document ∈ project.references entry.1, project.inTask document = false →
    (withArguments project.tables entry.1 document).Perm (arguments project.tables entry.1 document)
  once : (∃ join, project.joins entry = [join] ∧ withArguments project.tables entry.1 join.2 = []) ∨
    ∀ join ∈ project.joins entry, arguments project.tables entry.1 join.2 = [] ∧
      withArguments project.tables entry.1 join.2 = []

end Project

theorem insertArguments_entries (values : List Nat) (parent document : Nat)
    (args : List (String × Nat)) (table : AutoTable SelectionDirectiveArgument) :
    ∃ added,
      (insertArguments values parent document args table).1.entries = table.entries ++ added ∧
      (∀ entry ∈ added, entry.2.parent = parent ∧ entry.2.document = document) ∧
      ((insertArguments values parent document args table).2 = false →
        added.map (fun entry => (entry.2.name, entry.2.value)) = args) := by
  induction args generalizing table with
  | nil => exact ⟨[], by simp [insertArguments], by simp, fun _ => rfl⟩
  | cons arg rest ih =>
      by_cases found : arg.2 ∈ values
      · obtain ⟨added, same, owned, all⟩ := ih (table.insert ⟨parent, arg.1, arg.2, document⟩)
        rw [insertArguments, if_pos found]
        refine ⟨(table.next, ⟨parent, arg.1, arg.2, document⟩) :: added, ?_, ?_, fun passed => ?_⟩
        · rw [same, AutoTable.entries_insert, List.append_assoc]
          rfl
        · intro entry member
          rcases List.mem_cons.mp member with rfl | later
          · exact ⟨rfl, rfl⟩
          · exact owned entry later
        · rw [List.map_cons, all passed]
      · rw [insertArguments, if_neg found]
        exact ⟨[], by simp, by simp, fun passed => absurd passed (by simp)⟩

theorem insertArguments_passes {values : List Nat} (parent document : Nat)
    {args : List (String × Nat)} (table : AutoTable SelectionDirectiveArgument)
    (valued : ∀ arg ∈ args, arg.2 ∈ values) :
    (insertArguments values parent document args table).2 = false := by
  induction args generalizing table with
  | nil => rfl
  | cons arg rest ih =>
      rw [insertArguments, if_pos (valued arg List.mem_cons_self)]
      exact ih _ fun other member => valued other (List.mem_cons_of_mem _ member)

/-- A group adds nothing to the arguments but to those of its selection in the document of the row,
where it adds all of them unless it fails. -/
theorem withArguments_addWith {tables : Tables} (owned : Owned tables) (id document : Nat)
    (args : List (String × Nat)) :
    Owned (addWith tables id document args).tables ∧
      (∀ selection other, ¬ (selection = id ∧ other = document) →
        withArguments (addWith tables id document args).tables selection other =
          withArguments tables selection other) ∧
      ((addWith tables id document args).failed = false →
        withArguments (addWith tables id document args).tables id document =
          withArguments tables id document ++ args) := by
  obtain ⟨added, same, own, all⟩ := insertArguments_entries
    (tables.argumentValues.entries.map Prod.fst) tables.selectionDirectives.next document args
    tables.selectionDirectiveArguments
  have older : ∀ selection, ∀ entry ∈ tables.selectionDirectiveArguments.entries,
      isWith (addWith tables id document args).tables selection entry.2.parent =
        isWith tables selection entry.2.parent := by
    intro selection entry member
    obtain ⟨directive, present, number⟩ := List.mem_map.mp (owned entry member)
    have below := tables.selectionDirectives.below directive present
    have other : tables.selectionDirectives.next ≠ entry.2.parent := by omega
    simp [isWith, addWith, other]
  have newer : ∀ selection, ∀ entry ∈ added,
      isWith (addWith tables id document args).tables selection entry.2.parent =
        decide (id = selection) := by
    intro selection entry member
    rw [(own entry member).1]
    have fresh : ∀ directive ∈ tables.selectionDirectives.entries,
        directive.1 ≠ tables.selectionDirectives.next := by
      intro directive present
      exact Nat.ne_of_lt (tables.selectionDirectives.below directive present)
    have none : (tables.selectionDirectives.entries.any fun directive =>
        decide (directive.1 = tables.selectionDirectives.next ∧
          directive.2 = ⟨selection, withDirective⟩)) = false := by
      rw [List.any_eq_false]
      intro directive present
      simp [fresh directive present]
    simp only [isWith, addWith, AutoTable.entries_insert, List.any_append, none, Bool.false_or]
    simp
  have parts : ∀ selection other,
      withArguments (addWith tables id document args).tables selection other =
        withArguments tables selection other ++
          (added.filter fun entry => entry.2.document = other ∧ id = selection).map
            fun entry => (entry.2.name, entry.2.value) := by
    intro selection other
    rw [withArguments, withArguments, ← List.map_append]
    congr 1
    show ((insertArguments _ _ _ _ _).1.entries.filter _) = _
    rw [same, List.filter_append]
    congr 1
    · refine List.filter_congr fun entry member => ?_
      rw [older selection entry member]
    · refine List.filter_congr fun entry member => ?_
      rw [newer selection entry member]
      simp
  refine ⟨?_, ?_, ?_⟩
  · intro entry member
    have split : entry ∈ tables.selectionDirectiveArguments.entries ++ added := same ▸ member
    rw [addWith, AutoTable.entries_insert, List.map_append]
    rcases List.mem_append.mp split with before | fresh
    · exact List.mem_append_left _ (owned entry before)
    · exact List.mem_append_right _ (by simp [(own entry fresh).1])
  · intro selection other apart
    rw [parts, List.filter_eq_nil_iff.mpr, List.map_nil, List.append_nil]
    intro entry member both
    have fits := of_decide_eq_true both
    exact apart ⟨fits.2.symm, fits.1.symm.trans (own entry member).2⟩
  · intro passed
    rw [parts, List.filter_eq_self.mpr, all passed]
    intro entry member
    exact decide_eq_true ⟨(own entry member).2, rfl⟩

end Houdini.Plugin.ComponentFields
