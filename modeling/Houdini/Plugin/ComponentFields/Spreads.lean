import Houdini.Plugin.ComponentFields.TransformFields

/-! When component fields keep their arguments. -/

set_option autoImplicit false

namespace Houdini.Plugin.ComponentFields

open Project

theorem mem_convertToSpread_iff {tables : Tables} {id : Nat} {fragment : String}
    {entry : Nat × StoredSelection} :
    entry ∈ (convertToSpread tables id fragment).selections.entries ↔
      ∃ before ∈ tables.selections.entries, entry.1 = before.1 ∧
        entry.2 = if before.1 = id then spread fragment before.2 else before.2 := by
  obtain ⟨number, selection⟩ := entry
  simp only [convertToSpread, AutoTable.updateAt, List.mem_map, Prod.mk.injEq]
  constructor
  · intro changed
    obtain ⟨before, member, number, same⟩ := changed
    exact ⟨before, member, number.symm, same.symm⟩
  · intro changed
    obtain ⟨before, member, number, same⟩ := changed
    exact ⟨before, member, number.symm, same.symm⟩

theorem selections_transformField (tables : Tables) (id : Nat) (row : Row)
    (args : List (String × Nat)) :
    (transformField tables id row args).tables.selections =
      (convertToSpread tables id (row.1.1.fragment.getD "")).selections := by
  unfold transformField
  cases row.2 <;> rfl

theorem argumentValues_transformField (tables : Tables) (id : Nat) (row : Row)
    (args : List (String × Nat)) :
    (transformField tables id row args).tables.argumentValues = tables.argumentValues := by
  unfold transformField
  cases row.2 <;> rfl

theorem transformField_withoutArguments {tables : Tables} {id : Nat} {row : Row}
    {args : List (String × Nat)} (without : row.2 = none) :
    transformField tables id row args =
      { tables := convertToSpread tables id (row.1.1.fragment.getD "") } := by
  simp [transformField, without]

/-- What a group leaves alone, and what it adds if its row has an argument. -/
theorem transformField_spec {tables : Tables} (owned : Owned tables) (id : Nat) (row : Row)
    (args : List (String × Nat)) :
    Owned (transformField tables id row args).tables ∧
      (∀ selection other, ¬ (selection = id ∧ other = row.1.2) →
        withArguments (transformField tables id row args).tables selection other =
          withArguments tables selection other) ∧
      ((transformField tables id row args).failed = false →
        withArguments (transformField tables id row args).tables id row.1.2 =
          withArguments tables id row.1.2 ++ if row.2.isNone then [] else args) := by
  cases without : row.2 with
  | none =>
      rw [transformField_withoutArguments without]
      exact ⟨owned, fun _ _ _ => rfl, fun _ => (List.append_nil _).symm⟩
  | some arg =>
      have same : transformField tables id row args =
          addWith (deleteArguments (convertToSpread tables id (row.1.1.fragment.getD "")) id) id
            row.1.2 args := by
        simp [transformField, without]
      rw [same]
      have kept : Owned
          (deleteArguments (convertToSpread tables id (row.1.1.fragment.getD "")) id) := owned
      exact withArguments_addWith kept id row.1.2 args

namespace Project

variable {project : Project} {grouping : Grouping}

variable (project grouping) in
def run (result : Result) (todo : List (Nat × StoredSelection)) : Result :=
  todo.foldl (project.step grouping) result

theorem bare_eq_none_iff {selection : Nat} {rows : List Row} :
    grouping.bare selection rows = none ↔ rows = [] := by
  constructor
  · intro nothing
    by_contra some
    have present := grouping.bare_isSome selection rows some
    rw [nothing] at present
    exact absurd present Bool.false_ne_true
  · intro empty
    cases found : grouping.bare selection rows with
    | none => rfl
    | some row =>
        have member := grouping.bare_mem selection rows row found
        rw [empty] at member
        exact absurd member List.not_mem_nil

variable (project grouping) in
theorem step_cases (result : Result) (entry : Nat × StoredSelection) :
    (project.rows entry = [] ∧ project.step grouping result entry = result) ∨
    ∃ row ∈ project.rows entry, grouping.bare entry.1 (project.rows entry) = some row ∧
      (project.step grouping result entry).tables = (transformField result.tables entry.1 row
        ((grouping.order entry.1 (project.rows entry)).map Row.parsed)).tables ∧
      (project.step grouping result entry).failed = (result.failed || (transformField result.tables
        entry.1 row ((grouping.order entry.1 (project.rows entry)).map Row.parsed)).failed) := by
  cases found : grouping.bare entry.1 (project.rows entry) with
  | none => exact .inl ⟨bare_eq_none_iff.mp found, by rw [step, found]⟩
  | some row =>
      exact .inr ⟨row, grouping.bare_mem _ _ _ found, rfl, by rw [step, found], by rw [step, found]⟩

variable (project grouping) in
/-- What a group changes does not concern the other selections. -/
theorem step_keeps {result : Result} (owned : Owned result.tables)
    (entry : Nat × StoredSelection) :
    Owned (project.step grouping result entry).tables ∧
      (result.failed = true → (project.step grouping result entry).failed = true) ∧
      (project.step grouping result entry).tables.argumentValues = result.tables.argumentValues ∧
      ∀ selection ≠ entry.1,
        (∀ document, withArguments (project.step grouping result entry).tables selection document =
          withArguments result.tables selection document) ∧
        ∀ row, (selection, row) ∈ (project.step grouping result entry).tables.selections.entries ↔
          (selection, row) ∈ result.tables.selections.entries := by
  obtain ⟨_, same⟩ | ⟨row, _, _, tables, failed⟩ :=
    step_cases project grouping result entry
  · rw [same]
    exact ⟨owned, id, rfl, fun _ _ => ⟨fun _ => rfl, fun _ => Iff.rfl⟩⟩
  · rw [tables, failed]
    obtain ⟨still, frame, _⟩ := transformField_spec owned entry.1 row
      ((grouping.order entry.1 (project.rows entry)).map Row.parsed)
    refine ⟨still, fun already => by rw [already, Bool.true_or],
      argumentValues_transformField _ _ _ _,
      fun selection other => ⟨fun document => ?_, fun kept => ?_⟩⟩
    · exact frame selection document fun both => other both.1
    · rw [selections_transformField, mem_convertToSpread_iff]
      constructor
      · intro changed
        obtain ⟨before, member, number, same⟩ := changed
        simp only at number same
        rw [if_neg (number ▸ other)] at same
        rw [same, number]
        exact member
      · intro member
        exact ⟨(selection, kept), member, rfl, by rw [if_neg other]⟩

variable (project grouping) in
theorem run_keeps (result : Result) (owned : Owned result.tables)
    (todo : List (Nat × StoredSelection)) :
    Owned (project.run grouping result todo).tables ∧
      (result.failed = true → (project.run grouping result todo).failed = true) ∧
      (project.run grouping result todo).tables.argumentValues = result.tables.argumentValues ∧
      ∀ selection ∉ todo.map Prod.fst,
        (∀ document, withArguments (project.run grouping result todo).tables selection document =
          withArguments result.tables selection document) ∧
        ∀ row, (selection, row) ∈ (project.run grouping result todo).tables.selections.entries ↔
          (selection, row) ∈ result.tables.selections.entries := by
  induction todo generalizing result with
  | nil => exact ⟨owned, id, rfl, fun _ _ => ⟨fun _ => rfl, fun _ => Iff.rfl⟩⟩
  | cons entry rest ih =>
      obtain ⟨first, fails, values, others⟩ :=
        step_keeps project grouping owned entry
      obtain ⟨still, failsLater, valuesLater, later⟩ := ih _ first
      refine ⟨still, fun already => failsLater (fails already), valuesLater.trans values,
        fun selection apart => ?_⟩
      rw [List.map_cons, List.mem_cons, not_or] at apart
      obtain ⟨same, rows⟩ := others selection apart.1
      obtain ⟨sameLater, rowsLater⟩ := later selection apart.2
      exact ⟨fun document => (sameLater document).trans (same document),
        fun row => (rowsLater row).trans (rows row)⟩

variable (grouping) in
/-- What the transformation makes of a selection: its own group is all that concerns it. -/
theorem transformFields_own {entry : Nat × StoredSelection}
    (member : entry ∈ project.tables.selections.entries) :
    ∃ result : Result, Owned result.tables ∧
      result.tables.argumentValues = project.tables.argumentValues ∧
      entry ∈ result.tables.selections.entries ∧
      (∀ document, withArguments result.tables entry.1 document =
        withArguments project.tables entry.1 document) ∧
      ((project.transformFields grouping).failed = false →
        (project.step grouping result entry).failed = false) ∧
      (∀ document, withArguments (project.transformFields grouping).tables entry.1 document =
        withArguments (project.step grouping result entry).tables entry.1 document) ∧
      ∀ row, (entry.1, row) ∈ (project.transformFields grouping).tables.selections.entries ↔
        (entry.1, row) ∈ (project.step grouping result entry).tables.selections.entries := by
  obtain ⟨before, after, split⟩ := List.append_of_mem member
  have unique := project.tables.selections.unique
  rw [split, List.map_append, List.map_cons, List.nodup_middle, List.nodup_cons,
    List.mem_append, not_or] at unique
  obtain ⟨owned, _, values, earlier⟩ := run_keeps project grouping
    { tables := project.tables } project.owned before
  obtain ⟨same, rows⟩ := earlier entry.1 unique.1.1
  have whole : project.transformFields grouping = project.run grouping (project.step grouping
      (project.run grouping { tables := project.tables } before) entry) after := by
    rw [transformFields, split]
    exact List.foldl_append
  obtain ⟨next, _⟩ := step_keeps project grouping owned entry
  obtain ⟨_, fails, _, later⟩ := run_keeps project grouping _ next after
  obtain ⟨sameLater, rowsLater⟩ := later entry.1 unique.1.2
  refine ⟨project.run grouping { tables := project.tables } before, owned, values,
    (rows entry.2).mpr member, same, fun passes => ?_, fun document => ?_, fun row => ?_⟩
  · rw [whole] at passes
    by_contra failed
    rw [fails (by simpa using failed)] at passes
    exact absurd passes (by simp)
  · rw [whole]
    exact sameLater document
  · rw [whole]
    exact rowsLater row

/-- A run fails only where a group does. -/
theorem run_passes {todo : List (Nat × StoredSelection)} {result : Result}
    (owned : Owned result.tables) (passed : result.failed = false)
    (steps : ∀ entry ∈ todo, ∀ other : Result,
      other.tables.argumentValues = result.tables.argumentValues → other.failed = false →
        (project.step grouping other entry).failed = false) :
    (project.run grouping result todo).failed = false := by
  induction todo generalizing result with
  | nil => exact passed
  | cons entry rest ih =>
      obtain ⟨next, _, values, _⟩ :=
        step_keeps project grouping owned entry
      refine ih next (steps entry List.mem_cons_self result rfl passed) ?_
      intro other later before same passes
      exact steps other (List.mem_cons_of_mem _ later) before (same.trans values) passes

theorem mem_joins_iff {entry : Nat × StoredSelection} {join : Join} :
    join ∈ project.joins entry ↔ join.1 ∈ project.matching entry.2 ∧
      join.2 ∈ project.references entry.1 ∧ project.inTask join.2 = true := by
  obtain ⟨field, document⟩ := join
  simp [joins]

theorem rows_eq_nil_iff {entry : Nat × StoredSelection} :
    project.rows entry = [] ↔ project.joins entry = [] := by
  constructor
  · intro empty
    have bound := length_le_length_leftJoin (project.joins entry) fun join =>
      arguments project.tables entry.1 join.2
    rw [← rows, empty] at bound
    exact List.length_eq_zero_iff.mp (Nat.le_zero.mp bound)
  · intro empty
    rw [rows, empty]
    rfl

/-- The rows of a group whose only join has arguments are these arguments. -/
theorem rows_of_single {entry : Nat × StoredSelection} {join : Join}
    (single : project.joins entry = [join])
    (some : arguments project.tables entry.1 join.2 ≠ []) :
    (project.rows entry).map Row.parsed = arguments project.tables entry.1 join.2 := by
  rw [rows, single, leftJoin, List.flatMap_cons, List.flatMap_nil, List.append_nil, joinedRows,
    if_neg (by simpa using some), List.map_map]
  exact List.map_id _

theorem bare_cases {entry : Nat × StoredSelection} {row : Row} (member : row ∈ project.rows entry) :
    row.1 ∈ project.joins entry ∧
      (row.2 = none ∧ arguments project.tables entry.1 row.1.2 = [] ∨
        row.2.isNone = false ∧ arguments project.tables entry.1 row.1.2 ≠ []) := by
  obtain ⟨joined, without | ⟨arg, found, same⟩⟩ := mem_leftJoin_iff.mp member
  · exact ⟨joined, .inl without⟩
  · exact ⟨joined, .inr ⟨by rw [same]; rfl, List.ne_nil_of_mem found⟩⟩

/-- The database may take the columns of a group from any of its rows. -/
def favour (selection : Nat) (row : Row) : Grouping where
  order := fun _ rows => rows
  permutes := fun _ _ => List.Perm.refl _
  bare := fun other rows => if other = selection ∧ row ∈ rows then some row else rows.head?
  bare_mem := by
    intro other rows found same
    split at same
    · next both =>
        rw [← Option.some.inj same]
        exact both.2
    · exact List.mem_of_head? same
  bare_isSome := by
    intro other rows some
    split
    · rfl
    · rw [List.isSome_head?]
      simpa using some

/-- The group of a selection, done from the row that the database takes. -/
theorem spreads_own {entry : Nat × StoredSelection}
    (member : entry ∈ project.tables.selections.entries) {row : Row}
    (taken : grouping.bare entry.1 (project.rows entry) = some row) :
    (entry.1, spread (row.1.1.fragment.getD "") entry.2) ∈
        (project.transformFields grouping).tables.selections.entries ∧
      (∀ document ≠ row.1.2,
        withArguments (project.transformFields grouping).tables entry.1 document =
          withArguments project.tables entry.1 document) ∧
      ((project.transformFields grouping).failed = false →
        withArguments (project.transformFields grouping).tables entry.1 row.1.2 =
          withArguments project.tables entry.1 row.1.2 ++ if row.2.isNone then [] else
            (grouping.order entry.1 (project.rows entry)).map Row.parsed) := by
  obtain ⟨result, owned, _, present, same, passes, arguments, rows⟩ :=
    transformFields_own grouping member
  obtain ⟨empty, _⟩ | ⟨other, _, found, tables, failed⟩ :=
    step_cases project grouping result entry
  · rw [bare_eq_none_iff.mpr empty] at taken
    exact absurd taken (by simp)
  · obtain rfl : other = row := Option.some.inj (found.symm.trans taken)
    obtain ⟨_, frame, adds⟩ := transformField_spec owned entry.1 other
      ((grouping.order entry.1 (project.rows entry)).map Row.parsed)
    refine ⟨?_, fun document apart => ?_, fun passed => ?_⟩
    · rw [rows, tables, selections_transformField, mem_convertToSpread_iff]
      exact ⟨entry, present, rfl, by rw [if_pos rfl]⟩
    · rw [arguments, tables, frame entry.1 document fun both => apart both.2, same]
    · have both := failed ▸ passes passed
      rw [Bool.or_eq_false_iff] at both
      rw [arguments, tables, adds both.2, same]

/-- A selection that is not joined stays what it was. -/
theorem kept_of_unjoined {entry : Nat × StoredSelection}
    (member : entry ∈ project.tables.selections.entries) (none : project.joins entry = []) :
    entry ∈ (project.transformFields grouping).tables.selections.entries := by
  obtain ⟨result, _, _, present, _, _, _, rows⟩ :=
    transformFields_own grouping member
  obtain ⟨_, same⟩ | ⟨row, found, _⟩ :=
    step_cases project grouping result entry
  · rw [rows entry.2, same]
    exact present
  · rw [rows_eq_nil_iff.mpr none] at found
    exact absurd found List.not_mem_nil

theorem single_of_spreads
    (spreads : ∀ grouping, project.Spreads (project.transformFields grouping))
    {entry : Nat × StoredSelection} (member : entry ∈ project.tables.selections.entries)
    (isField : project.matching entry.2 ≠ []) (referred : project.references entry.1 ≠ []) :
    project.Single entry := by
  have joined : project.joins entry ≠ [] := by
    intro empty
    obtain ⟨_, all⟩ := spreads (favour 0 ((⟨none, none⟩, 0), none))
    obtain ⟨field, fits, changed⟩ := (all entry member isField referred).1
    have same := AutoTable.eq_of_mem _ changed (kept_of_unjoined member empty) rfl
    have typed := (List.mem_filter.mp fits).2
    rw [← same] at typed
    simp [spread] at typed
  -- Each join may be the one that the database takes.
  have each : ∀ join ∈ project.joins entry,
      withArguments project.tables entry.1 join.2 = [] ∧
        (arguments project.tables entry.1 join.2 = [] ∨ project.joins entry = [join]) ∧
        ∀ document ∈ project.references entry.1, document ≠ join.2 →
          (withArguments project.tables entry.1 document).Perm
            (arguments project.tables entry.1 document) := by
    intro join isJoin
    obtain ⟨row, isRow, of, parts⟩ : ∃ row ∈ project.rows entry, row.1 = join ∧
        (row.2 = none ↔ arguments project.tables entry.1 join.2 = []) := by
      cases found : arguments project.tables entry.1 join.2 with
      | nil => exact ⟨(join, none), mem_leftJoin_iff.mpr ⟨isJoin, .inl ⟨rfl, found⟩⟩, rfl, by simp⟩
      | cons arg rest =>
          refine ⟨(join, some arg), ?_, rfl, by simp⟩
          refine mem_leftJoin_iff.mpr ⟨isJoin, .inr ⟨arg, ?_, rfl⟩⟩
          rw [found]
          exact List.mem_cons_self
    subst of
    have taken : (favour entry.1 row).bare entry.1 (project.rows entry) = some row :=
      if_pos ⟨rfl, isRow⟩
    obtain ⟨_, others, own⟩ := spreads_own member taken
    obtain ⟨passed, all⟩ := spreads (favour entry.1 row)
    have perms := (all entry member isField referred).2
    have inDocument := (mem_joins_iff.mp isJoin).2.1
    have perm := perms row.1.2 inDocument
    rw [own passed] at perm
    have bound := length_leftJoin_of_mem
      (fun join : Join => arguments project.tables entry.1 join.2) isJoin
    rw [← rows] at bound
    refine ⟨?_, ?_, fun document present apart => ?_⟩
    · cases without : row.2 with
      | none =>
          rw [without, parts.mp without] at perm
          simpa using perm
      | some arg =>
          have length := perm.length_eq
          rw [without] at length
          have whole := (favour entry.1 row).permutes entry.1 (project.rows entry)
          simp only [Option.isNone_some, Bool.false_eq_true, if_false, List.length_append,
            List.length_map, whole.length_eq] at length
          have positive := List.length_pos_iff.mpr joined
          exact List.length_eq_zero_iff.mp (by omega)
    · cases without : row.2 with
      | none => exact .inl (parts.mp without)
      | some arg =>
          have length := perm.length_eq
          rw [without] at length
          have whole := (favour entry.1 row).permutes entry.1 (project.rows entry)
          simp only [Option.isNone_some, Bool.false_eq_true, if_false, List.length_append,
            List.length_map, whole.length_eq] at length
          obtain ⟨other, only⟩ : ∃ other, project.joins entry = [other] := by
            have positive := List.length_pos_iff.mpr joined
            exact List.length_eq_one_iff.mp (by omega)
          rw [only] at isJoin ⊢
          rw [List.mem_singleton.mp isJoin]
          exact .inr rfl
    · rw [← others document apart]
      exact perms document present
  obtain ⟨first, isFirst⟩ := List.exists_mem_of_ne_nil _ joined
  refine ⟨joined, fun document present outside => ?_, ?_⟩
  · refine (each first isFirst).2.2 document present ?_
    intro same
    have inside := (mem_joins_iff.mp isFirst).2.2
    rw [← same, outside] at inside
    exact absurd inside Bool.false_ne_true
  · by_cases single : ∃ join, project.joins entry = [join]
    · obtain ⟨join, only⟩ := single
      exact .inl ⟨join, only, (each join (only ▸ List.mem_cons_self)).1⟩
    · refine .inr fun join isJoin => ⟨?_, (each join isJoin).1⟩
      exact (each join isJoin).2.1.resolve_right fun only => single ⟨join, only⟩

variable (grouping) in
theorem transformFields_passes
    (single : ∀ entry ∈ project.tables.selections.entries, project.matching entry.2 ≠ [] →
      project.references entry.1 ≠ [] → project.Single entry) :
    (project.transformFields grouping).failed = false := by
  refine run_passes project.owned rfl fun entry member result values passed => ?_
  obtain ⟨_, same⟩ | ⟨row, isRow, _, _, failed⟩ :=
    step_cases project grouping result entry
  · rw [same]
    exact passed
  · rw [failed, passed, Bool.false_or]
    obtain ⟨isJoin, parts⟩ := bare_cases isRow
    obtain ⟨isField, present, _⟩ := mem_joins_iff.mp isJoin
    rcases parts with ⟨without, _⟩ | ⟨given, arguments⟩
    · rw [transformField_withoutArguments without]
    · rcases (single entry member (List.ne_nil_of_mem isField) (List.ne_nil_of_mem present)).once
        with ⟨join, only, _⟩ | nothing
      · obtain rfl : row.1 = join := List.mem_singleton.mp (only ▸ isJoin)
        rw [transformField, if_neg (by rw [given]; exact Bool.false_ne_true)]
        refine insertArguments_passes _ _ _ fun arg isArg => ?_
        obtain ⟨other, ordered, rfl⟩ := List.mem_map.mp isArg
        have inRows := (grouping.permutes entry.1 (project.rows entry)).mem_iff.mp ordered
        have inArguments : Row.parsed other ∈ (project.rows entry).map Row.parsed :=
          List.mem_map.mpr ⟨other, inRows, rfl⟩
        rw [rows_of_single only arguments] at inArguments
        obtain ⟨stored, ofStored, same⟩ := List.mem_map.mp inArguments
        have valued := project.valued stored (List.mem_of_mem_filter ofStored)
        rw [← same]
        have kept : result.tables.argumentValues = project.tables.argumentValues := values
        show stored.2.value ∈ result.tables.argumentValues.entries.map Prod.fst
        rw [kept]
        exact valued
      · exact absurd (nothing row.1 isJoin).1 arguments

/-- The transformation makes spreads with the right arguments of all component fields, whatever the
database does, if and only if each of them is referred to once or has no arguments. -/
theorem spreads_iff :
    (∀ grouping, project.Spreads (project.transformFields grouping)) ↔
      ∀ entry ∈ project.tables.selections.entries, project.matching entry.2 ≠ [] →
        project.references entry.1 ≠ [] → project.Single entry := by
  constructor
  · intro spreads entry member isField referred
    exact single_of_spreads spreads member isField referred
  · intro single grouping
    have passed := transformFields_passes grouping single
    refine ⟨passed, fun entry member isField referred => ?_⟩
    have one := single entry member isField referred
    have some := grouping.bare_isSome entry.1 (project.rows entry)
      fun empty => one.joined (rows_eq_nil_iff.mp empty)
    obtain ⟨row, taken⟩ := Option.isSome_iff_exists.mp some
    obtain ⟨isSpread, others, own⟩ := spreads_own member taken
    obtain ⟨isJoin, parts⟩ := bare_cases (grouping.bare_mem _ _ _ taken)
    refine ⟨⟨row.1.1, (mem_joins_iff.mp isJoin).1, isSpread⟩, fun document present => ?_⟩
    by_cases inTask : project.inTask document = true
    · have isOther : (row.1.1, document) ∈ project.joins entry :=
        mem_joins_iff.mpr ⟨(mem_joins_iff.mp isJoin).1, present, inTask⟩
      rcases one.once with ⟨join, only, fresh⟩ | nothing
      · rw [only] at isJoin isOther
        obtain rfl : row.1 = join := List.mem_singleton.mp isJoin
        obtain rfl : document = row.1.2 :=
          congrArg Prod.snd (List.mem_singleton.mp isOther)
        rw [own passed, fresh, List.nil_append]
        rcases parts with ⟨without, empty⟩ | ⟨given, arguments⟩
        · rw [without, empty]
          exact List.Perm.refl _
        · rw [given, if_neg Bool.false_ne_true, ← rows_of_single only arguments]
          exact (grouping.permutes entry.1 (project.rows entry)).map _
      · obtain ⟨empty, fresh⟩ := nothing _ isOther
        rw [empty]
        by_cases same : document = row.1.2
        · subst same
          rcases parts with ⟨without, _⟩ | ⟨_, arguments⟩
          · rw [own passed, without, fresh]
            exact List.Perm.refl _
          · exact absurd empty arguments
        · rw [others document same, fresh]
    · have outside : project.inTask document = false := by simpa using inTask
      have apart : document ≠ row.1.2 := by
        intro same
        rw [same] at inTask
        exact inTask (mem_joins_iff.mp isJoin).2.2
      rw [others document apart]
      exact one.settled document present outside

end Project

/-- A query and the fragment of its list refer to one selection, with the same argument. -/
def avatarTables : Tables where
  documents := .insertAll .empty [⟨"AllUsers", .query, none, false⟩,
    ⟨"All_Users_insert", .fragment, some "User", true⟩]
  selections := .insertAll .empty [⟨"avatar", .field, none, some "User.avatar", none, []⟩]
  selectionRefs := .insertAll .empty [⟨none, 1, 0, 1, false⟩, ⟨none, 1, 0, 2, false⟩]
  argumentValues := .insertAll .empty [⟨.int, "50", 1⟩, ⟨.int, "50", 2⟩]
  selectionArguments := .insertAll .empty [⟨1, 1, "size", 1⟩, ⟨1, 2, "size", 2⟩]

def avatarProject : Project where
  tables := avatarTables
  componentFields := [⟨some "User.avatar", some "UserAvatar"⟩]
  states := fun _ => some {}
  task := none
  owned := by
    intro entry member
    exact absurd member List.not_mem_nil
  valued := by decide

/-- One of the documents has both arguments then, and the other one has none. -/
theorem avatarProject_not_spread :
    ¬ ∀ grouping, avatarProject.Spreads (avatarProject.transformFields grouping) := by
  intro spreads
  have single := (spreads (Project.favour 1 ((⟨none, none⟩, 0), none))).2
    (1, ⟨"avatar", .field, none, some "User.avatar", none, []⟩) (by decide) (by decide) (by decide)
  have perm := single.2 2 (by decide)
  exact absurd perm.length_eq (by decide)

end Houdini.Plugin.ComponentFields
