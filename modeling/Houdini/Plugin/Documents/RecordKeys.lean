import Houdini.Plugin.Documents.AddFields

/-! When every record that a document selects carries its identity. -/

set_option autoImplicit false

namespace Houdini.Plugin.AddFields

theorem foldl_insertKey (rows : List KeyRow) (tables : Tables) :
    (rows.foldl insertKey tables).selections.entries = tables.selections.entries ++
        AutoTable.numbered tables.selections.next (rows.map KeyRow.selection) ∧
      (rows.foldl insertKey tables).selectionRefs.entries = tables.selectionRefs.entries ++
        AutoTable.numbered tables.selectionRefs.next
          ((AutoTable.numbered tables.selections.next rows).map fun row => row.2.ref row.1) ∧
      (rows.foldl insertKey tables).selectionDirectives = tables.selectionDirectives := by
  induction rows generalizing tables with
  | nil =>
      exact ⟨(List.append_nil _).symm, (List.append_nil _).symm, rfl⟩
  | cons row rest ih =>
      obtain ⟨selections, refs, directives⟩ := ih (insertKey tables row)
      refine ⟨?_, ?_, directives⟩
      · rw [List.foldl_cons, selections, insertKey, AutoTable.entries_insert, List.append_assoc]
        rfl
      · rw [List.foldl_cons, refs, insertKey, AutoTable.entries_insert, List.append_assoc]
        rfl

theorem eq_of_mem_numbered {Row : Type} {next : Nat} {rows : List Row} (unique : rows.Nodup)
    {entry other : Nat × Row} (member : entry ∈ AutoTable.numbered next rows)
    (otherMember : other ∈ AutoTable.numbered next rows) (same : entry.2 = other.2) :
    entry = other := by
  have values : ((AutoTable.numbered next rows).map Prod.snd).Nodup := by
    rw [AutoTable.map_snd_numbered]
    exact unique
  exact List.inj_on_of_nodup_map values member otherMember same

namespace Project

variable {project : Project}

def numberedRows (project : Project) : List (Nat × KeyRow) :=
  AutoTable.numbered project.tables.selections.next project.candidates

theorem exists_numbered {row : KeyRow} (member : row ∈ project.candidates) :
    ∃ entry ∈ project.numberedRows, entry.2 = row := by
  rw [← AutoTable.map_snd_numbered project.tables.selections.next project.candidates] at member
  exact List.mem_map.mp member

theorem candidate_of_numbered {entry : Nat × KeyRow} (member : entry ∈ project.numberedRows) :
    entry.2 ∈ project.candidates := by
  rw [← AutoTable.map_snd_numbered project.tables.selections.next project.candidates]
  exact List.mem_map_of_mem member

theorem mem_selections_iff {entry : Nat × StoredSelection} :
    entry ∈ project.addDocumentFields.selections.entries ↔
      entry ∈ project.tables.selections.entries ∨
        ∃ row ∈ project.numberedRows, entry = (row.1, row.2.selection) := by
  rw [addDocumentFields, (foldl_insertKey _ _).1, List.mem_append, AutoTable.numbered_map,
    List.mem_map, numberedRows]
  simp only [eq_comm]

theorem mem_refs_iff {ref : Nat × SelectionRef} :
    ref ∈ project.addDocumentFields.selectionRefs.entries ↔
      ref ∈ project.tables.selectionRefs.entries ∨
        ref ∈ AutoTable.numbered project.tables.selectionRefs.next
          (project.numberedRows.map fun row => row.2.ref row.1) := by
  rw [addDocumentFields, (foldl_insertKey _ _).2.1, List.mem_append, numberedRows]

theorem directives_addDocumentFields :
    project.addDocumentFields.selectionDirectives = project.tables.selectionDirectives :=
  (foldl_insertKey _ _).2.2

theorem row_of_newRef {ref : Nat × SelectionRef}
    (member : ref ∈ AutoTable.numbered project.tables.selectionRefs.next
      (project.numberedRows.map fun row => row.2.ref row.1)) :
    ∃ row ∈ project.numberedRows, ref.2 = row.2.ref row.1 := by
  have among := List.mem_map_of_mem (f := Prod.snd) member
  rw [AutoTable.map_snd_numbered] at among
  obtain ⟨row, isRow, same⟩ := List.mem_map.mp among
  exact ⟨row, isRow, same.symm⟩

theorem next_le_of_numbered {entry : Nat × KeyRow} (member : entry ∈ project.numberedRows) :
    project.tables.selections.next ≤ entry.1 :=
  (AutoTable.bounds_of_mem_numbered member).1

theorem lt_next_of_key {number : Nat}
    (known : number ∈ project.tables.selections.entries.map Prod.fst) :
    number < project.tables.selections.next := by
  obtain ⟨entry, member, rfl⟩ := List.mem_map.mp known
  exact project.tables.selections.below entry member

/-- The selection that a row was inserted with is its own. -/
theorem selection_of_numbered {row : Nat × KeyRow} (member : row ∈ project.numberedRows)
    {selection : StoredSelection}
    (stored : (row.1, selection) ∈ project.addDocumentFields.selections.entries) :
    selection = row.2.selection := by
  have own : (row.1, row.2.selection) ∈ project.addDocumentFields.selections.entries :=
    mem_selections_iff.mpr (.inr ⟨row, member, rfl⟩)
  exact congrArg Prod.snd (AutoTable.eq_of_mem _ stored own rfl)

theorem conditional_iff (id : Nat) :
    Conditional project.addDocumentFields id ↔ Conditional project.tables id := by
  rw [Conditional, Conditional, directives_addDocumentFields]

/-- A set selects a key if it did so before, or if the key was added. -/
theorem selects_iff {set : SelectionSet} {key : String} :
    Selects project.addDocumentFields set key ↔
      Selects project.tables set key ∨
        ∃ row ∈ project.candidates, row.set = set ∧ row.key = key := by
  constructor
  · intro selects
    obtain ⟨ref, member, parent, document, unconditional, selection, stored, isKey⟩ := selects
    rcases mem_refs_iff.mp member with old | new
    · refine .inl ⟨ref, old, parent, document, ?_, selection, ?_, isKey⟩
      · exact fun conditional => unconditional ((conditional_iff _).mpr conditional)
      · rcases mem_selections_iff.mp stored with before | ⟨row, isRow, same⟩
        · exact before
        · have below := lt_next_of_key (project.children ref old)
          have above := next_le_of_numbered isRow
          rw [← congrArg Prod.fst same] at above
          exact absurd below (Nat.not_lt.mpr above)
    · obtain ⟨row, isRow, same⟩ := row_of_newRef new
      rw [same] at stored parent document
      have own := selection_of_numbered isRow stored
      refine .inr ⟨row.2, candidate_of_numbered isRow, ?_, ?_⟩
      · cases set
        simp only [KeyRow.ref] at parent document
        rw [← parent, ← document]
      · rw [← isKey.name, own]
        rfl
  · intro found
    rcases found with before | ⟨row, member, rfl, rfl⟩
    · obtain ⟨ref, member, parent, document, unconditional, selection, stored, isKey⟩ := before
      refine ⟨ref, mem_refs_iff.mpr (.inl member), parent, document, ?_, selection,
        mem_selections_iff.mpr (.inl stored), isKey⟩
      exact fun conditional => unconditional ((conditional_iff _).mp conditional)
    · obtain ⟨entry, isEntry, rfl⟩ := exists_numbered member
      have isRef : entry.2.ref entry.1 ∈ project.numberedRows.map fun row => row.2.ref row.1 :=
        List.mem_map_of_mem isEntry
      rw [← AutoTable.map_snd_numbered project.tables.selectionRefs.next
        (project.numberedRows.map fun row => row.2.ref row.1)] at isRef
      obtain ⟨ref, isNew, same⟩ := List.mem_map.mp isRef
      refine ⟨ref, mem_refs_iff.mpr (.inr isNew), by rw [same]; rfl, by rw [same]; rfl, ?_,
        entry.2.selection, ?_, ⟨rfl, rfl, rfl⟩⟩
      · rw [conditional_iff, same]
        intro conditional
        obtain ⟨directive, stored, owner, _⟩ := conditional
        have below := lt_next_of_key (project.owners directive stored)
        have above := next_le_of_numbered isEntry
        rw [owner] at below
        exact absurd below (Nat.not_lt.mpr above)
      · rw [same]
        exact mem_selections_iff.mpr (.inr ⟨entry, isEntry, rfl⟩)

theorem mem_base_iff {set : SelectionSet} {type : String} :
    (set, type) ∈ project.base ↔
      (∃ ref ∈ project.tables.selectionRefs.entries,
        ref.2.parent = set.parent ∧ ref.2.document = set.document) ∧
      project.parentType set = some type ∧ project.isPending set.document = true ∧
        ∃ operation, project.types type = some operation ∧
          (operation.isNone || project.isFragmentRoot set) = true := by
  have rows : ∀ other, project.baseRow other = some (set, type) ↔ other = set ∧
      project.parentType set = some type ∧ project.isPending set.document = true ∧
        ∃ operation, project.types type = some operation ∧
          (operation.isNone || project.isFragmentRoot set) = true := by
    intro other
    simp only [baseRow, Option.bind_eq_some_iff, Option.ite_none_right_eq_some, Bool.and_eq_true,
      Option.some.injEq, Prod.mk.injEq]
    constructor
    · intro found
      obtain ⟨_, parent, operation, ofType, parts, rfl, rfl⟩ := found
      exact ⟨rfl, parent, parts.2, operation, ofType, parts.1⟩
    · intro found
      obtain ⟨rfl, parent, pending, operation, ofType, fits⟩ := found
      exact ⟨type, parent, operation, ofType, ⟨fits, pending⟩, rfl, rfl⟩
  rw [base, List.mem_dedup, List.mem_filterMap]
  simp only [rows]
  constructor
  · intro found
    obtain ⟨ref, member, same, parts⟩ := found
    rw [← same]
    rw [← same] at parts
    exact ⟨⟨ref, member, rfl, rfl⟩, parts⟩
  · intro found
    obtain ⟨⟨ref, member, parent, document⟩, parts⟩ := found
    refine ⟨ref, member, ?_, parts⟩
    rw [parent, document]

theorem mem_candidates_iff {row : KeyRow} :
    row ∈ project.candidates ↔ (row.set, row.parentType) ∈ project.base ∧
      row.key ∈ project.keysOf row.parentType ∧
        project.isFieldOf row.parentType row.key = true ∧
          (row.set, some row.key) ∉ project.existing := by
  rw [candidates, List.mem_filter, keysUnion, List.mem_dedup, List.mem_flatMap, Bool.and_eq_true,
    decide_eq_true_iff]
  constructor
  · intro found
    obtain ⟨⟨⟨set, type⟩, isBase, isRow⟩, fits⟩ := found
    obtain ⟨key, isKey, rfl⟩ := List.mem_map.mp isRow
    exact ⟨isBase, isKey, fits⟩
  · intro found
    obtain ⟨isBase, isKey, fits⟩ := found
    exact ⟨⟨_, isBase, List.mem_map.mpr ⟨row.key, isKey, rfl⟩⟩, fits⟩

theorem parentType_of_stored {id : Nat} {selection : StoredSelection} (document : Nat)
    (stored : (id, selection) ∈ project.tables.selections.entries) :
    project.parentType ⟨some id, document⟩ =
      if selection.kind = .inlineFragment then some selection.fieldName
      else selection.type.bind project.fieldType := by
  have found := (AutoTable.row?_eq_some_iff _).mpr stored
  show (project.tables.selections.row? id).bind _ = _
  rw [found]
  rfl

/-- The type of a set is what the query takes for it, unless it is that of an inline fragment
without a type. -/
theorem SetType.parentType {set : SelectionSet} {type : String} (typed : project.SetType set type) :
    project.parentType set = some type ∨ project.parentType set = some "" := by
  cases typed with
  | root stored isFragment on =>
      have found := (AutoTable.row?_eq_some_iff _).mpr stored
      refine .inl ?_
      show (project.tables.documents.row? _).bind _ = _
      rw [found]
      exact (if_pos isFragment).trans on
  | field stored isField of =>
      refine .inl ((parentType_of_stored _ stored).trans ((if_neg ?_).trans of))
      rw [isField]
      exact fun same => by cases same
  | typed stored isInline named =>
      exact .inl ((parentType_of_stored _ stored).trans (if_pos isInline))
  | untyped stored isInline unnamed referred isChild around =>
      refine .inr ((parentType_of_stored _ stored).trans ((if_pos isInline).trans ?_))
      exact congrArg some unnamed

theorem exists_candidate_iff {set : SelectionSet} {type : String} (isSet : project.IsSet set type)
    {key : String} (isKey : key ∈ project.keysOf type) (fits : project.isFieldOf type key = true) :
    (∃ row ∈ project.candidates, row.set = set ∧ row.key = key) ↔
      (set, some key) ∉ project.existing ∧ project.parentType set = some type ∧
        project.isPending set.document = true := by
  constructor
  · intro found
    obtain ⟨row, member, rfl, rfl⟩ := found
    obtain ⟨isBase, _, _, fresh⟩ := mem_candidates_iff.mp member
    obtain ⟨_, parent, pending, operation, known, _⟩ := mem_base_iff.mp isBase
    refine ⟨fresh, ?_, pending⟩
    rcases isSet.typed.parentType with same | unnamed
    · exact same
    · rw [unnamed] at parent
      rw [← Option.some.inj parent, project.unnamed] at known
      cases known
  · intro parts
    refine ⟨⟨key, type, set⟩, mem_candidates_iff.mpr ⟨?_, isKey, fits, parts.1⟩, rfl, rfl⟩
    exact mem_base_iff.mpr ⟨isSet.filled, parts.2.1, parts.2.2, none, isSet.record, rfl⟩

theorem row_of_added {set : SelectionSet} {key : String} {ref : Nat × SelectionRef}
    (added : project.Added project.addDocumentFields set key ref) :
    ref ∈ AutoTable.numbered project.tables.selectionRefs.next
        (project.numberedRows.map fun row => row.2.ref row.1) ∧
      ∃ row ∈ project.numberedRows, ref.2 = row.2.ref row.1 ∧ row.2.set = set ∧
        row.2.key = key := by
  have new := (mem_refs_iff.mp added.present).resolve_left added.fresh
  obtain ⟨row, isRow, same⟩ := row_of_newRef new
  obtain ⟨selection, stored, name⟩ := added.named
  have parent := added.parent
  have document := added.document
  rw [same] at stored parent document
  refine ⟨new, row, isRow, same, ?_, ?_⟩
  · cases set
    simp only [KeyRow.ref] at parent document
    rw [← parent, ← document]
  · rw [← name, selection_of_numbered isRow stored]
    rfl

theorem added_once {set : SelectionSet} {key : String} {ref other : Nat × SelectionRef}
    (added : project.Added project.addDocumentFields set key ref)
    (otherAdded : project.Added project.addDocumentFields set key other) : ref = other := by
  obtain ⟨new, row, isRow, same, ofSet, ofKey⟩ := row_of_added added
  obtain ⟨otherNew, otherRow, isOther, otherSame, otherSet, otherKey⟩ := row_of_added otherAdded
  have parents : row.2.parentType = otherRow.2.parentType := by
    have parent := (mem_base_iff.mp (mem_candidates_iff.mp (candidate_of_numbered isRow)).1).2.1
    have otherParent :=
      (mem_base_iff.mp (mem_candidates_iff.mp (candidate_of_numbered isOther)).1).2.1
    rw [ofSet] at parent
    rw [otherSet, parent] at otherParent
    exact Option.some.inj otherParent
  have rows : row.2 = otherRow.2 := by
    obtain ⟨_, ⟨rowKey, rowType, rowSet⟩⟩ := row
    obtain ⟨_, ⟨nextKey, nextType, nextSet⟩⟩ := otherRow
    simp only at ofSet ofKey otherSet otherKey parents
    rw [ofSet, ofKey, otherSet, otherKey, parents]
  have unique : project.candidates.Nodup := (List.nodup_dedup _).filter _
  have entries := eq_of_mem_numbered unique isRow isOther rows
  have refs : (project.numberedRows.map fun row => row.2.ref row.1).Nodup := by
    have numbers := AutoTable.nodup_numbered project.tables.selections.next project.candidates
    refine List.Nodup.of_map SelectionRef.child ?_
    rw [List.map_map]
    exact numbers
  refine eq_of_mem_numbered refs new otherNew ?_
  rw [same, otherSame, entries]

/-- Every record carries its identity if and only if each key of a set is selected already, or is
the alias of none of its fields and the query comes to the set. -/
theorem identifies_iff :
    project.Identifies project.addDocumentFields ↔
      ∀ set type, project.IsSet set type → ∀ key ∈ project.keysOf type,
        project.isFieldOf type key = true → project.Suited set type key := by
  have step : ∀ set type, project.IsSet set type → ∀ key ∈ project.keysOf type,
      project.isFieldOf type key = true →
        (Selects project.addDocumentFields set key ↔ project.Suited set type key) := by
    intro set type isSet key isKey fits
    rw [selects_iff, exists_candidate_iff isSet isKey fits, Suited]
  constructor
  · intro identifies set type isSet key isKey fits
    have selects := identifies.selected set type isSet key isKey fits
    exact (step set type isSet key isKey fits).mp selects
  · intro suited
    refine ⟨fun set type isSet key isKey fits => ?_, fun _ _ _ _ => added_once, ?_, ?_,
      directives_addDocumentFields⟩
    · exact (step set type isSet key isKey fits).mpr (suited set type isSet key isKey fits)
    · exact fun entry member => mem_selections_iff.mpr (.inl member)
    · exact fun ref member => mem_refs_iff.mpr (.inl member)

end Project

/-- A query with the selection `user { id @include(if: $flag) }`. -/
def flaggedProject : Project where
  tables :=
    { documents := .insertAll .empty [⟨"UserInfo", .query, none, false⟩]
      selections := .insertAll .empty [⟨"user", .field, some "user", some "Query.user", none, []⟩,
        ⟨"id", .field, some "id", some "User.id", none, []⟩]
      selectionRefs := .insertAll .empty [⟨none, 1, 0, 1, false⟩, ⟨some 1, 2, 0, 1, false⟩]
      selectionDirectives := .insertAll .empty [⟨2, "include"⟩] }
  types := fun type => if type = "User" then some none
    else if type = "Query" then some (some "query") else none
  fieldType := fun field => if field = "Query.user" then some "User" else none
  hasField := fun type field => type = "User" && field = "id"
  defaultKeys := ["id"]
  typeConfigs := []
  states := fun _ => some {}
  task := none
  unnamed := by decide
  children := by decide
  owners := by decide

/-- The key counts as selected, and is not there without the flag. -/
theorem flaggedProject_not_identified :
    ¬ flaggedProject.Identifies flaggedProject.addDocumentFields := by
  intro identifies
  have isSet : flaggedProject.IsSet ⟨some 1, 1⟩ "User" := by
    have stored : (1, ⟨"user", .field, some "user", some "Query.user", none, []⟩) ∈
        flaggedProject.tables.selections.entries := by
      decide
    exact ⟨by decide, .field stored rfl (by decide), by decide⟩
  obtain ⟨ref, _, _, _, unconditional, selection, stored, isKey⟩ :=
    identifies.selected _ _ isSet "id" (by decide) (by decide)
  have ids : ∀ entry ∈ flaggedProject.addDocumentFields.selections.entries,
      entry.2.fieldName = "id" → entry.1 = 2 := by
    decide
  have isID : ref.2.child = 2 := ids _ stored isKey.name
  rw [isID] at unconditional
  exact unconditional ⟨(1, ⟨2, "include"⟩), by decide, rfl, by decide⟩

end Houdini.Plugin.AddFields
