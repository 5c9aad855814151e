import Houdini.Data.RecursiveQuery
import Houdini.Plugin.Database.Tables
import Mathlib.Logic.Relation

/-! Which operations on lists need a target. A list below another one is there once for each of its
parents. -/

set_option autoImplicit false

namespace Houdini.Plugin.Lists

def paginationDirective : String := "paginate"
def listDirective : String := "list"
def allListsDirective : String := "allLists"
def parentIDDirective : String := "parentID"

def operationSuffixes : List String := ["_insert", "_toggle", "_remove", "_upsert", "_update"]

/-- What the validation reads. A field has modifiers if the schema has it, and those of a list have
a bracket. -/
structure Project where
  tables : Tables
  typeModifiers : String → Option String
  inTask : Nat → Bool
  defaultListTarget : String

variable (project : Project)

namespace Project

def namedLists (kind : DocumentKind) : List (Nat × String) :=
  (project.tables.selectionDirectives.entries.filter fun sd =>
      sd.2.directive ∈ [paginationDirective, listDirective]).flatMap fun sd =>
    (project.tables.selections.entries.filter fun s => s.1 = sd.2.owner).flatMap fun s =>
      (project.tables.selectionRefs.entries.filter fun sr => sr.2.child = s.1).flatMap fun sr =>
        (project.tables.documents.entries.filter fun doc =>
            doc.1 = sr.2.document ∧ doc.2.kind = kind).flatMap fun _ =>
          (project.tables.selectionDirectiveArguments.entries.filter fun da =>
              da.2.parent = sd.1 ∧ da.2.name = "name").flatMap fun da =>
            (project.tables.argumentValues.entries.filter fun value =>
              value.1 = da.2.value).map fun value => (s.1, value.2.raw)

structure ParentRow where
  id : Nat
  hasMatch : Bool
  listName : String
  depth : Nat
  path : List Nat
  deriving DecidableEq

def firstRow (list : Nat × String) : ParentRow := ⟨list.1, false, list.2, 1, [list.1]⟩

/-- The step of the recursive query, from a selection to its parents. It joins the parents with
the fields of the schema, which leaves out inline fragments. -/
def parentRows (row : ParentRow) : List ParentRow :=
  if row.hasMatch = false ∧ row.depth < 2 then
    (project.tables.selectionRefs.entries.filter fun sr => sr.2.child = row.id).flatMap fun sr =>
      (project.tables.selections.entries.filter fun p =>
          sr.2.parent = some p.1 ∧ p.1 ∉ row.path).flatMap fun p =>
        ((p.2.type.bind project.typeModifiers).map fun modifiers =>
          (⟨p.1, modifiers.toList.contains ']', row.listName, row.depth + 1,
            row.path ++ [p.1]⟩ : ParentRow)).toList
  else []

def paginationParents : List ParentRow :=
  levels project.parentRows 3 ((project.namedLists .query).map firstRow)

def constrainedLists : List String :=
  (project.paginationParents.filter ParentRow.hasMatch).map ParentRow.listName ++
    (project.namedLists .fragment).map Prod.snd

def Targeted (spread : Nat) : Prop :=
  ∃ sd ∈ project.tables.selectionDirectives.entries, sd.2.owner = spread ∧
    sd.2.directive ∈ [parentIDDirective, allListsDirective]

instance (spread : Nat) : Decidable (project.Targeted spread) :=
  inferInstanceAs (Decidable (∃ sd ∈ _, _))

def spreadsOf (name : String) : List (Nat × Nat) :=
  (project.tables.selections.entries.filter fun f =>
      f.2.fieldName = name ∧ f.2.kind = .fragment).flatMap fun f =>
    (project.tables.selectionRefs.entries.filter fun sr => sr.2.child = f.1).flatMap fun sr =>
      (project.tables.documents.entries.filter fun d =>
        d.1 = sr.2.document ∧ project.inTask d.1).map fun d => (f.1, d.1)

/-- The spreads that are rejected: the name of the list, the spread and its document. -/
def validateParentID : List (String × Nat × Nat) :=
  if project.defaultListTarget = "all" then []
  else
    project.constrainedLists.flatMap fun listName =>
      operationSuffixes.flatMap fun suffix =>
        ((project.spreadsOf (listName ++ suffix)).filter fun spread =>
          ¬ project.Targeted spread.1).map fun spread => (listName, spread)

def message (listName : String) : String := "operations on \"" ++ listName ++ "\" requires a parentID"

def IsParent (child parent : Nat) : Prop :=
  ∃ sr ∈ project.tables.selectionRefs.entries, sr.2.child = child ∧ sr.2.parent = some parent

def IsListField (id : Nat) : Prop :=
  ∃ selection, (id, selection) ∈ project.tables.selections.entries ∧
    ∃ modifiers, selection.type.bind project.typeModifiers = some modifiers ∧
      modifiers.toList.contains ']' = true

def BelowList (id : Nat) : Prop :=
  ∃ ancestor, Relation.TransGen project.IsParent id ancestor ∧ ancestor ≠ id ∧
    project.IsListField ancestor

def InList (id : Nat) : Prop :=
  ∃ parent, project.IsParent id parent ∧ parent ≠ id ∧ project.IsListField parent

def OperationSpread (listName : String) (spread : Nat × Nat) : Prop :=
  ∃ suffix ∈ operationSuffixes, spread ∈ project.spreadsOf (listName ++ suffix)

structure Requires : Prop where
  repeated : ∀ id listName, (id, listName) ∈ project.namedLists .query → project.BelowList id →
    ∀ spread, project.OperationSpread listName spread → ¬ project.Targeted spread.1 →
      (listName, spread) ∈ project.validateParentID
  single : ∀ listName, (∀ id, (id, listName) ∈ project.namedLists .query → ¬ project.BelowList id) →
    (∀ id, (id, listName) ∉ project.namedLists .fragment) →
    ∀ spread, project.OperationSpread listName spread →
      ∀ name, (name, spread) ∉ project.validateParentID

variable {project}

theorem mem_parentRows {row parent : ParentRow} :
    parent ∈ project.parentRows row ↔ row.hasMatch = false ∧ row.depth < 2 ∧
      project.IsParent row.id parent.id ∧ parent.id ∉ row.path ∧
      parent.listName = row.listName ∧ parent.depth = row.depth + 1 ∧
      parent.path = row.path ++ [parent.id] ∧
      ∃ selection, (parent.id, selection) ∈ project.tables.selections.entries ∧
        ∃ modifiers, selection.type.bind project.typeModifiers = some modifiers ∧
          parent.hasMatch = modifiers.toList.contains ']' := by
  rw [parentRows]
  constructor
  · intro member
    split at member
    · next goesOn =>
        obtain ⟨sr, isRef, member⟩ := List.mem_flatMap.mp member
        obtain ⟨p, isSelection, found⟩ := List.mem_flatMap.mp member
        obtain ⟨isRef, child⟩ := List.mem_filter.mp isRef
        obtain ⟨isSelection, filtered⟩ := List.mem_filter.mp isSelection
        rw [decide_eq_true_eq] at child filtered
        obtain ⟨modifiers, typed, rfl⟩ := Option.map_eq_some_iff.mp (Option.mem_toList.mp found)
        exact ⟨goesOn.1, goesOn.2, ⟨sr, isRef, child, filtered.1⟩, filtered.2, rfl, rfl, rfl, p.2,
          isSelection, modifiers, typed, rfl⟩
    · cases member
  · intro conditions
    obtain ⟨open', shallow, ⟨sr, isRef, child, isParent⟩, new, listName, depth, path, selection,
      isSelection, modifiers, typed, hasMatch⟩ := conditions
    rw [if_pos ⟨open', shallow⟩]
    refine List.mem_flatMap.mpr ⟨sr, List.mem_filter.mpr ⟨isRef, decide_eq_true child⟩, ?_⟩
    refine List.mem_flatMap.mpr ⟨(parent.id, selection),
      List.mem_filter.mpr ⟨isSelection, decide_eq_true ⟨isParent, new⟩⟩, ?_⟩
    refine Option.mem_toList.mpr (Option.map_eq_some_iff.mpr ⟨modifiers, typed, ?_⟩)
    obtain ⟨id, found, name, level, way⟩ := parent
    dsimp only at *
    rw [hasMatch, listName, depth, path]

theorem matched_iff {listName : String} :
    (∃ row ∈ project.paginationParents, row.hasMatch = true ∧ row.listName = listName) ↔
      ∃ id, (id, listName) ∈ project.namedLists .query ∧ project.InList id := by
  have first {row : ParentRow} (member : row ∈ (project.namedLists .query).map firstRow) :
      ∃ id name, (id, name) ∈ project.namedLists .query ∧ row = ⟨id, false, name, 1, [id]⟩ := by
    obtain ⟨list, isList, rfl⟩ := List.mem_map.mp member
    exact ⟨list.1, list.2, isList, rfl⟩
  constructor
  · intro found
    obtain ⟨row, member, matched, rfl⟩ := found
    rcases derived_of_mem_levels member with isFirst | ⟨origin, known, derived⟩
    · obtain ⟨id, name, _, rfl⟩ := first isFirst
      cases matched
    · obtain ⟨_, shallow, isParent, new, named, _, _, selection, isSelection, modifiers, typed,
        hasMatch⟩ := mem_parentRows.mp derived
      rcases derived_of_mem_levels known with isFirst | ⟨before, earlier, later⟩
      · obtain ⟨id, name, isList, rfl⟩ := first isFirst
        refine ⟨id, named ▸ isList, row.id, isParent, fun same => new ?_, selection, isSelection,
          modifiers, typed, hasMatch ▸ matched⟩
        rw [same]
        exact List.mem_singleton.mpr rfl
      · obtain ⟨_, _, _, _, _, depth, _⟩ := mem_parentRows.mp later
        have deep : ∀ row ∈ project.paginationParents, 1 ≤ row.depth := by
          refine levels_induction (fun row isFirst => ?_) (fun row deep other derived => ?_) 3
          · obtain ⟨id, name, _, rfl⟩ := first isFirst
            exact Nat.le_refl 1
          · obtain ⟨_, _, _, _, _, deeper, _⟩ := mem_parentRows.mp derived
            omega
        have positive := deep before earlier
        omega
  · intro found
    obtain ⟨id, isList, parent, isParent, different, selection, isSelection, modifiers, typed,
      isListType⟩ := found
    refine ⟨⟨parent, true, listName, 2, [id] ++ [parent]⟩, ?_, rfl, rfl⟩
    refine mem_levels_of_derived (List.mem_map.mpr ⟨(id, listName), isList, rfl⟩)
      (mem_levels_of_mem (mem_parentRows.mpr ?_))
    exact ⟨rfl, Nat.lt_succ_self 1, isParent, by simpa [firstRow] using different, rfl, rfl, rfl,
      selection, isSelection, modifiers, typed, isListType.symm⟩

theorem mem_constrainedLists {listName : String} :
    listName ∈ project.constrainedLists ↔
      (∃ id, (id, listName) ∈ project.namedLists .query ∧ project.InList id) ∨
        ∃ id, (id, listName) ∈ project.namedLists .fragment := by
  rw [constrainedLists, List.mem_append, ← matched_iff]
  refine or_congr ?_ ?_
  · simp [and_assoc]
  · simp

theorem mem_validateParentID {listName : String} {spread : Nat × Nat} :
    (listName, spread) ∈ project.validateParentID ↔ project.defaultListTarget ≠ "all" ∧
      listName ∈ project.constrainedLists ∧ project.OperationSpread listName spread ∧
        ¬ project.Targeted spread.1 := by
  rw [validateParentID]
  by_cases all : project.defaultListTarget = "all"
  · simp [all]
  · rw [if_neg all, List.mem_flatMap]
    constructor
    · intro found
      obtain ⟨name, constrained, member⟩ := found
      obtain ⟨suffix, isSuffix, member⟩ := List.mem_flatMap.mp member
      obtain ⟨other, filtered, same⟩ := List.mem_map.mp member
      obtain ⟨rfl, rfl⟩ := Prod.mk.inj same
      obtain ⟨isSpread, untargeted⟩ := List.mem_filter.mp filtered
      exact ⟨all, constrained, ⟨suffix, isSuffix, isSpread⟩, of_decide_eq_true untargeted⟩
    · intro conditions
      obtain ⟨_, constrained, ⟨suffix, isSuffix, isSpread⟩, untargeted⟩ := conditions
      refine ⟨listName, constrained, List.mem_flatMap.mpr ⟨suffix, isSuffix, ?_⟩⟩
      exact List.mem_map.mpr ⟨spread, List.mem_filter.mpr ⟨isSpread, decide_eq_true untargeted⟩, rfl⟩

theorem length_of_mem_operationSuffixes {suffix : String} (member : suffix ∈ operationSuffixes) :
    suffix.toList.length = 7 := by
  have all : ∀ suffix ∈ operationSuffixes, suffix.toList.length = 7 := by decide +kernel
  exact all suffix member

theorem OperationSpread.listName_eq {spread : Nat × Nat} {listName other : String}
    (first : project.OperationSpread listName spread)
    (second : project.OperationSpread other spread) : listName = other := by
  have named {name : String} (isSpread : spread ∈ project.spreadsOf name) :
      ∃ selection, (spread.1, selection) ∈ project.tables.selections.entries ∧
        selection.fieldName = name := by
    obtain ⟨f, isSelection, member⟩ := List.mem_flatMap.mp isSpread
    obtain ⟨sr, _, member⟩ := List.mem_flatMap.mp member
    obtain ⟨d, _, rfl⟩ := List.mem_map.mp member
    obtain ⟨isSelection, filtered⟩ := List.mem_filter.mp isSelection
    exact ⟨f.2, isSelection, (of_decide_eq_true filtered).1⟩
  obtain ⟨suffix, isSuffix, isSpread⟩ := first
  obtain ⟨otherSuffix, isOther, isOtherSpread⟩ := second
  obtain ⟨selection, known, name⟩ := named isSpread
  obtain ⟨otherSelection, otherKnown, otherName⟩ := named isOtherSpread
  have same := List.inj_on_of_nodup_map project.tables.selections.unique known otherKnown rfl
  cases same
  have texts := congrArg String.toList (name.symm.trans otherName)
  rw [String.toList_append, String.toList_append] at texts
  have lengths : suffix.toList.length = otherSuffix.toList.length := by
    rw [length_of_mem_operationSuffixes isSuffix, length_of_mem_operationSuffixes isOther]
  exact String.toList_injective (List.append_inj' texts lengths).1

theorem InList.belowList {id : Nat} (inList : project.InList id) : project.BelowList id := by
  obtain ⟨parent, isParent, different, isListField⟩ := inList
  exact ⟨parent, .single isParent, different, isListField⟩

/-- The operations that need a target are told by the parents alone, so that no list may be further
below another one than that. -/
theorem requires_iff : (project.defaultListTarget ≠ "all" → project.Requires) ↔
    (project.defaultListTarget ≠ "all" →
      ∀ id listName, (id, listName) ∈ project.namedLists .query → project.BelowList id →
        (∃ spread, project.OperationSpread listName spread ∧ ¬ project.Targeted spread.1) →
        (∃ other, (other, listName) ∈ project.namedLists .query ∧ project.InList other) ∨
          ∃ other, (other, listName) ∈ project.namedLists .fragment) := by
  refine forall_congr' fun notAll => ?_
  constructor
  · intro requires id listName isList below untargeted
    obtain ⟨spread, isSpread, free⟩ := untargeted
    have rejected := requires.repeated id listName isList below spread isSpread free
    exact mem_constrainedLists.mp (mem_validateParentID.mp rejected).2.1
  · intro covered
    constructor
    · intro id listName isList below spread isSpread free
      refine mem_validateParentID.mpr ⟨notAll, mem_constrainedLists.mpr ?_, isSpread, free⟩
      exact covered id listName isList below ⟨spread, isSpread, free⟩
    · intro listName none noFragment spread isSpread name rejected
      obtain ⟨_, constrained, rejectedSpread, _⟩ := mem_validateParentID.mp rejected
      have same := rejectedSpread.listName_eq isSpread
      subst same
      rcases mem_constrainedLists.mp constrained with ⟨id, isList, inList⟩ | ⟨id, isList⟩
      · exact none id isList inList.belowList
      · exact noFragment id isList

/-- `users { best { posts @list(name: "Posts") } }` in a query, and `...Posts_insert` in
a mutation. -/
def usersProject : Project where
  tables := {
    documents := AutoTable.empty.insertAll
      [⟨"Users", .query, none, false⟩, ⟨"AddPost", .mutation, none, false⟩]
    selections := AutoTable.empty.insertAll
      [⟨"users", .field, none, some "Query.users", none, []⟩,
        ⟨"best", .field, none, some "User.best", none, []⟩,
        ⟨"posts", .field, none, some "User.posts", none, []⟩,
        ⟨"addPost", .field, none, some "Mutation.addPost", none, []⟩,
        ⟨"Posts_insert", .fragment, none, none, none, []⟩]
    selectionRefs := AutoTable.empty.insertAll
      [⟨none, 1, 0, 1, false⟩, ⟨some 1, 2, 0, 1, false⟩, ⟨some 2, 3, 0, 1, false⟩,
        ⟨none, 4, 0, 2, false⟩, ⟨some 4, 5, 0, 2, false⟩]
    selectionDirectives := AutoTable.empty.insertAll [⟨3, listDirective⟩]
    selectionDirectiveArguments := AutoTable.empty.insertAll [⟨1, "name", 1, 1⟩]
    argumentValues := AutoTable.empty.insertAll [⟨.string, "Posts", 1⟩] }
  typeModifiers field :=
    if field = "Query.users" ∨ field = "User.posts" then some "]"
    else if field = "User.best" ∨ field = "Mutation.addPost" then some ""
    else none
  inTask _ := true
  defaultListTarget := ""

/-- The operation is accepted without a target. -/
theorem usersProject_accepted :
    ¬ ∀ project : Project, project.defaultListTarget ≠ "all" → project.Requires := by
  intro claim
  have requires := claim usersProject (by decide)
  have isList : (3, "Posts") ∈ usersProject.namedLists .query := by decide +kernel
  have below : usersProject.BelowList 3 := by
    refine ⟨1, .tail (.single ⟨(3, ⟨some 2, 3, 0, 1, false⟩), by decide, rfl, rfl⟩)
      ⟨(2, ⟨some 1, 2, 0, 1, false⟩), by decide, rfl, rfl⟩, by decide, ?_⟩
    exact ⟨⟨"users", .field, none, some "Query.users", none, []⟩, by decide, "]", rfl, by decide⟩
  have isSpread : usersProject.OperationSpread "Posts" (5, 2) :=
    ⟨"_insert", by decide, by decide +kernel⟩
  have rejected := requires.repeated 3 "Posts" isList below (5, 2) isSpread (by decide)
  revert rejected
  decide +kernel

end Project

end Houdini.Plugin.Lists
