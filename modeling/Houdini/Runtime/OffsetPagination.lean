import Houdini.Runtime.Pagination

/-! Offset pagination through a list that does not change: which of its items are
displayed after some pages were loaded. -/

set_option autoImplicit false

namespace Houdini.Runtime

structure OffsetSpec extends RefetchSpec where
  offset : Option Nat

/-- The list of the server. Entries with equal nodes are the same for an update, which
looks up the `id` of the record that the `node` field of an entry links to. -/
structure OffsetList where
  items : List GraphQLValue
  node : GraphQLValue → Option GraphQLValue

/-- What a document displays and the variables its store holds. -/
structure OffsetPages where
  vars : OffsetVariables
  items : List GraphQLValue
  deriving DecidableEq

/-- The `append` update: entries with a node of the new page are left out of the old ones. -/
def OffsetList.append (list : OffsetList) (oldItems newItems : List GraphQLValue) :
    List GraphQLValue :=
  (oldItems.filter fun item =>
    match list.node item with
    | none => true
    | some node => decide (node ∉ newItems.filterMap list.node)) ++ newItems

def OffsetList.slice (list : OffsetList) (offset limit : Nat) : List GraphQLValue :=
  (list.items.drop offset).take limit

namespace OffsetPages

variable (spec : OffsetSpec) (list : OffsetList)

def limit (vars : OffsetVariables) : Nat := vars.limit.getD spec.pageSize

def start (vars : OffsetVariables) : Nat := vars.offset.getD (spec.offset.getD 0)

def respond (vars : OffsetVariables) : List GraphQLValue :=
  list.slice (start spec vars) (limit spec vars)

def initial (vars : OffsetVariables) : OffsetPages where
  vars
  items := respond spec list vars

def data (pages : OffsetPages) : GraphQLValue := (GraphQLValue.array pages.items).nest spec.path

/-- `loadNextPage` with default arguments. A single page is fetched under the new variables,
the others are added to what the store has for its own. -/
def loadNext (pages : OffsetPages) : Option OffsetPages :=
  match loadNextOffset spec.print (pages.data spec) pages.vars false none none with
  | .error _ => none
  | .ok none => some pages
  | .ok (some vars) =>
      match spec.mode with
      | .singlePage => some { vars, items := respond spec list vars }
      | .infinite => some { pages with items := list.append pages.items (respond spec list vars) }

def loadPages (pages : OffsetPages) : Nat → Option OffsetPages
  | 0 => some pages
  | count + 1 => (pages.loadPages count).bind (loadNext spec list)

def expected (vars : OffsetVariables) (count : Nat) : List GraphQLValue :=
  match spec.mode with
  | .infinite => list.slice (start spec vars) ((count + 1) * limit spec vars)
  | .singlePage => list.slice (start spec vars + count * limit spec vars) (limit spec vars)

def Shows (vars : OffsetVariables) (count : Nat) : Prop :=
  ∃ pages, (initial spec list vars).loadPages spec list count = some pages ∧
    pages.items = expected spec list vars count

def NodesApart (size : Nat) : Prop :=
  ∀ count, ∀ old ∈ list.slice 0 (count * size), ∀ new ∈ list.slice (count * size) size,
    ∀ node, list.node old = some node → list.node new ≠ some node

/-- The offset that the handler computes is the one of the next page. It knows neither where
an infinite list started nor an offset that only the document gives. A start at which the
list is over does no harm if the first page would be empty as well. -/
def InStep (vars : OffsetVariables) : Prop :=
  (match spec.mode with
    | .infinite => start spec vars = 0 ∧ NodesApart list (limit spec vars)
    | .singlePage => vars.offset.getD 0 = start spec vars) ∨
  list.items.length ≤ start spec vars ∧ list.items.length ≤ spec.pageSize

end OffsetPages

namespace OffsetList

variable {list : OffsetList} {offset offset' limit : Nat}

theorem length_slice :
    (list.slice offset limit).length = min limit (list.items.length - offset) := by
  rw [slice, List.length_take, List.length_drop]

theorem slice_of_le (beyond : list.items.length ≤ offset) : list.slice offset limit = [] := by
  rw [slice, List.drop_eq_nil_of_le beyond, List.take_nil]

theorem slice_append (count : Nat) :
    list.slice offset count ++ list.slice (offset + count) limit =
      list.slice offset (count + limit) := by
  simp only [slice]
  rw [List.take_add, List.drop_drop]

/-- Counting what is shown leads to the next page, or to an offset that is past the end
like it. -/
theorem counted_offset (shown pageSize : Nat) (positive : 0 < shown) :
    orElse (min shown (list.items.length - offset)) pageSize + offset = offset + shown ∨
      list.items.length ≤ offset + shown ∧
        list.items.length ≤
          orElse (min shown (list.items.length - offset)) pageSize + offset := by
  by_cases full : offset + shown ≤ list.items.length
  · have counted : min shown (list.items.length - offset) = shown := by omega
    rw [counted, orElse, if_neg (Nat.ne_of_gt positive), Nat.add_comm]
    exact .inl rfl
  · have counted : min shown (list.items.length - offset) = list.items.length - offset := by omega
    rw [counted, orElse]
    refine .inr ⟨by omega, ?_⟩
    split <;> omega

theorem slice_of_eq_or_le
    (either : offset = offset' ∨ list.items.length ≤ offset' ∧ list.items.length ≤ offset) :
    list.slice offset limit = list.slice offset' limit := by
  rcases either with rfl | ⟨beyond', beyond⟩
  · rfl
  · rw [slice_of_le beyond, slice_of_le beyond']

theorem slice_inj (distinct : list.items.Nodup) (positive : 0 < limit)
    (same : list.slice offset limit = list.slice offset' limit) :
    offset = offset' ∨ list.items.length ≤ offset ∧ list.items.length ≤ offset' := by
  have first : ∀ start, (list.slice start limit)[0]? = list.items[start]? := by
    intro start
    rw [slice, List.getElem?_take_of_lt positive, List.getElem?_drop, Nat.add_zero]
  have found : list.items[offset]? = list.items[offset']? := by
    rw [← first, ← first, same]
  by_cases inside : offset < list.items.length
  · exact .inl ((List.getElem?_inj inside distinct).mp found)
  · have beyond : list.items.length ≤ offset := Nat.le_of_not_lt inside
    rw [List.getElem?_eq_none beyond] at found
    exact .inr ⟨beyond, List.getElem?_eq_none_iff.mp found.symm⟩

/-- An offset that forgets where the list started only shows the next page of a list that
is over there. -/
theorem over_of_slice_eq (distinct : list.items.Nodup) (positive : 0 < limit) (pageSize : Nat)
    (started : offset ≠ 0)
    (same : list.slice (orElse (min limit (list.items.length - offset)) pageSize) limit =
      list.slice (offset + limit) limit) :
    list.items.length ≤ offset ∧ list.items.length ≤ pageSize := by
  have either := slice_inj distinct positive same
  by_cases beyond : list.items.length ≤ offset
  · have nothing : min limit (list.items.length - offset) = 0 := by omega
    rw [nothing, orElse, if_pos rfl] at either
    exact ⟨beyond, by omega⟩
  · have something : min limit (list.items.length - offset) ≠ 0 := by omega
    rw [orElse, if_neg something] at either
    omega

theorem mem_items_of_mem_slice {item : GraphQLValue} (member : item ∈ list.slice offset limit) :
    item ∈ list.items :=
  List.mem_of_mem_drop (List.mem_of_mem_take member)

theorem append_of_apart {oldItems newItems : List GraphQLValue}
    (apart : ∀ old ∈ oldItems, ∀ new ∈ newItems, ∀ node,
      list.node old = some node → list.node new ≠ some node) :
    list.append oldItems newItems = oldItems ++ newItems := by
  have kept : oldItems.filter (fun item =>
      match list.node item with
      | none => true
      | some node => decide (node ∉ newItems.filterMap list.node)) = oldItems := by
    rw [List.filter_eq_self]
    intro old member
    cases found : list.node old with
    | none => rfl
    | some node =>
        simp only [decide_eq_true_eq]
        intro shared
        obtain ⟨new, newMember, same⟩ := List.mem_filterMap.mp shared
        exact apart old member new newMember node found same
  rw [append, kept]

theorem append_nil (oldItems : List GraphQLValue) : list.append oldItems [] = oldItems := by
  rw [append_of_apart (by intro _ _ _ impossible; cases impossible), List.append_nil]

end OffsetList

namespace OffsetPages

section Steps

variable {spec : OffsetSpec} {list : OffsetList} {pages : OffsetPages} {vars : OffsetVariables}

theorem nextOffset_eq :
    nextOffset spec.print (pages.data spec) pages.vars =
      match spec.mode with
      | .singlePage => orElse pages.items.length spec.pageSize + pages.vars.offset.getD 0
      | .infinite => orElse pages.items.length spec.pageSize := by
  have counted : countPage spec.path (pages.data spec) = pages.items.length :=
    countPage_nest pages.items spec.path_ne_nil
  unfold nextOffset
  have path : spec.print.path = spec.path := rfl
  rw [path, counted]
  rfl

private theorem loadNextOffset_eq (positive : 0 < limit spec pages.vars) :
    loadNextOffset spec.print (pages.data spec) pages.vars false none none =
      .ok (some { limit := pages.vars.limit,
                  offset := some (nextOffset spec.print (pages.data spec) pages.vars) }) := by
  have given : ¬ (pages.vars.limit.getD 0 = 0 ∧ spec.print.pageSize = 0) := by
    rintro ⟨noLimit, noSize⟩
    have size : spec.pageSize = 0 := noSize
    unfold limit at positive
    cases h : pages.vars.limit with
    | none =>
        rw [h, size] at positive
        exact absurd positive (Nat.lt_irrefl 0)
    | some count =>
        rw [h] at positive noLimit
        exact absurd noLimit (Nat.ne_of_gt positive)
  unfold loadNextOffset
  simp only [Bool.false_eq_true, ↓reduceIte, Option.getD_none]
  exact if_neg given

theorem loadNext_infinite (infinite : spec.mode = .infinite)
    (positive : 0 < limit spec pages.vars) :
    pages.loadNext spec list = some
      { pages with
        items := list.append pages.items
          (list.slice (orElse pages.items.length spec.pageSize) (limit spec pages.vars)) } := by
  unfold loadNext
  rw [loadNextOffset_eq positive, nextOffset_eq]
  simp only [infinite]
  rfl

theorem loadNext_singlePage (single : spec.mode = .singlePage)
    (positive : 0 < limit spec pages.vars) :
    pages.loadNext spec list =
      let offset := orElse pages.items.length spec.pageSize + pages.vars.offset.getD 0
      some
        { vars := { limit := pages.vars.limit, offset := some offset }
          items := list.slice offset (limit spec pages.vars) } := by
  unfold loadNext
  rw [loadNextOffset_eq positive, nextOffset_eq]
  simp only [single]
  rfl

private theorem loadPages_infinite (infinite : spec.mode = .infinite)
    (positive : 0 < limit spec vars) (atStart : start spec vars = 0)
    (apart : NodesApart list (limit spec vars)) (count : Nat) :
    (initial spec list vars).loadPages spec list count =
      some { vars, items := list.slice 0 ((count + 1) * limit spec vars) } := by
  induction count with
  | zero =>
      rw [Nat.zero_add, Nat.one_mul]
      simp only [loadPages, initial, respond, atStart]
  | succ count ih =>
      let size := limit spec vars
      rw [loadPages, ih, Option.bind_some, loadNext_infinite infinite positive]
      simp only [Option.some.injEq, mk.injEq, true_and]
      have added : list.slice (orElse (list.slice 0 ((count + 1) * size)).length spec.pageSize)
          size = list.slice ((count + 1) * size) size := by
        have counted := @OffsetList.counted_offset list 0 ((count + 1) * size) spec.pageSize
          (Nat.mul_pos (Nat.succ_pos count) positive)
        rw [Nat.zero_add, Nat.add_zero] at counted
        rw [OffsetList.length_slice]
        exact OffsetList.slice_of_eq_or_le counted
      change list.append (list.slice 0 ((count + 1) * size)) (list.slice _ size) = _
      rw [added, OffsetList.append_of_apart (apart (count + 1)), Nat.succ_mul (count + 1)]
      have joined := @OffsetList.slice_append list 0 size ((count + 1) * size)
      rw [Nat.zero_add] at joined
      exact joined

private theorem loadPages_infinite_over (infinite : spec.mode = .infinite)
    (positive : 0 < limit spec vars) (beyond : list.items.length ≤ start spec vars)
    (overPage : list.items.length ≤ spec.pageSize) (count : Nat) :
    (initial spec list vars).loadPages spec list count = some { vars, items := [] } := by
  induction count with
  | zero =>
      have empty : respond spec list vars = [] := OffsetList.slice_of_le beyond
      simp only [loadPages, initial, empty]
  | succ count ih =>
      rw [loadPages, ih, Option.bind_some, loadNext_infinite infinite positive]
      have nothing : list.slice (orElse ([] : List GraphQLValue).length spec.pageSize)
          (limit spec vars) = [] := OffsetList.slice_of_le overPage
      simp only [nothing, OffsetList.append_nil]

/-- The variables have the offset of the page, or the list is over there and for what the
handler asks for next. -/
private def AtPage (spec : OffsetSpec) (list : OffsetList) (vars : OffsetVariables)
    (pages : OffsetPages) (offset : Nat) : Prop :=
  pages.vars.limit = vars.limit ∧ pages.items = list.slice offset (limit spec vars) ∧
    (pages.vars.offset.getD 0 = offset ∨
      list.items.length ≤ offset ∧
        list.items.length ≤ orElse pages.items.length spec.pageSize + pages.vars.offset.getD 0)

private theorem AtPage.loadNext (single : spec.mode = .singlePage)
    (positive : 0 < limit spec vars) {offset : Nat} (atPage : AtPage spec list vars pages offset) :
    ∃ next, pages.loadNext spec list = some next ∧
      AtPage spec list vars next (offset + limit spec vars) := by
  obtain ⟨sameLimit, shown, tracked⟩ := atPage
  have size : limit spec pages.vars = limit spec vars := by rw [limit, limit, sameLimit]
  -- The offset that the handler asks for.
  have asked : orElse pages.items.length spec.pageSize + pages.vars.offset.getD 0 =
        offset + limit spec vars ∨
      list.items.length ≤ offset + limit spec vars ∧
        list.items.length ≤ orElse pages.items.length spec.pageSize + pages.vars.offset.getD 0 := by
    cases tracked with
    | inl tracked =>
        rw [tracked, shown, OffsetList.length_slice]
        exact OffsetList.counted_offset _ _ positive
    | inr beyond => exact .inr ⟨Nat.le_trans beyond.1 (Nat.le_add_right _ _), beyond.2⟩
  refine ⟨_, loadNext_singlePage single (size ▸ positive), sameLimit, ?_, ?_⟩
  · rw [size]
    exact OffsetList.slice_of_eq_or_le asked
  · refine asked.imp_right fun beyond => ⟨beyond.1, ?_⟩
    exact Nat.le_trans beyond.2 (Nat.le_add_left _ _)

private theorem loadPages_singlePage (single : spec.mode = .singlePage)
    (positive : 0 < limit spec vars)
    (first : AtPage spec list vars (initial spec list vars) (start spec vars)) (count : Nat) :
    ∃ pages, (initial spec list vars).loadPages spec list count = some pages ∧
      AtPage spec list vars pages (start spec vars + count * limit spec vars) := by
  induction count with
  | zero =>
      rw [Nat.zero_mul, Nat.add_zero]
      exact ⟨_, rfl, first⟩
  | succ count ih =>
      obtain ⟨pages, loaded, atPage⟩ := ih
      obtain ⟨next, step, atNext⟩ := atPage.loadNext single positive
      refine ⟨next, ?_, ?_⟩
      · rw [loadPages, loaded]
        exact step
      · rw [Nat.succ_mul, ← Nat.add_assoc]
        exact atNext

private theorem shows_of_inStep (positive : 0 < limit spec vars)
    (inStep : InStep spec list vars) (count : Nat) : Shows spec list vars count := by
  unfold Shows expected
  cases mode : spec.mode with
  | infinite =>
      rw [InStep, mode] at inStep
      rcases inStep with ⟨atStart, apart⟩ | ⟨beyond, overPage⟩
      · exact ⟨_, loadPages_infinite mode positive atStart apart count, by rw [atStart]⟩
      · exact ⟨_, loadPages_infinite_over mode positive beyond overPage count,
          (OffsetList.slice_of_le beyond).symm⟩
  | singlePage =>
      rw [InStep, mode] at inStep
      have first : AtPage spec list vars (initial spec list vars) (start spec vars) := by
        refine ⟨rfl, rfl, inStep.imp_right fun beyond => ⟨beyond.1, ?_⟩⟩
        have empty : (initial spec list vars).items = [] := OffsetList.slice_of_le beyond.1
        rw [empty]
        exact Nat.le_trans beyond.2 (Nat.le_add_right _ _)
      obtain ⟨pages, loaded, -, shown, -⟩ := loadPages_singlePage mode positive first count
      exact ⟨pages, loaded, shown⟩

private theorem inStep_of_shows (positive : 0 < limit spec vars) (distinct : list.items.Nodup)
    (plain : ∀ item ∈ list.items, list.node item = none)
    (shows : Shows spec list vars 1) : InStep spec list vars := by
  obtain ⟨pages, loaded, shown⟩ := shows
  have step : (initial spec list vars).loadNext spec list = some pages := loaded
  have length : (initial spec list vars).items.length =
      min (limit spec vars) (list.items.length - start spec vars) := OffsetList.length_slice
  by_cases atStart : start spec vars = 0
  · refine .inl ?_
    cases mode : spec.mode with
    | infinite =>
        refine ⟨atStart, fun count old oldMember new _ node found => ?_⟩
        rw [plain old (OffsetList.mem_items_of_mem_slice oldMember)] at found
        cases found
    | singlePage =>
        rw [atStart]
        rw [start] at atStart
        cases given : vars.offset with
        | none => rfl
        | some offset =>
            rw [given] at atStart
            exact atStart
  · cases mode : spec.mode with
    | infinite =>
        rw [loadNext_infinite mode positive] at step
        rw [← Option.some.inj step, expected, mode] at shown
        have apart : ∀ old ∈ (initial spec list vars).items,
            ∀ new ∈ list.slice (orElse (initial spec list vars).items.length spec.pageSize)
              (limit spec vars),
            ∀ node, list.node old = some node → list.node new ≠ some node := by
          intro old oldMember _ _ node found
          rw [plain old (OffsetList.mem_items_of_mem_slice oldMember)] at found
          cases found
        have joined := @OffsetList.slice_append list (start spec vars) (limit spec vars)
          (limit spec vars)
        have appended := (OffsetList.append_of_apart apart).symm.trans shown
        rw [Nat.succ_mul, Nat.one_mul, ← joined] at appended
        have same := List.append_cancel_left appended
        rw [length] at same
        exact .inr (OffsetList.over_of_slice_eq distinct positive _ atStart same)
    | singlePage =>
        by_cases tracked : vars.offset.getD 0 = start spec vars
        · refine .inl ?_
          rw [mode]
          exact tracked
        · have unknown : vars.offset.getD 0 = 0 := by
            cases given : vars.offset with
            | none => rfl
            | some offset =>
                rw [start, given] at tracked
                exact absurd rfl tracked
          rw [loadNext_singlePage mode positive] at step
          rw [← Option.some.inj step, expected, mode] at shown
          have same : list.slice (orElse (initial spec list vars).items.length spec.pageSize +
              vars.offset.getD 0) (limit spec vars) =
              list.slice (start spec vars + 1 * limit spec vars) (limit spec vars) := shown
          rw [unknown, Nat.add_zero, Nat.one_mul, length] at same
          exact .inr (OffsetList.over_of_slice_eq distinct positive _ atStart same)

end Steps

/-- Loading pages shows each item once and in order, however many are loaded, if the
handler is in step. For a list without duplicates whose entries have no nodes it shows them
only then. -/
theorem shows_iff_inStep (spec : OffsetSpec) (list : OffsetList) (vars : OffsetVariables)
    (positive : 0 < limit spec vars) :
    (InStep spec list vars → ∀ count, Shows spec list vars count) ∧
      (list.items.Nodup → (∀ item ∈ list.items, list.node item = none) →
        (∀ count, Shows spec list vars count) → InStep spec list vars) :=
  ⟨shows_of_inStep positive, fun distinct plain shows =>
    inStep_of_shows positive distinct plain (shows 1)⟩

private def users : OffsetList where
  items := ["a", "b", "c", "d", "e", "f"].map GraphQLValue.string
  node := fun _ => none

private def usersSpec : OffsetSpec where
  path := ["usersList"]
  pageSize := 2
  mode := .infinite
  direction := none
  path_ne_nil := by decide
  offset := none

theorem shows_iff_inStep_users :
    (InStep usersSpec users {} → ∀ count, Shows usersSpec users {} count) ∧
      InStep usersSpec users {} ∧ users.items.Nodup := by
  refine ⟨(shows_iff_inStep usersSpec users {} (by decide)).1, .inl ⟨rfl, ?_⟩, by decide⟩
  intro _ _ _ _ _ _ found
  cases found

/-- From the third item on, the next page is the one that is displayed already. -/
theorem not_shows_startedLater : ¬ Shows usersSpec users { offset := some 2 } 1 := by
  rintro ⟨pages, loaded, shown⟩
  rw [← Option.some.inj loaded] at shown
  revert shown
  decide

end OffsetPages

end Houdini.Runtime
