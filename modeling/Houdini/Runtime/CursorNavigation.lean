import Houdini.Runtime.Pagination

/-! Single page navigation through a connection that does not change: when going to a
page and back shows what was shown before. -/

set_option autoImplicit false

namespace Houdini.Runtime

abbrev Connection := CursorConnection GraphQLValue String

abbrev Page := ConnectionPage GraphQLValue String

def Page.pageInfo (page : Page) : PageInfo where
  startCursor := page.startCursor
  endCursor := page.endCursor
  hasNextPage := page.hasNextPage
  hasPreviousPage := page.hasPreviousPage

def Page.toValue (page : Page) : GraphQLValue :=
  .object [("edges", .array page.edges), ("pageInfo", page.pageInfo.toValue)]

def Page.data (page : Page) (path : List String) : GraphQLValue := page.toValue.nest path

theorem Page.extractPageInfo_data (page : Page) (path : List String) :
    extractPageInfo (page.data path) path = page.pageInfo :=
  extractPageInfo_nest path rfl

structure SinglePageSpec extends RefetchSpec where
  singlePage : mode = .singlePage

/-- What a document shows, the variables its store holds and where it came from. -/
structure Navigation where
  cursorStacks : CursorStacks := {}
  vars : CursorVariables
  page : Page
  deriving DecidableEq

namespace Navigation

variable (spec : SinglePageSpec) (connection : Connection)

/-- The state after a handler ran. A load shows the page that the server, or the cache, has
for its variables. A handler that throws loads nothing. -/
def complete (navigation : Navigation) :
    CursorStacks × Except String (Option PageLoad) → Option Navigation
  | (cursorStacks, .ok (some load)) =>
      some { cursorStacks, vars := load.vars, page := connection.page load.vars }
  | (cursorStacks, .ok none) => some { navigation with cursorStacks }
  | (_, .error _) => none

def next (navigation : Navigation) : Option Navigation :=
  navigation.complete connection
    (loadNextPage spec.print (navigation.page.data spec.path) navigation.vars navigation.cursorStacks
      false none none)

def previous (navigation : Navigation) : Option Navigation :=
  navigation.complete connection
    (loadPreviousPage spec.print (navigation.page.data spec.path) navigation.vars
      navigation.cursorStacks false none none)

def after (cursor : Option String) : CursorVariables :=
  { first := some spec.pageSize, after := cursor }

def before (cursor : Option String) : CursorVariables :=
  { last := some spec.pageSize, before := cursor }

def direction : RefetchDirection := spec.print.direction

def ReversesNext (navigation : Navigation) : Prop :=
  ∀ moved, navigation.next spec connection = some moved →
    moved.page.edges ≠ navigation.page.edges →
      ∃ back, moved.previous spec connection = some back ∧
        back.page.edges = navigation.page.edges

def ReversesPrevious (navigation : Navigation) : Prop :=
  ∀ moved, navigation.previous spec connection = some moved →
    moved.page.edges ≠ navigation.page.edges →
      ∃ back, moved.next spec connection = some back ∧
        back.page.edges = navigation.page.edges

def LeavesForward (navigation : Navigation) : Prop :=
  direction spec ≠ .backward ∧ (direction spec = .both → navigation.cursorStacks.nextCursors = []) ∧
    navigation.page.hasNextPage = true

def LeavesBackward (navigation : Navigation) : Prop :=
  direction spec ≠ .forward ∧ (direction spec = .both → navigation.cursorStacks.previousCursors = []) ∧
    navigation.page.hasPreviousPage = true

/-- The page was loaded by `first` or `after`, going by the variables. -/
def IsForwardPage (navigation : Navigation) : Prop :=
  navigation.vars.first.isSome ∨ navigation.vars.after.isSome

/-- The cursor that `loadNextPage` saves asks for the page that it leaves. -/
def NextPermitted (navigation : Navigation) : Prop :=
  navigation.LeavesForward spec →
    let again := connection.page (after spec navigation.vars.after)
    again.edges = navigation.page.edges ∧ again.hasNextPage = true

/-- The cursor that `loadPreviousPage` saves asks for the page that it leaves. For a page
that was loaded forward none is saved: the page has the default size, and the server sees
from the page before it that there is a next one. -/
def PreviousPermitted (navigation : Navigation) : Prop :=
  navigation.LeavesBackward spec →
    (¬ navigation.IsForwardPage →
      let again := connection.page (before spec navigation.vars.before)
      again.edges = navigation.page.edges ∧ again.hasPreviousPage = true) ∧
    (navigation.IsForwardPage → direction spec = .both ∧
      (connection.page (after spec navigation.vars.after)).edges = navigation.page.edges ∧
      (connection.page (before spec navigation.page.startCursor)).hasNextPage = true)

inductive Run : Navigation → Prop where
  | start (vars asked : CursorVariables) : Run { vars, page := connection.page asked }
  | next {navigation moved : Navigation} (run : Run navigation)
      (permitted : navigation.NextPermitted spec connection)
      (step : navigation.next spec connection = some moved) : Run moved
  | previous {navigation moved : Navigation} (run : Run navigation)
      (permitted : navigation.PreviousPermitted spec connection)
      (step : navigation.previous spec connection = some moved) : Run moved

def ForwardTrail (cursor : Option String) : List (Option String) → Prop
  | [] => True
  | saved :: rest =>
      cursor = (connection.page (after spec saved)).endCursor ∧
        (connection.page (after spec saved)).hasNextPage = true ∧ ForwardTrail saved rest

def BackwardTrail (cursor : Option String) : List (Option String) → Prop
  | [] => True
  | saved :: rest =>
      cursor = (connection.page (before spec saved)).startCursor ∧
        (connection.page (before spec saved)).hasPreviousPage = true ∧ BackwardTrail saved rest

/-- With a saved cursor, the page was loaded in the direction that leads away from it. -/
structure Retraceable (navigation : Navigation) : Prop where
  served : ∃ asked, navigation.page = connection.page asked
  forward : navigation.cursorStacks.previousCursors ≠ [] →
    navigation.vars = after spec navigation.vars.after ∧
      navigation.page = connection.page navigation.vars ∧
      ForwardTrail spec connection navigation.vars.after navigation.cursorStacks.previousCursors
  backward : navigation.cursorStacks.nextCursors ≠ [] →
    navigation.vars = before spec navigation.vars.before ∧
      navigation.page = connection.page navigation.vars ∧
      BackwardTrail spec connection navigation.vars.before navigation.cursorStacks.nextCursors
  apart : navigation.cursorStacks.previousCursors = [] ∨ navigation.cursorStacks.nextCursors = []
  forwardOnly : direction spec = .forward → navigation.cursorStacks.nextCursors = []
  backwardOnly : direction spec = .backward → navigation.cursorStacks.previousCursors = []

def arrive (cursorStacks : CursorStacks) (vars : CursorVariables) : Option Navigation :=
  if spec.pageSize = 0 then none else some { cursorStacks, vars, page := connection.page vars }

def pushPrevious (navigation : Navigation) : CursorStacks :=
  { navigation.cursorStacks with
    previousCursors := navigation.vars.after :: navigation.cursorStacks.previousCursors }

def pushNext (navigation : Navigation) : CursorStacks :=
  { navigation.cursorStacks with
    nextCursors := navigation.vars.before :: navigation.cursorStacks.nextCursors }

section Steps

variable {spec connection} {navigation moved : Navigation}

private theorem complete_loadPage (cursorStacks : CursorStacks)
    (pageSizeVar : CursorVariables → Option Nat) (functionName : String)
    (input : CursorVariables) («where» : PageEnd)
    (sized : pageSizeVar input = some spec.pageSize) :
    navigation.complete connection
        (cursorStacks, loadPage spec.print pageSizeVar functionName input «where») =
      arrive spec connection cursorStacks input := by
  have single : spec.print.mode = .singlePage := spec.singlePage
  have size : spec.print.pageSize = spec.pageSize := rfl
  unfold loadPage arrive
  rw [sized, size, single]
  by_cases empty : spec.pageSize = 0
  · rw [if_pos empty, if_pos ⟨empty, empty⟩]
    rfl
  · rw [if_neg empty, if_neg (fun missing => empty missing.2)]
    rfl

theorem next_of_saved {cursor : Option String} {nextCursors : List (Option String)}
    (navigates : direction spec ≠ .forward)
    (saved : navigation.cursorStacks.nextCursors = cursor :: nextCursors) :
    navigation.next spec connection =
      arrive spec connection { navigation.cursorStacks with nextCursors } (before spec cursor) := by
  have single : spec.print.mode = .singlePage := spec.singlePage
  have backward : spec.print.direction = .backward ∨ spec.print.direction = .both := by
    change direction spec = _ ∨ direction spec = _
    cases h : direction spec <;> simp_all
  unfold Navigation.next loadNextPage
  simp only [single, backward, saved, and_self, ↓reduceIte, Bool.false_eq_true]
  apply complete_loadPage
  rfl

theorem next_of_leaves (leaves : navigation.LeavesForward spec) :
    navigation.next spec connection =
      arrive spec connection navigation.pushPrevious
        (after spec navigation.page.endCursor) := by
  have single : spec.print.mode = .singlePage := spec.singlePage
  have info : extractPageInfo (navigation.page.data spec.path) spec.print.path =
      navigation.page.pageInfo := navigation.page.extractPageInfo_data spec.path
  have more : navigation.page.pageInfo.hasNextPage = true := leaves.2.2
  unfold Navigation.next loadNextPage
  cases h : spec.print.direction with
  | backward => exact absurd h leaves.1
  | forward =>
      simp only [single, info, more, reduceCtorEq, or_self, or_false, and_false, and_self,
        ↓reduceIte, Bool.false_eq_true]
      apply complete_loadPage
      rfl
  | both =>
      have none : navigation.cursorStacks.nextCursors = [] := leaves.2.1 h
      have pushed : navigation.pushPrevious =
          { previousCursors := navigation.vars.after :: navigation.cursorStacks.previousCursors,
            nextCursors := [] } := by
        rw [pushPrevious, none]
      simp only [single, info, more, none, pushed, reduceCtorEq, or_true, and_self, ↓reduceIte,
        Bool.false_eq_true]
      apply complete_loadPage
      rfl

theorem next_of_stays (unsaved : direction spec ≠ .forward → navigation.cursorStacks.nextCursors = [])
    (stays : ¬ navigation.LeavesForward spec) :
    navigation.next spec connection = some navigation := by
  have single : spec.print.mode = .singlePage := spec.singlePage
  have info : extractPageInfo (navigation.page.data spec.path) spec.print.path =
      navigation.page.pageInfo := navigation.page.extractPageInfo_data spec.path
  unfold Navigation.next loadNextPage
  cases h : spec.print.direction with
  | backward =>
      have none := unsaved (by rw [direction, h]; decide)
      simp only [single, none, true_or, and_self, ↓reduceIte, Bool.false_eq_true]
      rfl
  | forward =>
      have last : navigation.page.pageInfo.hasNextPage = false := by
        rw [← Bool.not_eq_true]
        intro more
        exact stays ⟨by rw [direction, h]; decide, by rw [direction, h]; exact nofun, more⟩
      simp only [single, info, last, reduceCtorEq, or_self, and_false, ↓reduceIte,
        Bool.false_eq_true]
      rfl
  | both =>
      have none := unsaved (by rw [direction, h]; decide)
      have last : navigation.page.pageInfo.hasNextPage = false := by
        rw [← Bool.not_eq_true]
        intro more
        exact stays ⟨by rw [direction, h]; decide, fun _ => none, more⟩
      simp only [single, info, last, none, reduceCtorEq, or_true, and_self, ↓reduceIte,
        Bool.false_eq_true]
      rfl

theorem previous_of_saved {cursor : Option String} {previousCursors : List (Option String)}
    (navigates : direction spec ≠ .backward)
    (saved : navigation.cursorStacks.previousCursors = cursor :: previousCursors) :
    navigation.previous spec connection =
      arrive spec connection { navigation.cursorStacks with previousCursors } (after spec cursor) := by
  have single : spec.print.mode = .singlePage := spec.singlePage
  have forward : spec.print.direction = .forward ∨ spec.print.direction = .both := by
    change direction spec = _ ∨ direction spec = _
    cases h : direction spec <;> simp_all
  unfold Navigation.previous loadPreviousPage
  simp only [single, forward, saved, and_self, ↓reduceIte, Bool.false_eq_true]
  apply complete_loadPage
  rfl

theorem previous_of_leaves (leaves : navigation.LeavesBackward spec)
    (backward : ¬ navigation.IsForwardPage) :
    navigation.previous spec connection =
      arrive spec connection navigation.pushNext
        (before spec navigation.page.startCursor) := by
  have single : spec.print.mode = .singlePage := spec.singlePage
  have info : extractPageInfo (navigation.page.data spec.path) spec.print.path =
      navigation.page.pageInfo := navigation.page.extractPageInfo_data spec.path
  have more : navigation.page.pageInfo.hasPreviousPage = true := leaves.2.2
  have loaded : ¬ (navigation.vars.first.isSome = true ∨ navigation.vars.after.isSome = true) :=
    backward
  unfold Navigation.previous loadPreviousPage
  cases h : spec.print.direction with
  | forward => exact absurd h leaves.1
  | backward =>
      simp only [single, info, more, loaded, reduceCtorEq, or_false, or_self, and_false,
        not_false_eq_true, and_self, ↓reduceIte, Bool.false_eq_true]
      apply complete_loadPage
      rfl
  | both =>
      have none : navigation.cursorStacks.previousCursors = [] := leaves.2.1 h
      have pushed : navigation.pushNext =
          { previousCursors := [],
            nextCursors := navigation.vars.before :: navigation.cursorStacks.nextCursors } := by
        rw [pushNext, none]
      simp only [single, info, more, none, pushed, loaded, reduceCtorEq, or_true,
        not_false_eq_true, and_self, ↓reduceIte, Bool.false_eq_true]
      apply complete_loadPage
      rfl

theorem previous_of_leaves_forwardPage (leaves : navigation.LeavesBackward spec)
    (forward : navigation.IsForwardPage) :
    navigation.previous spec connection =
      arrive spec connection navigation.cursorStacks (before spec navigation.page.startCursor) := by
  have single : spec.print.mode = .singlePage := spec.singlePage
  have info : extractPageInfo (navigation.page.data spec.path) spec.print.path =
      navigation.page.pageInfo := navigation.page.extractPageInfo_data spec.path
  have more : navigation.page.pageInfo.hasPreviousPage = true := leaves.2.2
  have loaded : navigation.vars.first.isSome = true ∨ navigation.vars.after.isSome = true :=
    forward
  unfold Navigation.previous loadPreviousPage
  cases h : spec.print.direction with
  | forward => exact absurd h leaves.1
  | backward =>
      simp only [single, info, more, loaded, reduceCtorEq, or_false, or_self, and_false,
        not_true_eq_false, ↓reduceIte, Bool.false_eq_true]
      apply complete_loadPage
      rfl
  | both =>
      have none : navigation.cursorStacks.previousCursors = [] := leaves.2.1 h
      simp only [single, info, more, none, loaded, reduceCtorEq, or_true, and_self,
        not_true_eq_false, and_false, ↓reduceIte, Bool.false_eq_true]
      apply complete_loadPage
      rfl

theorem previous_of_stays
    (unsaved : direction spec ≠ .backward → navigation.cursorStacks.previousCursors = [])
    (stays : ¬ navigation.LeavesBackward spec) :
    navigation.previous spec connection = some navigation := by
  have single : spec.print.mode = .singlePage := spec.singlePage
  have info : extractPageInfo (navigation.page.data spec.path) spec.print.path =
      navigation.page.pageInfo := navigation.page.extractPageInfo_data spec.path
  unfold Navigation.previous loadPreviousPage
  cases h : spec.print.direction with
  | forward =>
      have none := unsaved (by rw [direction, h]; decide)
      simp only [single, none, true_or, and_self, ↓reduceIte, Bool.false_eq_true]
      rfl
  | backward =>
      have first : navigation.page.pageInfo.hasPreviousPage = false := by
        rw [← Bool.not_eq_true]
        intro more
        exact stays ⟨by rw [direction, h]; decide, by rw [direction, h]; exact nofun, more⟩
      simp only [single, info, first, reduceCtorEq, or_self, and_false, ↓reduceIte,
        Bool.false_eq_true]
      rfl
  | both =>
      have none := unsaved (by rw [direction, h]; decide)
      have first : navigation.page.pageInfo.hasPreviousPage = false := by
        rw [← Bool.not_eq_true]
        intro more
        exact stays ⟨by rw [direction, h]; decide, fun _ => none, more⟩
      simp only [single, info, first, none, reduceCtorEq, or_true, and_self, ↓reduceIte,
        Bool.false_eq_true]
      rfl

theorem next_cases (step : navigation.next spec connection = some moved) :
    (∃ cursor nextCursors, direction spec ≠ .forward ∧
      navigation.cursorStacks.nextCursors = cursor :: nextCursors ∧
      arrive spec connection { navigation.cursorStacks with nextCursors } (before spec cursor) =
        some moved) ∨
    (navigation.LeavesForward spec ∧
      arrive spec connection navigation.pushPrevious (after spec navigation.page.endCursor) =
        some moved) ∨
    moved = navigation := by
  by_cases leaves : navigation.LeavesForward spec
  · exact .inr (.inl ⟨leaves, next_of_leaves leaves ▸ step⟩)
  · by_cases forward : direction spec = .forward
    · rw [next_of_stays (absurd forward) leaves] at step
      exact .inr (.inr (Option.some.inj step).symm)
    · cases saved : navigation.cursorStacks.nextCursors with
      | nil =>
          rw [next_of_stays (fun _ => saved) leaves] at step
          exact .inr (.inr (Option.some.inj step).symm)
      | cons cursor nextCursors =>
          exact .inl ⟨cursor, nextCursors, forward, rfl, next_of_saved forward saved ▸ step⟩

theorem previous_cases (step : navigation.previous spec connection = some moved) :
    (∃ cursor previousCursors, direction spec ≠ .backward ∧
      navigation.cursorStacks.previousCursors = cursor :: previousCursors ∧
      arrive spec connection { navigation.cursorStacks with previousCursors } (after spec cursor) =
        some moved) ∨
    (navigation.LeavesBackward spec ∧ ¬ navigation.IsForwardPage ∧
      arrive spec connection navigation.pushNext (before spec navigation.page.startCursor) =
        some moved) ∨
    (navigation.LeavesBackward spec ∧ navigation.IsForwardPage ∧
      arrive spec connection navigation.cursorStacks (before spec navigation.page.startCursor) =
        some moved) ∨
    moved = navigation := by
  by_cases leaves : navigation.LeavesBackward spec
  · by_cases forward : navigation.IsForwardPage
    · exact .inr (.inr (.inl ⟨leaves, forward, previous_of_leaves_forwardPage leaves forward ▸ step⟩))
    · exact .inr (.inl ⟨leaves, forward, previous_of_leaves leaves forward ▸ step⟩)
  · by_cases backward : direction spec = .backward
    · rw [previous_of_stays (absurd backward) leaves] at step
      exact .inr (.inr (.inr (Option.some.inj step).symm))
    · cases saved : navigation.cursorStacks.previousCursors with
      | nil =>
          rw [previous_of_stays (fun _ => saved) leaves] at step
          exact .inr (.inr (.inr (Option.some.inj step).symm))
      | cons cursor previousCursors =>
          exact .inl ⟨cursor, previousCursors, backward, rfl,
            previous_of_saved backward saved ▸ step⟩

theorem arrive_eq_some {cursorStacks : CursorStacks} {vars : CursorVariables}
    (arrived : arrive spec connection cursorStacks vars = some moved) :
    moved = { cursorStacks, vars, page := connection.page vars } ∧
      ∀ cursorStacks vars, arrive spec connection cursorStacks vars =
        some { cursorStacks, vars, page := connection.page vars } := by
  unfold arrive at arrived ⊢
  by_cases empty : spec.pageSize = 0
  · rw [if_pos empty] at arrived
    cases arrived
  · rw [if_neg empty] at arrived
    refine ⟨(Option.some.inj arrived).symm, fun cursorStacks vars => ?_⟩
    rw [if_neg empty]

theorem Retraceable.trail (retraceable : navigation.Retraceable spec connection) :
    ForwardTrail spec connection navigation.vars.after navigation.cursorStacks.previousCursors := by
  by_cases some : navigation.cursorStacks.previousCursors = []
  · rw [some]
    trivial
  · exact (retraceable.forward some).2.2

theorem Retraceable.backwardTrail (retraceable : navigation.Retraceable spec connection) :
    BackwardTrail spec connection navigation.vars.before navigation.cursorStacks.nextCursors := by
  by_cases some : navigation.cursorStacks.nextCursors = []
  · rw [some]
    trivial
  · exact (retraceable.backward some).2.2

theorem Retraceable.nextCursors_of_leaves (retraceable : navigation.Retraceable spec connection)
    (leaves : navigation.LeavesForward spec) : navigation.cursorStacks.nextCursors = [] := by
  cases h : direction spec with
  | forward => exact retraceable.forwardOnly h
  | backward => exact absurd h leaves.1
  | both => exact leaves.2.1 h

theorem Retraceable.previousCursors_of_leaves
    (retraceable : navigation.Retraceable spec connection)
    (leaves : navigation.LeavesBackward spec) : navigation.cursorStacks.previousCursors = [] := by
  cases h : direction spec with
  | forward => exact absurd h leaves.1
  | backward => exact retraceable.backwardOnly h
  | both => exact leaves.2.1 h

theorem Retraceable.nextCursors_of_forwardPage
    (retraceable : navigation.Retraceable spec connection)
    (forward : navigation.IsForwardPage) : navigation.cursorStacks.nextCursors = [] := by
  by_contra some
  obtain ⟨loaded, -, -⟩ := retraceable.backward some
  rw [IsForwardPage, loaded] at forward
  cases forward with
  | inl first => cases first
  | inr after => cases after

theorem Retraceable.endCursor_of_same (retraceable : navigation.Retraceable spec connection)
    {asked : CursorVariables} (same : (connection.page asked).edges = navigation.page.edges) :
    navigation.page.endCursor = (connection.page asked).endCursor := by
  obtain ⟨shown, served⟩ := retraceable.served
  rw [served] at same ⊢
  exact connection.endCursor_congr same.symm

theorem Retraceable.startCursor_of_same (retraceable : navigation.Retraceable spec connection)
    {asked : CursorVariables} (same : (connection.page asked).edges = navigation.page.edges) :
    navigation.page.startCursor = (connection.page asked).startCursor := by
  obtain ⟨shown, served⟩ := retraceable.served
  rw [served] at same ⊢
  exact connection.startCursor_congr same.symm

theorem Retraceable.next (retraceable : navigation.Retraceable spec connection)
    (permitted : navigation.NextPermitted spec connection)
    (step : navigation.next spec connection = some moved) :
    moved.Retraceable spec connection := by
  rcases next_cases step with ⟨cursor, nextCursors, navigates, saved, arrived⟩ |
    ⟨leaves, arrived⟩ | rfl
  · obtain ⟨rfl, -⟩ := arrive_eq_some arrived
    have some : navigation.cursorStacks.nextCursors ≠ [] := by
      rw [saved]
      exact List.cons_ne_nil _ _
    have empty := retraceable.apart.resolve_right some
    have trail := retraceable.backwardTrail
    rw [saved] at trail
    exact
      { served := ⟨_, rfl⟩
        forward := fun pushed => absurd empty pushed
        backward := fun _ => ⟨rfl, rfl, trail.2.2⟩
        apart := .inl empty
        forwardOnly := fun forward => absurd forward navigates
        backwardOnly := fun _ => empty }
  · obtain ⟨rfl, -⟩ := arrive_eq_some arrived
    have empty := retraceable.nextCursors_of_leaves leaves
    obtain ⟨again, more⟩ := permitted leaves
    exact
      { served := ⟨_, rfl⟩
        forward := fun _ =>
          ⟨rfl, rfl, retraceable.endCursor_of_same again, more, retraceable.trail⟩
        backward := fun pushed => absurd empty pushed
        apart := .inr empty
        forwardOnly := fun _ => empty
        backwardOnly := fun backward => absurd backward leaves.1 }
  · exact retraceable

theorem Retraceable.previous (retraceable : navigation.Retraceable spec connection)
    (permitted : navigation.PreviousPermitted spec connection)
    (step : navigation.previous spec connection = some moved) :
    moved.Retraceable spec connection := by
  rcases previous_cases step with ⟨cursor, previousCursors, navigates, saved, arrived⟩ |
    ⟨leaves, backward, arrived⟩ | ⟨leaves, forward, arrived⟩ | rfl
  · obtain ⟨rfl, -⟩ := arrive_eq_some arrived
    have some : navigation.cursorStacks.previousCursors ≠ [] := by
      rw [saved]
      exact List.cons_ne_nil _ _
    have empty := retraceable.apart.resolve_left some
    have trail := retraceable.trail
    rw [saved] at trail
    exact
      { served := ⟨_, rfl⟩
        forward := fun _ => ⟨rfl, rfl, trail.2.2⟩
        backward := fun pushed => absurd empty pushed
        apart := .inr empty
        forwardOnly := fun _ => empty
        backwardOnly := fun backward => absurd backward navigates }
  · obtain ⟨rfl, -⟩ := arrive_eq_some arrived
    have empty := retraceable.previousCursors_of_leaves leaves
    obtain ⟨again, more⟩ := (permitted leaves).1 backward
    exact
      { served := ⟨_, rfl⟩
        forward := fun pushed => absurd empty pushed
        backward := fun _ =>
          ⟨rfl, rfl, retraceable.startCursor_of_same again, more, retraceable.backwardTrail⟩
        apart := .inl empty
        forwardOnly := fun forward => absurd forward leaves.1
        backwardOnly := fun _ => empty }
  · obtain ⟨rfl, -⟩ := arrive_eq_some arrived
    have empty := retraceable.previousCursors_of_leaves leaves
    have none := retraceable.nextCursors_of_forwardPage forward
    exact
      { served := ⟨_, rfl⟩
        forward := fun pushed => absurd empty pushed
        backward := fun pushed => absurd none pushed
        apart := .inl empty
        forwardOnly := fun _ => none
        backwardOnly := fun _ => empty }
  · exact retraceable

theorem Run.retraceable (run : Run spec connection navigation) :
    navigation.Retraceable spec connection := by
  induction run with
  | start vars asked =>
      exact
        { served := ⟨asked, rfl⟩
          forward := fun pushed => absurd rfl pushed
          backward := fun pushed => absurd rfl pushed
          apart := .inl rfl
          forwardOnly := fun _ => rfl
          backwardOnly := fun _ => rfl }
  | next _ permitted step retraceable => exact retraceable.next permitted step
  | previous _ permitted step retraceable => exact retraceable.previous permitted step

theorem Retraceable.reversesNext (retraceable : navigation.Retraceable spec connection)
    (permitted : navigation.NextPermitted spec connection) :
    navigation.ReversesNext spec connection := by
  intro moved step changed
  rcases next_cases step with ⟨cursor, nextCursors, navigates, saved, arrived⟩ |
    ⟨leaves, arrived⟩ | rfl
  · -- The saved page reports the page that it was left for.
    obtain ⟨rfl, arrives⟩ := arrive_eq_some arrived
    have some : navigation.cursorStacks.nextCursors ≠ [] := by
      rw [saved]
      exact List.cons_ne_nil _ _
    obtain ⟨loaded, shown, trail⟩ := retraceable.backward some
    rw [saved] at trail
    have leaves : LeavesBackward spec
        { cursorStacks := { navigation.cursorStacks with nextCursors }, vars := before spec cursor,
          page := connection.page (before spec cursor) } :=
      ⟨navigates, fun _ => retraceable.apart.resolve_right some, trail.2.1⟩
    have backward : ¬ IsForwardPage
        { cursorStacks := { navigation.cursorStacks with nextCursors }, vars := before spec cursor,
          page := connection.page (before spec cursor) } := by
      rintro (first | after)
      · cases first
      · cases after
    refine ⟨_, (previous_of_leaves leaves backward).trans (arrives _ _), ?_⟩
    have returns : navigation.vars = before spec (connection.page (before spec cursor)).startCursor := by
      rw [loaded, trail.1]
    rw [shown, returns]
  · obtain ⟨rfl, arrives⟩ := arrive_eq_some arrived
    obtain ⟨again, -⟩ := permitted leaves
    refine ⟨_, (previous_of_saved leaves.1 rfl).trans (arrives _ _), again⟩
  · exact absurd rfl changed

theorem Retraceable.reversesPrevious (retraceable : navigation.Retraceable spec connection)
    (permitted : navigation.PreviousPermitted spec connection) :
    navigation.ReversesPrevious spec connection := by
  intro moved step changed
  rcases previous_cases step with ⟨cursor, previousCursors, navigates, saved, arrived⟩ |
    ⟨leaves, backward, arrived⟩ | ⟨leaves, forward, arrived⟩ | rfl
  · obtain ⟨rfl, arrives⟩ := arrive_eq_some arrived
    have some : navigation.cursorStacks.previousCursors ≠ [] := by
      rw [saved]
      exact List.cons_ne_nil _ _
    obtain ⟨loaded, shown, trail⟩ := retraceable.forward some
    rw [saved] at trail
    have leaves : LeavesForward spec
        { cursorStacks := { navigation.cursorStacks with previousCursors }, vars := after spec cursor,
          page := connection.page (after spec cursor) } :=
      ⟨navigates, fun _ => retraceable.apart.resolve_left some, trail.2.1⟩
    refine ⟨_, (next_of_leaves leaves).trans (arrives _ _), ?_⟩
    have returns : navigation.vars = after spec (connection.page (after spec cursor)).endCursor := by
      rw [loaded, trail.1]
    rw [shown, returns]
  · obtain ⟨rfl, arrives⟩ := arrive_eq_some arrived
    obtain ⟨again, -⟩ := (permitted leaves).1 backward
    refine ⟨_, (next_of_saved leaves.1 rfl).trans (arrives _ _), again⟩
  · -- No cursor was saved, so the page after the one before is asked for.
    obtain ⟨rfl, arrives⟩ := arrive_eq_some arrived
    obtain ⟨both, again, sees⟩ := (permitted leaves).2 forward
    have returns : LeavesForward spec
        { cursorStacks := navigation.cursorStacks, vars := before spec navigation.page.startCursor,
          page := connection.page (before spec navigation.page.startCursor) } := by
      refine ⟨?_, fun _ => retraceable.nextCursors_of_forwardPage forward, sees⟩
      rw [both]
      decide
    refine ⟨_, (next_of_leaves returns).trans (arrives _ _), ?_⟩
    have around := connection.page_after_before spec.pageSize navigation.vars.after
    rw [← again, retraceable.startCursor_of_same again]
    exact around
  · exact absurd rfl changed

end Steps

/-- In every history in which each step saves a cursor that leads back, going on and back,
or back and on, shows the same edges. -/
theorem reversible (spec : SinglePageSpec) (connection : Connection) {navigation : Navigation}
    (run : Run spec connection navigation) :
    (navigation.NextPermitted spec connection → navigation.ReversesNext spec connection) ∧
      (navigation.PreviousPermitted spec connection →
        navigation.ReversesPrevious spec connection) :=
  ⟨run.retraceable.reversesNext, run.retraceable.reversesPrevious⟩

private def friend (cursor : String) : GraphQLValue := .object [("cursor", .string cursor)]

private def friends : Connection where
  edges := [friend "a", friend "b", friend "c", friend "d", friend "e", friend "f"]
  cursor := fun edge => (edge.member "cursor").text?.getD ""
  distinct := by decide

private def friendsSpec : SinglePageSpec where
  path := ["friends"]
  pageSize := 2
  mode := .singlePage
  direction := some .both
  path_ne_nil := by decide
  singlePage := rfl

private def secondFriends : Navigation where
  cursorStacks := { previousCursors := [none] }
  vars := after friendsSpec (some "b")
  page := friends.page (after friendsSpec (some "b"))

theorem reversible_secondFriends :
    secondFriends.ReversesNext friendsSpec friends ∧
      secondFriends.ReversesPrevious friendsSpec friends := by
  have start : Run friendsSpec friends
      { vars := after friendsSpec none, page := friends.page (after friendsSpec none) } :=
    .start _ _
  have second : Run friendsSpec friends secondFriends :=
    .next start (fun _ => ⟨rfl, by decide⟩) (by rfl)
  have reversed := reversible friendsSpec friends second
  refine ⟨reversed.1 fun _ => ⟨rfl, by decide⟩, reversed.2 fun leaves => ?_⟩
  exact absurd (leaves.2.1 rfl) (by decide)

/-- The third page was opened, then the one before it, which was loaded backward. Going on
from there saves no cursor of it: going back shows the first page. -/
theorem not_reversible_backwardPage :
    ∃ navigation, Run friendsSpec friends navigation ∧
      ¬ navigation.ReversesNext friendsSpec friends := by
  have start : Run friendsSpec friends
      { vars := after friendsSpec (some "d"), page := friends.page (after friendsSpec (some "d")) } :=
    .start _ _
  have second : Run friendsSpec friends
      { vars := before friendsSpec (some "e"), page := friends.page (before friendsSpec (some "e")) } :=
    .previous start
      (fun _ => ⟨fun backward => absurd (.inl rfl) backward, fun _ => ⟨rfl, rfl, by decide⟩⟩)
      (by rfl)
  refine ⟨_, second, fun reverses => ?_⟩
  obtain ⟨back, returned, same⟩ := reverses
    { cursorStacks := { previousCursors := [none] }, vars := after friendsSpec (some "d"),
      page := friends.page (after friendsSpec (some "d")) } rfl (by decide)
  have shown : back.page.edges = [friend "a", friend "b"] := by
    rw [← Option.some.inj returned]
    rfl
  rw [shown] at same
  revert same
  decide

end Navigation

end Houdini.Runtime
