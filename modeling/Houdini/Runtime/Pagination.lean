import Houdini.Data.CursorConnection
import Houdini.Runtime.Value

/-! What loading a page sends: the handlers of paginated documents, and what they read
of the data that is displayed. -/

set_option autoImplicit false

namespace Houdini.Runtime

/-- The information about a page. A cursor that is `null` is not there. -/
structure PageInfo where
  startCursor : Option String
  endCursor : Option String
  hasNextPage : Bool
  hasPreviousPage : Bool
  deriving DecidableEq, Repr

def nullPageInfo : PageInfo where
  startCursor := none
  endCursor := none
  hasNextPage := false
  hasPreviousPage := false

def GraphQLValue.walk (current : GraphQLValue) : List String → GraphQLValue
  | [] => current
  | field :: rest => if current.truthy then (current.member field).walk rest else current

def extractPageInfo (data : GraphQLValue) (path : List String) : PageInfo :=
  match (data.walk path).member "pageInfo" with
  | .undefined | .null => nullPageInfo
  | pageInfo =>
      { startCursor := (pageInfo.member "startCursor").text?
        endCursor := (pageInfo.member "endCursor").text?
        hasNextPage := (pageInfo.member "hasNextPage").truthy
        hasPreviousPage := (pageInfo.member "hasPreviousPage").truthy }

def countFields (data : GraphQLValue) : List String → Nat
  | [] => 0
  | field :: rest =>
      match data.member field with
      | .array items => items.length
      | value => countFields (if value.truthy then value else data) rest

def countPage (source : List String) (value : GraphQLValue) : Nat :=
  match value with
  | .null | .undefined => 0
  | data => countFields data source

def siteURL : String := "SITE_URL"

def missingPageSizeError (fnName : String) : String :=
  fnName ++ " is missing the required page arguments. For more information, please visit " ++
    "this link: " ++ siteURL ++ "/guides/pagination"

inductive PaginateMode where
  | infinite
  | singlePage
  deriving DecidableEq, Repr

inductive RefetchDirection where
  | forward
  | backward
  | both
  deriving DecidableEq, Repr

/-- What the compiler knows about a paginated field. The path leads to it. -/
structure RefetchSpec where
  path : List String
  pageSize : Nat
  mode : PaginateMode
  direction : Option RefetchDirection
  path_ne_nil : path ≠ []

structure Refetch where
  path : List String
  pageSize : Nat
  start : Option Nat
  direction : RefetchDirection
  mode : PaginateMode

def RefetchSpec.print (spec : RefetchSpec) : Refetch where
  path := spec.path
  pageSize := spec.pageSize
  start := none
  direction := spec.direction.getD .forward
  mode := spec.mode

/-- `null` and `undefined` are both no value: the handlers only ask for `!= null`. -/
abbrev CursorVariables := PageArguments String

/-- The cursors of the pages that single page navigation came from, the last one first. -/
structure CursorStacks where
  previousCursors : List (Option String) := []
  nextCursors : List (Option String) := []
  deriving DecidableEq, Repr

/-- What is sent to load a page. A load without updates replaces what is displayed. -/
structure PageLoad where
  vars : CursorVariables
  updates : List String
  deriving DecidableEq, Repr

inductive PageEnd where
  | start
  | end

/-- Every input of the handlers sets all of the cursor arguments, so nothing of the other
variables shows through. -/
def loadPage (refetch : Refetch) (pageSizeVar : CursorVariables → Option Nat)
    (functionName : String) (input : CursorVariables) («where» : PageEnd) :
    Except String (Option PageLoad) :=
  if (pageSizeVar input).getD 0 = 0 ∧ refetch.pageSize = 0 then
    .error (missingPageSizeError functionName)
  else
    .ok (some
      { vars := input
        updates :=
          match refetch.mode, «where» with
          | .singlePage, _ => []
          | .infinite, .start => ["prepend"]
          | .infinite, .end => ["append"] })

/-- Without something to load, the promise resolves with the current state. -/
def loadNextPage (refetch : Refetch) (data : GraphQLValue) (vars : CursorVariables)
    (cursorStacks : CursorStacks) (loading : Bool) (first : Option Nat) (after : Option String) :
    CursorStacks × Except String (Option PageLoad) :=
  if loading then (cursorStacks, .ok none)
  else
    let isSinglePage := refetch.mode = .singlePage
    let backward (before : Option String) : CursorVariables :=
      { before, last := some (first.getD refetch.pageSize) }
    let forward (cursorStacks : CursorStacks) : CursorStacks × Except String (Option PageLoad) :=
      let currentPageInfo := extractPageInfo data refetch.path
      if currentPageInfo.hasNextPage then
        let input : CursorVariables :=
          { first := some (first.getD refetch.pageSize), after := after <|> currentPageInfo.endCursor }
        let cursorStacks :=
          if isSinglePage ∧ (refetch.direction = .forward ∨ refetch.direction = .both) then
            { cursorStacks with previousCursors := vars.after :: cursorStacks.previousCursors }
          else cursorStacks
        (cursorStacks, loadPage refetch (·.first) "loadNextPage" input .end)
      else (cursorStacks, .ok none)
    if isSinglePage ∧ (refetch.direction = .backward ∨ refetch.direction = .both) then
      match cursorStacks.nextCursors with
      | beforeCursor :: nextCursors =>
          ({ cursorStacks with nextCursors },
            loadPage refetch (·.last) "loadNextPage" (backward beforeCursor) .start)
      | [] => if refetch.direction = .backward then (cursorStacks, .ok none) else forward cursorStacks
    else forward cursorStacks

def loadPreviousPage (refetch : Refetch) (data : GraphQLValue) (vars : CursorVariables)
    (cursorStacks : CursorStacks) (loading : Bool) (last : Option Nat) (before : Option String) :
    CursorStacks × Except String (Option PageLoad) :=
  if loading then (cursorStacks, .ok none)
  else
    let isSinglePage := refetch.mode = .singlePage
    let forward (after : Option String) : CursorVariables :=
      { after, first := some (last.getD refetch.pageSize) }
    let backward (cursorStacks : CursorStacks) : CursorStacks × Except String (Option PageLoad) :=
      let currentPageInfo := extractPageInfo data refetch.path
      if currentPageInfo.hasPreviousPage then
        let isForwardPage := vars.first.isSome ∨ vars.after.isSome
        let cursorStacks :=
          if isSinglePage ∧ (refetch.direction = .backward ∨ refetch.direction = .both) ∧
              ¬ isForwardPage then
            { cursorStacks with nextCursors := vars.before :: cursorStacks.nextCursors }
          else cursorStacks
        let input : CursorVariables :=
          { before := before <|> currentPageInfo.startCursor
            last := some (last.getD refetch.pageSize) }
        (cursorStacks, loadPage refetch (·.last) "loadPreviousPage" input .start)
      else (cursorStacks, .ok none)
    if isSinglePage ∧ (refetch.direction = .forward ∨ refetch.direction = .both) then
      match cursorStacks.previousCursors with
      | afterCursor :: previousCursors =>
          ({ cursorStacks with previousCursors },
            loadPage refetch (·.first) "loadPreviousPage" (forward afterCursor) .end)
      | [] => if refetch.direction = .forward then (cursorStacks, .ok none) else backward cursorStacks
    else backward cursorStacks

structure OffsetVariables where
  limit : Option Nat := none
  offset : Option Nat := none
  deriving DecidableEq, Repr

def orElse (left right : Nat) : Nat := if left = 0 then right else left

def nextOffset (refetch : Refetch) (data : GraphQLValue) (vars : OffsetVariables) : Nat :=
  let offset := orElse (refetch.start.getD 0)
    (orElse (countPage refetch.path data) refetch.pageSize)
  match refetch.mode with
  | .singlePage => offset + vars.offset.getD 0
  | .infinite => offset

def loadNextOffset (refetch : Refetch) (data : GraphQLValue) (vars : OffsetVariables)
    (loading : Bool) (limit offset : Option Nat) : Except String (Option OffsetVariables) :=
  if loading then .ok none
  else
    let queryVariables : OffsetVariables :=
      { limit := limit <|> vars.limit
        offset := some (offset.getD (nextOffset refetch data vars)) }
    if queryVariables.limit.getD 0 = 0 ∧ refetch.pageSize = 0 then
      .error (missingPageSizeError "loadNextPage")
    else .ok (some queryVariables)

def GraphQLValue.nest (value : GraphQLValue) : List String → GraphQLValue
  | [] => value
  | field :: rest => .object [(field, value.nest rest)]

def PageInfo.toValue (pageInfo : PageInfo) : GraphQLValue :=
  let cursor (text : Option String) := (text.map GraphQLValue.string).getD .null
  .object
    [("startCursor", cursor pageInfo.startCursor),
      ("endCursor", cursor pageInfo.endCursor),
      ("hasNextPage", .boolean pageInfo.hasNextPage),
      ("hasPreviousPage", .boolean pageInfo.hasPreviousPage)]

theorem GraphQLValue.walk_nest (value : GraphQLValue) (path : List String) :
    (value.nest path).walk path = value := by
  induction path with
  | nil => rfl
  | cons field rest ih =>
      change (if true = true then _ else _) = value
      have read : (GraphQLValue.object [(field, value.nest rest)]).member field =
          value.nest rest := by
        simp [member, GraphQLObject.property]
      rw [if_pos rfl, nest, read, ih]

theorem extractPageInfo_nest {connection : GraphQLValue} {pageInfo : PageInfo}
    (path : List String) (found : connection.member "pageInfo" = pageInfo.toValue) :
    extractPageInfo (connection.nest path) path = pageInfo := by
  obtain ⟨startCursor, endCursor, _, _⟩ := pageInfo
  unfold extractPageInfo
  rw [GraphQLValue.walk_nest, found]
  cases startCursor <;> cases endCursor <;> rfl

theorem countFields_nest (items : List GraphQLValue) {path : List String} (some : path ≠ []) :
    countFields ((GraphQLValue.array items).nest path) path = items.length := by
  induction path with
  | nil => exact absurd rfl some
  | cons field rest ih =>
      have read : ((GraphQLValue.array items).nest (field :: rest)).member field =
          (GraphQLValue.array items).nest rest := by
        simp [GraphQLValue.nest, GraphQLValue.member, GraphQLObject.property]
      unfold countFields
      rw [read]
      cases rest with
      | nil => rfl
      | cons next rest => exact ih (List.cons_ne_nil _ _)

theorem countPage_nest (items : List GraphQLValue) {path : List String} (some : path ≠ []) :
    countPage path ((GraphQLValue.array items).nest path) = items.length := by
  cases path with
  | nil => exact absurd rfl some
  | cons field rest => exact countFields_nest items some

end Houdini.Runtime
