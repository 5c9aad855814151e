import Houdini.Runtime.ConnectionPages

/-! Infinite pagination through a connection that does not change: the cache holds one window of
it, as long as the nodes are told apart by their ids. -/

set_option autoImplicit false

namespace Houdini.Runtime

open Cache

inductive PageCall where
  | next
  | previous
  deriving DecidableEq, Repr

def RefetchDirection.supports (direction : RefetchDirection) : PageCall → Bool
  | .next => direction != .backward
  | .previous => direction != .forward

namespace ConnectionDocument

variable (doc : ConnectionDocument) (connection : EdgeConnection)

def loadOf (call : PageCall) (data : GraphQLValue) (vars : CursorVariables)
    (cursorStacks : CursorStacks) : Except String (Option PageLoad) :=
  match call with
  | .next => (loadNextPage doc.spec.print data vars cursorStacks false none none).2
  | .previous => (loadPreviousPage doc.spec.print data vars cursorStacks false none none).2

/-- Nothing of the connection is in the cache yet, and nothing in it is optimistic. -/
structure Fresh (storage : InMemoryStorage) : Prop where
  settled : storage.topLayer.2.Settled storage.topLayer.1.id
  edges : ∀ id key, doc.EdgeCell connection id key → storage.topLayer.2.cell id key = {}
  pageInfo : ∀ id key, doc.InfoCell id key → storage.topLayer.2.cell id key = {}
  nodeIDs : ∀ rank edge record id value, edge ∈ connection.edges → doc.EdgeAt rank edge record →
    doc.NodeAt record edge id → nodeID edge = some value →
    (storage.topLayer.2.cell id "id").link = none

/-- The pages that were loaded, the last one first, and the cache after that. A call that finds
nothing to load leaves everything as it is. -/
inductive Run (args : CursorVariables) : InMemoryStorage → List EdgePage → Prop
  | first {storage final : InMemoryStorage} (fresh : doc.Fresh connection storage)
      (wrote : doc.writePage connection { args } storage = .ok () final) :
      Run args final [connection.page args]
  | call {storage final : InMemoryStorage} {pages : List EdgePage} {call : PageCall}
      {data : GraphQLValue} {vars : CursorVariables} {cursorStacks : CursorStacks} {load : PageLoad}
      (run : Run args storage pages) (supported : doc.direction.supports call = true)
      (shown : extractPageInfo data doc.spec.path = doc.cachedPageInfo storage)
      (loads : doc.loadOf call data vars cursorStacks = .ok (some load))
      (wrote : doc.writePage connection { args := load.vars, applyUpdates := some load.updates }
        storage = .ok () final) :
      Run args final (connection.page load.vars :: pages)

/-- The cached edges are one window of the connection, with every page that was loaded. The page
information is that of the window, on the sides that can be loaded from. -/
def ShowsWindow (storage : InMemoryStorage) (pages : List EdgePage) : Prop :=
  ∃ earlier window later, connection.edges = earlier ++ window ++ later ∧
    doc.cachedEdges storage =
      window.map (fun edge => (.string (connection.cursor edge), nodeID edge)) ∧
    (doc.cachedEdges storage).Nodup ∧
    (∀ page ∈ pages, page.edges <:+: window) ∧
    (doc.direction.supports .next = true →
      (doc.cachedPageInfo storage).endCursor = window.getLast?.map connection.cursor ∧
      ∃ page ∈ pages, page.edges.getLast? = window.getLast? ∧
        (doc.cachedPageInfo storage).hasNextPage = page.hasNextPage) ∧
    (doc.direction.supports .previous = true →
      (doc.cachedPageInfo storage).startCursor = window.head?.map connection.cursor ∧
      ∃ page ∈ pages, page.edges.head? = window.head? ∧
        (doc.cachedPageInfo storage).hasPreviousPage = page.hasPreviousPage)

variable {doc connection}

section Reading

variable {layer : LayerID} {storage : InMemoryStorage} {entries : List EdgeEntry}
  {info : String → Option GraphQLValue}

theorem cachedRecord_eq (settled : storage.Settled layer) (linked : LinksCached doc storage) :
    doc.cachedRecord storage = doc.record := by
  have link := linked.parent
  unfold cachedRecord
  rw [settled.value_eq]
  generalize storage.cell doc.parent doc.key = cell at link
  cases cell
  cases link
  rfl

theorem cachedEdges_eq (fits : doc.Fits connection) (linked : LinksCached doc storage)
    (caches : Caches doc connection layer (some (.array (recordLinks entries))) entries info
      storage) :
    doc.cachedEdges storage = entries.map fun entry =>
      (.string (connection.cursor entry.1), nodeID entry.1) := by
  have settled := caches.edges.settled
  have list : storage.value doc.record "edges" = .array (recordLinks entries) := by
    rw [settled.value_eq, (caches.edges.fine doc.record "edges").1.list rfl rfl]
    rfl
  unfold cachedEdges
  rw [cachedRecord_eq settled linked, list]
  change (recordLinks entries).map _ = _
  unfold recordLinks
  rw [List.map_map]
  refine List.map_congr_left fun entry member => ?_
  obtain ⟨known, taken, -, placed⟩ := caches.entered entry member
  have cursor : storage.value entry.2 "cursor" = .string (connection.cursor entry.1) := by
    have scalar := ((caches.edges.fine entry.2 "cursor").2 entry member).cursor rfl rfl
    have unlinked := (caches.edges.fine entry.2 "cursor").1.cursor taken entry.1 entry.2 known
      placed rfl rfl
    rw [settled.value_eq]
    generalize storage.cell entry.2 "cursor" = cell at scalar unlinked
    cases cell
    cases scalar
    cases unlinked
    rfl
  have node := edgeNodeID_cached fits caches.entered caches.edges member
  simp only [Function.comp_apply, GraphQLValue.propertyKey, cursor, node]

theorem cachedPageInfo_eq (linked : LinksCached doc storage) {links : Option GraphQLValue}
    (caches : Caches doc connection layer links entries info storage) :
    doc.cachedPageInfo storage =
      { startCursor := ((info "startCursor").getD .undefined).text?
        endCursor := ((info "endCursor").getD .undefined).text?
        hasNextPage := ((info "hasNextPage").getD .undefined).truthy
        hasPreviousPage := ((info "hasPreviousPage").getD .undefined).truthy } := by
  have settled := caches.info.settled
  have record : (storage.value doc.record "pageInfo").propertyKey = doc.pageInfoRecord := by
    have link := linked.pageInfo
    rw [settled.value_eq]
    generalize storage.cell doc.record "pageInfo" = cell at link
    cases cell
    cases link
    rfl
  have scalar (key : String) (member : key ∈ pageInfoKeys) :
      storage.value doc.pageInfoRecord key = (info key).getD .undefined := by
    rw [settled.value_eq, caches.info.fine doc.pageInfoRecord key rfl member]
    rfl
  unfold cachedPageInfo
  rw [cachedRecord_eq settled linked, record]
  simp only [scalar "startCursor" (by decide), scalar "endCursor" (by decide),
    scalar "hasNextPage" (by decide), scalar "hasPreviousPage" (by decide)]

end Reading

def cursorText (cursor : Option String) : GraphQLValue := (cursor.map .string).getD .null

@[simp] theorem cursorText_text (cursor : Option String) : (cursorText cursor).text? = cursor := by
  cases cursor <;> rfl

section Updates

variable {pageInfo : PageInfo} {data : GraphQLObject} (object : pageInfo.toValue = .object data)
  (info : String → Option GraphQLValue) (direction : RefetchDirection)

include object

theorem updatedInfo_first (updates : List String) :
    updatedInfo updates none info data "endCursor" = some (cursorText pageInfo.endCursor) ∧
      updatedInfo updates none info data "hasNextPage" = some (.boolean pageInfo.hasNextPage) ∧
      updatedInfo updates none info data "startCursor" = some (cursorText pageInfo.startCursor) ∧
      updatedInfo updates none info data "hasPreviousPage" =
        some (.boolean pageInfo.hasPreviousPage) := by
  have replaced (previous value : GraphQLValue) (name : String) :
      writtenInfo updates none previous name value = value := by
    unfold writtenInfo
    cases printedUpdates name updates <;> rfl
  obtain ⟨startCursor, endCursor, hasNextPage, hasPreviousPage⟩ := pageInfo
  cases object
  refine ⟨?_, ?_, ?_, ?_⟩
  all_goals exact congrArg some (replaced _ _ _)

theorem updatedInfo_append (next : direction.supports .next = true) :
    updatedInfo direction.updates (some ["append"]) info data "endCursor" =
        some (cursorText pageInfo.endCursor) ∧
      updatedInfo direction.updates (some ["append"]) info data "hasNextPage" =
        some (.boolean pageInfo.hasNextPage) ∧
      (direction.supports .previous = true →
        updatedInfo direction.updates (some ["append"]) info data "startCursor" =
            some ((info "startCursor").getD .undefined) ∧
          updatedInfo direction.updates (some ["append"]) info data "hasPreviousPage" =
            some ((info "hasPreviousPage").getD .undefined)) := by
  obtain ⟨startCursor, endCursor, hasNextPage, hasPreviousPage⟩ := pageInfo
  cases object
  cases direction with
  | forward => exact ⟨rfl, rfl, nofun⟩
  | backward => cases next
  | both => exact ⟨rfl, rfl, fun _ => ⟨rfl, rfl⟩⟩

theorem updatedInfo_prepend (previous : direction.supports .previous = true) :
    updatedInfo direction.updates (some ["prepend"]) info data "startCursor" =
        some (cursorText pageInfo.startCursor) ∧
      updatedInfo direction.updates (some ["prepend"]) info data "hasPreviousPage" =
        some (.boolean pageInfo.hasPreviousPage) ∧
      (direction.supports .next = true →
        updatedInfo direction.updates (some ["prepend"]) info data "endCursor" =
            some ((info "endCursor").getD .undefined) ∧
          updatedInfo direction.updates (some ["prepend"]) info data "hasNextPage" =
            some ((info "hasNextPage").getD .undefined)) := by
  obtain ⟨startCursor, endCursor, hasNextPage, hasPreviousPage⟩ := pageInfo
  cases object
  cases direction with
  | forward => cases previous
  | backward => exact ⟨rfl, rfl, nofun⟩
  | both => exact ⟨rfl, rfl, fun _ => ⟨rfl, rfl⟩⟩

end Updates

section Calls

variable {data : GraphQLValue} {vars : CursorVariables} {cursorStacks : CursorStacks} {load : PageLoad}

theorem loadOf_next (loads : doc.loadOf .next data vars cursorStacks = .ok (some load)) :
    (extractPageInfo data doc.spec.path).hasNextPage = true ∧ doc.spec.pageSize ≠ 0 ∧
      load = { vars := { first := some doc.spec.pageSize
                         after := (extractPageInfo data doc.spec.path).endCursor }
               updates := ["append"] } := by
  have mode : doc.spec.print.mode = .infinite := doc.infinite
  unfold loadOf loadNextPage at loads
  simp only [mode, Bool.false_eq_true, ↓reduceIte, reduceCtorEq, false_and] at loads
  split at loads
  · rename_i more
    unfold loadPage at loads
    split at loads
    · cases loads
    · rename_i sized
      simp only [mode, Except.ok.injEq, Option.some.injEq] at loads
      refine ⟨more, ?_, loads.symm⟩
      intro zero
      have size : doc.spec.print.pageSize = 0 := zero
      exact sized ⟨size, size⟩
  · cases loads

theorem loadOf_previous (loads : doc.loadOf .previous data vars cursorStacks = .ok (some load)) :
    (extractPageInfo data doc.spec.path).hasPreviousPage = true ∧ doc.spec.pageSize ≠ 0 ∧
      load = { vars := { last := some doc.spec.pageSize
                         before := (extractPageInfo data doc.spec.path).startCursor }
               updates := ["prepend"] } := by
  have mode : doc.spec.print.mode = .infinite := doc.infinite
  unfold loadOf loadPreviousPage at loads
  simp only [mode, Bool.false_eq_true, ↓reduceIte, reduceCtorEq, false_and] at loads
  split at loads
  · rename_i more
    unfold loadPage at loads
    split at loads
    · cases loads
    · rename_i sized
      simp only [mode, Except.ok.injEq, Option.some.injEq] at loads
      refine ⟨more, ?_, loads.symm⟩
      intro zero
      have size : doc.spec.print.pageSize = 0 := zero
      exact sized ⟨size, size⟩
  · cases loads

end Calls

/-- What the cache holds is a window of the connection, with what is known about its ends. -/
structure Holds (doc : ConnectionDocument) (connection : EdgeConnection) (layer : LayerID)
    (storage : InMemoryStorage) (pages : List EdgePage) (entries : List EdgeEntry)
    (info : String → Option GraphQLValue) (earlier later : List GraphQLObject) : Prop where
  caches : Caches doc connection layer (some (.array (recordLinks entries))) entries info storage
  linked : LinksCached doc storage
  split : connection.edges = earlier ++ entries.map Prod.fst ++ later
  contains : ∀ page ∈ pages, page.edges <:+: entries.map Prod.fst
  next : doc.direction.supports .next = true →
    info "endCursor" =
        some (cursorText ((entries.map Prod.fst).getLast?.map connection.cursor)) ∧
      ∃ page ∈ pages, page.edges.getLast? = (entries.map Prod.fst).getLast? ∧
        info "hasNextPage" = some (.boolean page.hasNextPage) ∧
        (page.hasNextPage = true → connection.edges ≠ [] ∧
          (entries.map Prod.fst ≠ [] → later ≠ []))
  previous : doc.direction.supports .previous = true →
    info "startCursor" =
        some (cursorText ((entries.map Prod.fst).head?.map connection.cursor)) ∧
      ∃ page ∈ pages, page.edges.head? = (entries.map Prod.fst).head? ∧
        info "hasPreviousPage" = some (.boolean page.hasPreviousPage) ∧
        (page.hasPreviousPage = true → connection.edges ≠ [] ∧
          (entries.map Prod.fst ≠ [] → earlier ≠ []))
  both : doc.direction = .both → entries.map Prod.fst ≠ [] ∨ connection.edges = []

section Window

variable {layer : LayerID} {storage final : InMemoryStorage} {pages : List EdgePage}
  {entries : List EdgeEntry} {info : String → Option GraphQLValue}
  {earlier later : List GraphQLObject} {args : CursorVariables}

theorem Holds.showsWindow (fits : doc.Fits connection)
    (holds : Holds doc connection layer storage pages entries info earlier later) :
    doc.ShowsWindow connection storage pages := by
  have edges := cachedEdges_eq fits holds.linked holds.caches
  have pageInfo := cachedPageInfo_eq holds.linked holds.caches
  have shown : doc.cachedEdges storage = (entries.map Prod.fst).map fun edge =>
      (.string (connection.cursor edge), nodeID edge) := by
    rw [edges, List.map_map]
    rfl
  refine ⟨earlier, entries.map Prod.fst, later, holds.split, shown, ?_, holds.contains, ?_, ?_⟩
  · have cursors : ((entries.map Prod.fst).map connection.cursor).Nodup := by
      have distinct := connection.distinct
      rw [holds.split, List.map_append, List.map_append] at distinct
      exact (List.nodup_append.mp (List.nodup_append.mp distinct).1).2.1
    have texts : (((doc.cachedEdges storage).map fun edge => edge.1)).Nodup := by
      rw [shown, List.map_map]
      have named : (fun edge => (GraphQLValue.string (connection.cursor edge))) =
          GraphQLValue.string ∘ connection.cursor := rfl
      change ((entries.map Prod.fst).map fun edge =>
        (GraphQLValue.string (connection.cursor edge))).Nodup
      rw [named, ← List.map_map]
      exact cursors.map fun left right same => by simpa using same
    exact texts.of_map _
  · intro supported
    obtain ⟨cursor, page, member, last, flag, -⟩ := holds.next supported
    rw [pageInfo]
    refine ⟨?_, page, member, last, ?_⟩
    · rw [cursor]
      exact cursorText_text _
    · rw [flag]
      rfl
  · intro supported
    obtain ⟨cursor, page, member, first, flag, -⟩ := holds.previous supported
    rw [pageInfo]
    refine ⟨?_, page, member, first, ?_⟩
    · rw [cursor]
      exact cursorText_text _
    · rw [flag]
      rfl

theorem holds_first (fits : doc.Fits connection) (distinct : DistinctNodes connection)
    (oneSided : args.first = none ∨ args.last = none)
    (started : doc.direction = .both →
      (connection.page args).edges ≠ [] ∨ connection.edges = [])
    (fresh : doc.Fresh connection storage)
    (wrote : doc.writePage connection { args } storage = .ok () final) :
    ∃ layer entries info earlier later,
      Holds doc connection layer final [connection.page args] entries info earlier later := by
  obtain ⟨earlier, later, split, next, previous⟩ := CursorConnection.page_window args oneSided
  have known : (connection.page args).edges ⊆ connection.edges := by
    rw [split]
    exact List.Subset.trans (List.subset_append_right _ _) (List.subset_append_left _ _)
  have nodup : (connection.page args).edges.Nodup := by
    have edges := connection.edges_nodup
    rw [split] at edges
    exact (List.nodup_append.mp (List.nodup_append.mp edges).1).2.1
  have new : (([] : List EdgeEntry).map Prod.fst ++
      (connection.page ({ args } : Load).args).edges).Nodup := nodup
  have caches : Caches doc connection storage.topLayer.1.id none [] (fun _ => none)
      storage.topLayer.2 :=
    { entered := fun _ member => nomatch member
      edges :=
        { settled := fresh.settled
          ranked := Nat.zero_le _
          fine := by
            intro id key
            refine ⟨⟨?_, ?_, ?_⟩, fun _ member => nomatch member⟩
            · rintro rfl rfl
              exact fresh.edges _ _ .list
            · rintro rank edge record member placed rfl rfl
              rw [fresh.edges _ _ (.cursor member placed)]
            · rintro rank edge record node value member placed reached identified rfl rfl
              exact fresh.nodeIDs rank edge record _ value member placed reached identified }
      info :=
        { settled := fresh.settled
          ranked := Nat.zero_le _
          fine := fun id key sameID member => fresh.pageInfo id key ⟨sameID, member⟩ } }
  have begun : writeLayer none storage = .ok storage.topLayer.1.id storage.topLayer.2 := rfl
  unfold writePage write at wrote
  rw [EStateM.bind_of_ok begun] at wrote
  obtain ⟨data, object⟩ : ∃ data,
      (EdgePage.pageInfo (connection.page args)).toValue = .object data := ⟨_, rfl⟩
  obtain ⟨added, page, cached, linked⟩ := writePage_cached fits distinct (.inl ⟨rfl, rfl⟩)
    (.inr ⟨rfl, rfl⟩) known new caches wrote object
  have all : combine { args } [] added = added := rfl
  rw [all] at cached
  obtain ⟨endCursor, hasNextPage, startCursor, hasPreviousPage⟩ :=
    updatedInfo_first object (fun _ => none) doc.direction.updates
  refine ⟨storage.topLayer.1.id, added,
    updatedInfo doc.direction.updates none (fun _ => none) data, earlier, later, ?_⟩
  have shown : added.map Prod.fst = (connection.page args).edges := page
  exact
    { caches := cached
      linked := linked
      split := by rw [shown]; exact split
      contains := by
        intro other member
        rewrite [List.mem_singleton.mp member, shown]
        exact List.infix_refl _
      next := by
        intro _
        rw [shown]
        exact ⟨endCursor, _, List.mem_singleton.mpr rfl, rfl, hasNextPage, next⟩
      previous := by
        intro _
        rw [shown]
        exact ⟨startCursor, _, List.mem_singleton.mpr rfl, rfl, hasPreviousPage, previous⟩
      both := by
        rw [shown]
        exact started }

private theorem holds_write (fits : doc.Fits connection) (distinct : DistinctNodes connection)
    (holds : Holds doc connection layer storage pages entries info earlier later) {load : Load}
    (loadFits : doc.LoadFits load entries) {front back : List GraphQLObject}
    (split : connection.edges =
      front ++ combine load (entries.map Prod.fst) (connection.page load.args).edges ++ back)
    (wrote : doc.writePage connection load storage = .ok () final) {data : GraphQLObject}
    (object : (EdgePage.pageInfo (connection.page load.args)).toValue = .object data) :
    ∃ added : List EdgeEntry, added.map Prod.fst = (connection.page load.args).edges ∧
      (combine load entries added).map Prod.fst =
        combine load (entries.map Prod.fst) (connection.page load.args).edges ∧
      Caches doc connection layer (some (.array (recordLinks (combine load entries added))))
        (combine load entries added)
        (updatedInfo doc.direction.updates load.applyUpdates info data) final ∧
      LinksCached doc final := by
  have edges := connection.edges_nodup
  rw [split] at edges
  have window := (List.nodup_append.mp (List.nodup_append.mp edges).1).2.1
  have fresh : (entries.map Prod.fst ++ (connection.page load.args).edges).Nodup := by
    unfold combine at window
    split at window
    · exact List.nodup_append_comm.mp window
    · exact window
  have known : (connection.page load.args).edges ⊆ connection.edges := by
    intro edge member
    have inside : edge ∈ combine load (entries.map Prod.fst) (connection.page load.args).edges :=
      mem_combine.mpr (List.mem_append_right _ member)
    rw [split]
    exact List.mem_append_left _ (List.mem_append_right _ inside)
  have begun := writeLayer_settled holds.caches.edges.settled
  unfold writePage write at wrote
  rw [EStateM.bind_of_ok begun] at wrote
  obtain ⟨added, page, cached, linked⟩ := writePage_cached fits distinct loadFits (.inl rfl) known
    fresh holds.caches wrote object
  refine ⟨added, page, ?_, cached, linked⟩
  unfold combine
  split
  · rw [List.map_append, page]
  · rw [List.map_append, page]

theorem holds_next (fits : doc.Fits connection) (distinct : DistinctNodes connection)
    (holds : Holds doc connection layer storage pages entries info earlier later)
    (supported : doc.direction.supports .next = true)
    (more : (doc.cachedPageInfo storage).hasNextPage = true) {count : Nat} (sized : count ≠ 0)
    {load : Load}
    (asked : load = { args := { first := some count
                                after := (doc.cachedPageInfo storage).endCursor }
                      applyUpdates := some ["append"] })
    (wrote : doc.writePage connection load storage = .ok () final) :
    ∃ entries info earlier later, Holds doc connection layer final
      (connection.page load.args :: pages) entries info earlier later := by
  obtain ⟨cursor, page, member, last, flag, left⟩ := holds.next supported
  rw [cachedPageInfo_eq holds.linked holds.caches] at more asked
  rw [flag] at more
  obtain ⟨some, rest⟩ := left more
  have after : load.args = { first := Option.some count
                             after := (entries.map Prod.fst).getLast?.map connection.cursor } := by
    rw [asked, cursor]
    simp only [Option.getD_some, cursorText_text]
  have updates : load.applyUpdates = Option.some ["append"] := by rw [asked]
  -- where the page stands, and what it says about the edges after it
  have placed : ∃ front back, connection.edges = front ++
      (entries.map Prod.fst ++ (connection.page load.args).edges) ++ back ∧
      (connection.page load.args).edges ≠ [] ∧
      ((connection.page load.args).hasNextPage = true → back ≠ []) ∧
      (entries.map Prod.fst ≠ [] → front = earlier) := by
    have positive : 0 < count := Nat.pos_of_ne_zero sized
    by_cases window : entries.map Prod.fst = []
    · refine ⟨[], connection.edges.drop count, ?_, ?_, ?_, fun other => absurd window other⟩
      · rw [after, window]
        exact (List.take_append_drop count connection.edges).symm
      · rw [after, window]
        exact List.ne_nil_of_length_pos (by
          rw [show (connection.page _).edges = connection.edges.take count from rfl,
            List.length_take]
          have := List.length_pos_of_ne_nil some
          omega)
      · rw [after, window]
        intro reported
        have longer : count < connection.edges.length := of_decide_eq_true reported
        exact List.ne_nil_of_length_pos (by rw [List.length_drop]; omega)
    · obtain ⟨edges, reports⟩ := CursorConnection.page_after_window holds.split window count
      refine ⟨earlier, later.drop count, ?_, ?_, ?_, fun _ => rfl⟩
      · rw [after, edges, List.append_assoc, List.append_assoc, List.take_append_drop,
          ← List.append_assoc]
        exact holds.split
      · rw [after, edges]
        have longer := List.length_pos_of_ne_nil (rest window)
        exact List.ne_nil_of_length_pos (by rw [List.length_take]; omega)
      · rw [after, reports]
        intro reported
        have longer : count < later.length := of_decide_eq_true reported
        exact List.ne_nil_of_length_pos (by rw [List.length_drop]; omega)
  obtain ⟨front, back, split, nonempty, beyond, same⟩ := placed
  have joined : combine load (entries.map Prod.fst) (connection.page load.args).edges =
      entries.map Prod.fst ++ (connection.page load.args).edges := by
    unfold combine
    rw [updates]
    rfl
  have loadFits : doc.LoadFits load entries := by
    refine .inr ⟨"append", ?_, updates⟩
    cases direction : doc.direction with
    | backward =>
        rw [direction] at supported
        cases supported
    | forward | both => exact List.mem_cons_self
  obtain ⟨data, object⟩ : ∃ data,
      (EdgePage.pageInfo (connection.page load.args)).toValue = .object data := ⟨_, rfl⟩
  obtain ⟨added, added_edges, window, cached, linked⟩ :=
    holds_write fits distinct holds loadFits (by rw [joined]; exact split) wrote object
  rw [joined] at window
  have known : connection.edges ≠ [] := some
  obtain ⟨endCursor, hasNextPage, kept⟩ := updatedInfo_append object info doc.direction supported
  rw [← updates] at endCursor hasNextPage kept
  refine ⟨_, _, front, back,
    { caches := cached, linked, split := ?_, contains := ?_, next := ?_, previous := ?_
      both := ?_ }⟩
  · rw [window]
    exact split
  · rw [window]
    intro other listed
    obtain rfl | older := List.mem_cons.mp listed
    · exact (List.suffix_append _ _).isInfix
    · exact (holds.contains other older).trans (List.prefix_append _ _).isInfix
  · rw [window]
    intro _
    have ends : (entries.map Prod.fst ++ (connection.page load.args).edges).getLast? =
        (connection.page load.args).edges.getLast? :=
      List.getLast?_append_of_ne_nil _ nonempty
    rw [ends]
    exact ⟨endCursor, _, List.mem_cons_self, rfl, hasNextPage, fun reported =>
      ⟨known, fun _ => beyond reported⟩⟩
  · rw [window]
    intro backward
    have direction : doc.direction = .both := by
      cases direction : doc.direction with
      | forward =>
          rw [direction] at backward
          cases backward
      | backward =>
          rw [direction] at supported
          cases supported
      | both => rfl
    have started : entries.map Prod.fst ≠ [] :=
      (holds.both direction).resolve_right known
    obtain ⟨startCursor, first, listed, starts, reports, beside⟩ := holds.previous backward
    obtain ⟨keptCursor, keptFlag⟩ := kept backward
    have begins : (entries.map Prod.fst ++ (connection.page load.args).edges).head? =
        (entries.map Prod.fst).head? := List.head?_append_of_ne_nil _ started
    rw [begins, keptCursor, keptFlag, startCursor, reports, same started]
    exact ⟨rfl, first, List.mem_cons_of_mem _ listed, starts, rfl, fun reported =>
      ⟨known, fun _ => (beside reported).2 started⟩⟩
  · rw [window]
    exact fun _ => .inl (List.append_ne_nil_of_right_ne_nil _ nonempty)

theorem holds_previous (fits : doc.Fits connection) (distinct : DistinctNodes connection)
    (holds : Holds doc connection layer storage pages entries info earlier later)
    (supported : doc.direction.supports .previous = true)
    (more : (doc.cachedPageInfo storage).hasPreviousPage = true) {count : Nat} (sized : count ≠ 0)
    {load : Load}
    (asked : load = { args := { last := some count
                                before := (doc.cachedPageInfo storage).startCursor }
                      applyUpdates := some ["prepend"] })
    (wrote : doc.writePage connection load storage = .ok () final) :
    ∃ entries info earlier later, Holds doc connection layer final
      (connection.page load.args :: pages) entries info earlier later := by
  obtain ⟨cursor, page, member, first, flag, left⟩ := holds.previous supported
  rw [cachedPageInfo_eq holds.linked holds.caches] at more asked
  rw [flag] at more
  obtain ⟨some, rest⟩ := left more
  have before : load.args = { last := Option.some count
                              before := (entries.map Prod.fst).head?.map connection.cursor } := by
    rw [asked, cursor]
    simp only [Option.getD_some, cursorText_text]
  have updates : load.applyUpdates = Option.some ["prepend"] := by rw [asked]
  have known : connection.edges ≠ [] := some
  have ending (edges : List GraphQLObject) : edges.take (edges.length - count) ++
      CursorConnection.lastEdges (Option.some count) edges = edges :=
    List.take_append_drop _ _
  have lasts {edges : List GraphQLObject} (nonempty : edges ≠ []) :
      CursorConnection.lastEdges (Option.some count) edges ≠ [] := by
    have length := List.length_pos_of_ne_nil nonempty
    have shown : CursorConnection.lastEdges (Option.some count) edges =
        edges.drop (edges.length - count) := rfl
    exact List.ne_nil_of_length_pos (by rw [shown, List.length_drop]; omega)
  have begins {edges : List GraphQLObject} (longer : count < edges.length) :
      edges.take (edges.length - count) ≠ [] :=
    List.ne_nil_of_length_pos (by rw [List.length_take]; omega)
  -- where the page stands, and what it says about the edges before it
  have placed : ∃ front back, connection.edges = front ++
      ((connection.page load.args).edges ++ entries.map Prod.fst) ++ back ∧
      (connection.page load.args).edges ≠ [] ∧
      ((connection.page load.args).hasPreviousPage = true → front ≠ []) ∧
      (entries.map Prod.fst ≠ [] → back = later) := by
    by_cases window : entries.map Prod.fst = []
    · refine ⟨connection.edges.take (connection.edges.length - count), [], ?_, ?_, ?_,
        fun other => absurd window other⟩
      · rw [before, window, List.append_nil, List.append_nil]
        exact (ending connection.edges).symm
      · rw [before, window]
        exact lasts known
      · rw [before, window]
        intro reported
        exact begins (of_decide_eq_true reported)
    · obtain ⟨edges, reports⟩ := CursorConnection.page_before_window holds.split window count
      refine ⟨earlier.take (earlier.length - count), later, ?_, ?_, ?_, fun _ => rfl⟩
      · rw [before, edges, ← List.append_assoc, ending]
        exact holds.split
      · rw [before, edges]
        exact lasts (rest window)
      · rw [before, reports]
        intro reported
        exact begins (of_decide_eq_true reported)
  obtain ⟨front, back, split, nonempty, beyond, same⟩ := placed
  have joined : combine load (entries.map Prod.fst) (connection.page load.args).edges =
      (connection.page load.args).edges ++ entries.map Prod.fst := by
    unfold combine
    rw [updates]
    rfl
  have loadFits : doc.LoadFits load entries := by
    refine .inr ⟨"prepend", ?_, updates⟩
    cases direction : doc.direction with
    | forward =>
        rw [direction] at supported
        cases supported
    | backward => exact List.mem_cons_self
    | both => exact List.mem_cons_of_mem _ List.mem_cons_self
  obtain ⟨data, object⟩ : ∃ data,
      (EdgePage.pageInfo (connection.page load.args)).toValue = .object data := ⟨_, rfl⟩
  obtain ⟨added, added_edges, window, cached, linked⟩ :=
    holds_write fits distinct holds loadFits (by rw [joined]; exact split) wrote object
  rw [joined] at window
  obtain ⟨startCursor, hasPreviousPage, kept⟩ :=
    updatedInfo_prepend object info doc.direction supported
  rw [← updates] at startCursor hasPreviousPage kept
  refine ⟨_, _, front, back,
    { caches := cached, linked, split := ?_, contains := ?_, next := ?_, previous := ?_
      both := ?_ }⟩
  · rw [window]
    exact split
  · rw [window]
    intro other listed
    obtain rfl | older := List.mem_cons.mp listed
    · exact (List.prefix_append _ _).isInfix
    · exact (holds.contains other older).trans (List.suffix_append _ _).isInfix
  · rw [window]
    intro forward
    have direction : doc.direction = .both := by
      cases direction : doc.direction with
      | forward =>
          rw [direction] at supported
          cases supported
      | backward =>
          rw [direction] at forward
          cases forward
      | both => rfl
    have started : entries.map Prod.fst ≠ [] :=
      (holds.both direction).resolve_right known
    obtain ⟨endCursor, last, listed, ends, reports, beside⟩ := holds.next forward
    obtain ⟨keptCursor, keptFlag⟩ := kept forward
    have stops : ((connection.page load.args).edges ++ entries.map Prod.fst).getLast? =
        (entries.map Prod.fst).getLast? := List.getLast?_append_of_ne_nil _ started
    rw [stops, keptCursor, keptFlag, endCursor, reports, same started]
    exact ⟨rfl, last, List.mem_cons_of_mem _ listed, ends, rfl, fun reported =>
      ⟨known, fun _ => (beside reported).2 started⟩⟩
  · rw [window]
    intro _
    have starts : ((connection.page load.args).edges ++ entries.map Prod.fst).head? =
        (connection.page load.args).edges.head? := List.head?_append_of_ne_nil _ nonempty
    rw [starts]
    exact ⟨startCursor, _, List.mem_cons_self, rfl, hasPreviousPage, fun reported =>
      ⟨known, fun _ => beyond reported⟩⟩
  · rw [window]
    exact fun _ => .inl (List.append_ne_nil_of_left_ne_nil nonempty _)

theorem Run.holds (fits : doc.Fits connection) (distinct : DistinctNodes connection)
    (oneSided : args.first = none ∨ args.last = none)
    (started : doc.direction = .both →
      (connection.page args).edges ≠ [] ∨ connection.edges = [])
    (run : doc.Run connection args storage pages) :
    ∃ layer entries info earlier later,
      Holds doc connection layer storage pages entries info earlier later := by
  induction run with
  | first fresh wrote => exact holds_first fits distinct oneSided started fresh wrote
  | @call storage final pages call data vars cursorStacks load run supported shown loads wrote ih =>
      obtain ⟨layer, entries, info, earlier, later, holds⟩ := ih
      refine ⟨layer, ?_⟩
      cases call with
      | next =>
          obtain ⟨more, sized, asked⟩ := loadOf_next loads
          rw [shown] at more asked
          exact holds_next fits distinct holds supported more sized (by rw [asked]) wrote
      | previous =>
          obtain ⟨more, sized, asked⟩ := loadOf_previous loads
          rw [shown] at more asked
          exact holds_previous fits distinct holds supported more sized (by rw [asked]) wrote

end Window

/-- Whatever pages are loaded, and in whatever order, the cache shows one window of the
connection: if its nodes have different ids, if the first page is asked for from one side only,
and if it is not empty when pages can be loaded on both sides of it. -/
theorem run_showsWindow (fits : doc.Fits connection) (distinct : DistinctNodes connection)
    {args : CursorVariables} (oneSided : args.first = none ∨ args.last = none)
    (started : doc.direction = .both →
      (connection.page args).edges ≠ [] ∨ connection.edges = [])
    {storage : InMemoryStorage} {pages : List EdgePage}
    (run : doc.Run connection args storage pages) :
    doc.ShowsWindow connection storage pages := by
  obtain ⟨layer, entries, info, earlier, later, holds⟩ := run.holds fits distinct oneSided started
  exact holds.showsWindow fits

def friend (key name : String) : GraphQLObject :=
  [("cursor", .string name), ("node", .object [(key, .string name)])]

def friends (key : String) : EdgeConnection where
  edges := [friend key "1", friend key "2"]
  cursor edge := (edge.property "cursor").propertyKey
  seesNext _ := false
  seesPrevious _ := false
  distinct := by
    have cursors : [friend key "1", friend key "2"].map
      (fun edge => (edge.property "cursor").propertyKey) = ["1", "2"] := rfl
    rw [cursors]
    decide

private theorem friendsPath_ne_nil : ["friends"] ≠ [] := List.cons_ne_nil _ _

def friendsDocument (key : String) : ConnectionDocument where
  spec := { path := ["friends"], pageSize := 1, mode := .infinite, direction := some .forward
            path_ne_nil := friendsPath_ne_nil }
  infinite := rfl
  direction := .forward
  printed := rfl
  config := { defaultKeys := [key] }
  selection := { fields := [("friends", friendsField)] }
  vars _ := []
  response _ page := [("friends", .object (friendsData page))]
  parent := rootID
  field := friendsField
  key := "friends::paginated"
  record := "_ROOT_.friends::paginated"
  connectionSelection := friendsSelection
  connectionData := friendsData
  edgesField := edgesField
  edgeSelection := edgeSelection
  pageInfoField := pageInfoField
  pageInfoRecord := "_ROOT_.friends::paginated.pageInfo"
where
  nodeSelection : SubscriptionSelection :=
    { fields := [(key, { type := "ID", keyRaw := key, visible := true })] }
  edgeSelection : SubscriptionSelection :=
    { fields := [("cursor", { type := "String", keyRaw := "cursor", visible := true }),
        ("node", { type := "User", keyRaw := "node", nullable := true, visible := true
                   selection := some nodeSelection })] }
  edgesField : SelectionField :=
    { type := "UserEdge", keyRaw := "edges", updates := some ["append"], visible := true
      selection := some edgeSelection }
  pageInfoField : SelectionField :=
    { type := "PageInfo", keyRaw := "pageInfo", visible := true
      selection := some { fields := pageInfoFields ["append"] } }
  friendsSelection : SubscriptionSelection :=
    { fields := [("edges", edgesField), ("pageInfo", pageInfoField)] }
  friendsField : SelectionField :=
    { type := "UserConnection", keyRaw := "friends::paginated", visible := true
      selection := some friendsSelection }
  friendsData (page : EdgePage) : GraphQLObject :=
    [("edges", .array (page.edges.map .object)),
      ("pageInfo", (EdgePage.pageInfo page).toValue)]

theorem EdgeCell.key {doc : ConnectionDocument} {connection : EdgeConnection} {id key : String}
    (cell : doc.EdgeCell connection id key) : key = "edges" ∨ key = "cursor" ∨ key = "node" := by
  cases cell with
  | list => exact .inl rfl
  | cursor => exact .inr (.inl rfl)
  | node => exact .inr (.inr rfl)

section Friends

variable {load : Load} {rank : Nat} {edge : GraphQLObject} {record id key : String}
  {written : CellWrite}

private theorem friends_cases (member : edge ∈ (friends "id").edges) :
    ∃ name, edge = friend "id" name ∧ recordID (friendsDocument "id").config "User"
      [("id", .string name)] = some ("User:" ++ name) := by
  change edge ∈ [friend "id" "1", friend "id" "2"] at member
  simp only [List.mem_cons, List.not_mem_nil, or_false] at member
  obtain rfl | rfl := member
  · exact ⟨"1", rfl, by decide⟩
  · exact ⟨"2", rfl, by decide⟩

private theorem friend_placed {name : String} :
    (friendsDocument "id").EdgeAt rank (friend "id" name) record ↔
      record = embeddedEntryID (friendsDocument "id").record "edges" rank := by
  have given : (friendsDocument "id").edgeList.entryID (friendsDocument "id").config
      (embeddedEntryID (friendsDocument "id").record "edges" rank) (friend "id" name) =
      .ok (some (embeddedEntryID (friendsDocument "id").record "edges" rank)) := rfl
  unfold EdgeAt
  rw [given]
  simp [eq_comm]

private theorem friend_linked {name parent key : String}
    (known : recordID (friendsDocument "id").config "User" [("id", .string name)] =
      some ("User:" ++ name)) :
    LinkedField.linkedID { parent, key, linkedType := "User", abstract := false }
      (friendsDocument "id").config [("id", .string name)] = .ok (some ("User:" ++ name)) :=
  congrArg Except.ok known

private theorem friend_stores {name : String}
    (known : recordID (friendsDocument "id").config "User" [("id", .string name)] =
      some ("User:" ++ name))
    (stores : Stores ((friendsDocument "id").context load) (friendsDocument "id").edgeSelection
      record (friend "id" name) id key written) :
    (id = record ∧ key = "cursor" ∧ written = .scalar (.string name)) ∨
      (id = record ∧ key = "node" ∧ written = .link (.string ("User:" ++ name))) ∨
      (id = "User:" ++ name ∧ key = "id" ∧ written = .scalar (.string name)) := by
  cases stores with
  | property typed member selected stored =>
      cases typed
      simp only [friend, List.mem_cons, List.not_mem_nil, or_false, Prod.mk.injEq] at member
      obtain ⟨rfl, rfl⟩ | ⟨rfl, rfl⟩ := member
      · cases selected
        cases stored with
        | scalar => exact .inl ⟨rfl, rfl, rfl⟩
        | updated _ updates => exact absurd rfl updates
      · cases selected
        cases stored with
        | scalar leaf | updated leaf => cases leaf
        | object _ linked =>
            have given := (friend_linked known).symm.trans linked
            cases given
            exact .inr (.inl ⟨rfl, rfl, rfl⟩)
        | withinObject branch linked stored =>
            have given := (friend_linked known).symm.trans linked
            cases given
            cases branch
            cases stored with
            | property typed member selected stored =>
                cases typed
                simp only [List.mem_cons, List.not_mem_nil, or_false, Prod.mk.injEq] at member
                obtain ⟨rfl, rfl⟩ := member
                cases selected
                cases stored with
                | scalar => exact .inr (.inr ⟨rfl, rfl, rfl⟩)
                | updated _ updates => exact absurd rfl updates

private theorem friend_node {name : String}
    (known : recordID (friendsDocument "id").config "User" [("id", .string name)] =
      some ("User:" ++ name)) {node : String} :
    (friendsDocument "id").NodeAt record (friend "id" name) node ↔ node = "User:" ++ name := by
  constructor
  · rintro ⟨field, object, selected, found, linked⟩
    cases selected
    cases found
    have given := (friend_linked known).symm.trans linked
    cases given
    rfl
  · rintro rfl
    exact ⟨_, _, rfl, rfl, friend_linked known⟩

private theorem friend_record (placed : (friendsDocument "id").EdgeAt rank edge record)
    (member : edge ∈ (friends "id").edges) : record.toList.head? = some '_' := by
  obtain ⟨name, rfl, -⟩ := friends_cases member
  rw [friend_placed.mp placed]
  unfold embeddedEntryID
  simp only [String.toList_append]
  rfl

private theorem user_head (name : String) : ("User:" ++ name).toList.head? = some 'U' := by
  rw [String.toList_append]
  rfl

private theorem friend_rank {other : Nat} {name otherName otherRecord : String}
    (placed : (friendsDocument "id").EdgeAt rank (friend "id" name) record)
    (otherPlaced : (friendsDocument "id").EdgeAt other (friend "id" otherName) otherRecord)
    (same : record = otherRecord) : rank = other := by
  rw [friend_placed.mp placed, friend_placed.mp otherPlaced] at same
  exact embeddedEntryID_inj same

theorem friends_fits : (friendsDocument "id").Fits (friends "id") where
  key _ := rfl
  branch := rfl
  edgesField := ⟨rfl, rfl, rfl⟩
  pageInfoField := ⟨rfl, rfl⟩
  pageInfoLinked := by
    intro pageInfo data object
    cases object
    rfl
  leads := by
    intro load
    refine @Leads.here _ _ _ (friendsDocument "id").selection.fields _ _ [] [] _ _ rfl rfl ?_
    intro other sibling member
    cases member
  shape := by
    intro load
    constructor
    · rfl
    · have names : ["edges", "pageInfo"].Nodup := by decide
      exact names
    · rfl
    · rfl
    · rfl
    · rfl
    · intro name value member notEdges notPageInfo
      rw [show (friendsDocument "id").connectionData _ = [_, _] from rfl] at member
      simp only [List.mem_cons, List.not_mem_nil, or_false, Prod.mk.injEq] at member
      obtain ⟨rfl, -⟩ | ⟨rfl, -⟩ := member
      · exact absurd rfl notEdges
      · exact absurd rfl notPageInfo
  edge := by
    intro edge member
    obtain ⟨name, rfl, known⟩ := friends_cases member
    constructor
    · rfl
    · exact ⟨_, rfl, rfl, rfl, rfl⟩
    · exact .inr ⟨_, rfl⟩
    · refine ⟨_, _, rfl, rfl, rfl, fun node found => ?_⟩
      cases found
      exact ⟨(by intro same; cases same), _, rfl, rfl, rfl, rfl⟩
    · intro rank
      exact ⟨_, friend_placed.mpr rfl, fun _ _ => ⟨_, (friend_node known).mpr rfl⟩⟩
  edgeApart := by
    intro load rank edge member record placed
    have head := friend_record placed member
    obtain ⟨name, rfl, known⟩ := friends_cases member
    constructor
    · intro id key written stores cell
      obtain ⟨rfl, rfl, rfl⟩ | ⟨rfl, rfl, rfl⟩ | ⟨rfl, rfl, rfl⟩ := friend_stores known stores
      · exact ⟨rfl, .inl ⟨rfl, rfl⟩⟩
      · refine ⟨rfl, .inr ⟨rfl, (by intro same; cases same), fun node reached => ?_⟩⟩
        rw [(friend_node known).mp reached]
      · exact absurd cell.key (by decide)
    · intro otherRank other otherRecord id value link _ _ _ _ stores
      obtain ⟨-, key, -⟩ | ⟨-, key, -⟩ | ⟨-, -, scalar⟩ := friend_stores known stores
      · exact absurd key (by decide)
      · exact absurd key (by decide)
      · cases scalar
    · intro otherRank other otherRecord id value written otherMember _ _ reached identified stores
      obtain ⟨otherName, rfl, otherKnown⟩ := friends_cases otherMember
      obtain ⟨-, key, -⟩ | ⟨-, key, -⟩ | ⟨user, -, scalar⟩ := friend_stores known stores
      · exact absurd key (by decide)
      · exact absurd key (by decide)
      · have names : name = otherName := by
          have text := congrArg String.toList (user.symm.trans ((friend_node otherKnown).mp reached))
          rw [String.toList_append, String.toList_append, List.append_cancel_left_eq] at text
          exact String.toList_inj.mp text
        rw [scalar, names]
        have id : nodeID (friend "id" otherName) = some (.string otherName) := rfl
        rw [Option.some.inj (id.symm.trans identified)]
  recordsApart := by
    intro rank other different edge member otherEdge otherMember _ record otherRecord placed
      otherPlaced same
    obtain ⟨name, rfl, -⟩ := friends_cases member
    obtain ⟨otherName, rfl, -⟩ := friends_cases otherMember
    exact different (friend_rank placed otherPlaced same)
  edgesApart := by
    intro load id key written stored
    have apart (keys : key = "edges" ∨ key = "cursor" ∨ key = "node" ∨ key = "id") :
        ¬ (friendsDocument "id").InfoCell id key ∧ ¬ (friendsDocument "id").LinkCell id key := by
      obtain rfl | rfl | rfl | rfl := keys
      all_goals exact ⟨fun cell => absurd cell.2 (by decide), fun cell =>
        cell.elim (fun parent => absurd parent.2 (by decide)) fun pageInfo =>
          absurd pageInfo.2 (by decide)⟩
    cases stored with
    | scalar leaf | updated leaf => cases leaf
    | list => exact apart (.inl rfl)
    | withinList branch member owned linked stored =>
        rw [entryObjects_map_object] at member
        obtain ⟨name, rfl, known⟩ := friends_cases ((friends "id").page_edges_subset load.args member)
        cases branch
        obtain ⟨-, rfl, -⟩ | ⟨-, rfl, -⟩ | ⟨-, rfl, -⟩ := friend_stores known stored
        · exact apart (.inr (.inl rfl))
        · exact apart (.inr (.inr (.inl rfl)))
        · exact apart (.inr (.inr (.inr rfl)))
    | lost _ _ owned =>
        have owned : ({ parent := "_ROOT_.friends::paginated", key := "edges"
                        linkedType := "UserEdge", abstract := false } : LinkedField).ownsEntry id =
          true := owned
        constructor
        · rintro ⟨rfl, -⟩
          exact absurd owned (by decide +kernel)
        · rintro (⟨rfl, -⟩ | ⟨rfl, -⟩)
          · exact absurd owned (by decide +kernel)
          · exact absurd owned (by decide +kernel)
  parentApart := ⟨by decide, by decide, by decide, fun cell => absurd cell.key (by decide)⟩

end Friends

def firstFriend : CursorVariables := { first := some 1 }

def nextFriend : CursorVariables := { first := some 1, after := some "1" }

def afterFirst (key : String) : InMemoryStorage :=
  resultState ((friendsDocument key).writePage (friends key) { args := firstFriend } {})

def afterNext (key : String) : InMemoryStorage :=
  resultState ((friendsDocument key).writePage (friends key)
    { args := nextFriend, applyUpdates := some ["append"] } (afterFirst key))

def displayedFirst (key : String) : GraphQLValue :=
  GraphQLValue.nest
    (.object [("pageInfo", ((friendsDocument key).cachedPageInfo (afterFirst key)).toValue)])
    (friendsDocument key).spec.path

def succeeds (result : EStateM.Result JSError InMemoryStorage Unit) : Bool :=
  match result with
  | .ok _ _ => true
  | .error _ _ => false

theorem eq_ok_of_succeeds {result : EStateM.Result JSError InMemoryStorage Unit}
    (success : succeeds result = true) : result = .ok () (resultState result) := by
  cases result with
  | ok => rfl
  | error => cases success

theorem fresh_empty (doc : ConnectionDocument) (connection : EdgeConnection) :
    doc.Fresh connection {} where
  settled := ⟨rfl, rfl, rfl, rfl, rfl, rfl⟩
  edges := fun _ _ _ => rfl
  pageInfo := fun _ _ _ => rfl
  nodeIDs := fun _ _ _ _ _ _ _ _ _ => rfl

theorem friends_run {key : String}
    (first : succeeds ((friendsDocument key).writePage (friends key) { args := firstFriend } {}) =
      true)
    (next : succeeds ((friendsDocument key).writePage (friends key)
      { args := nextFriend, applyUpdates := some ["append"] } (afterFirst key)) = true)
    (loads : (friendsDocument key).loadOf .next (displayedFirst key) {} {} =
      .ok (some { vars := nextFriend, updates := ["append"] })) :
    (friendsDocument key).Run (friends key) firstFriend (afterNext key)
      [(friends key).page nextFriend, (friends key).page firstFriend] :=
  .call (.first (fresh_empty _ _) (eq_ok_of_succeeds first)) rfl (extractPageInfo_nest _ rfl) loads
    (eq_ok_of_succeeds next)

/-- Two friends that have ids. -/
theorem run_showsWindow_friends :
    (friendsDocument "id").ShowsWindow (friends "id") (afterNext "id")
      [(friends "id").page nextFriend, (friends "id").page firstFriend] :=
  have distinct : DistinctNodes (friends "id") := by
    unfold DistinctNodes
    decide
  run_showsWindow friends_fits distinct (.inr rfl) nofun
    (friends_run (by decide +kernel) (by decide +kernel) (by decide +kernel))

/-- Friends with another key field have no `id` in the cache: the first one is left out when
the next one is loaded. -/
theorem run_drops_friend :
    (friendsDocument "uuid").Run (friends "uuid") firstFriend (afterNext "uuid")
        [(friends "uuid").page nextFriend, (friends "uuid").page firstFriend] ∧
      (friendsDocument "uuid").cachedEdges (afterNext "uuid") =
        [(.string "2", some .undefined)] ∧
      ¬ (friendsDocument "uuid").ShowsWindow (friends "uuid") (afterNext "uuid")
        [(friends "uuid").page nextFriend, (friends "uuid").page firstFriend] := by
  have shown : (friendsDocument "uuid").cachedEdges (afterNext "uuid") =
      [(.string "2", some .undefined)] := by decide +kernel
  refine ⟨friends_run (by decide +kernel) (by decide +kernel) (by decide +kernel), shown, ?_⟩
  rintro ⟨_, window, _, _, edges, _, contains, _, _⟩
  rw [shown] at edges
  obtain ⟨edge, rfl, -⟩ := List.map_eq_singleton_iff.mp edges.symm
  have first := (contains _ (List.mem_cons_of_mem _ (List.mem_singleton.mpr rfl))).subset
    (show friend "uuid" "1" ∈ _ from List.mem_singleton.mpr rfl)
  have next := (contains _ List.mem_cons_self).subset
    (show friend "uuid" "2" ∈ _ from List.mem_singleton.mpr rfl)
  have same : friend "uuid" "2" = friend "uuid" "1" :=
    (List.mem_singleton.mp next).trans (List.mem_singleton.mp first).symm
  exact absurd same (by decide)

end ConnectionDocument

end Houdini.Runtime
