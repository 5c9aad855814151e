import Mathlib.Data.List.Nodup

/-! The cursor connections specification: which edges a server answers with, and
what it reports about the edges around them. -/

set_option autoImplicit false

universe u v

/-- The arguments of a connection field. An argument that is `null` is not there. -/
structure PageArguments (Cursor : Type v) where
  first : Option Nat := none
  last : Option Nat := none
  after : Option Cursor := none
  before : Option Cursor := none
  deriving DecidableEq, Repr

structure ConnectionPage (Edge : Type u) (Cursor : Type v) where
  edges : List Edge
  startCursor : Option Cursor
  endCursor : Option Cursor
  hasNextPage : Bool
  hasPreviousPage : Bool
  deriving DecidableEq, Repr

/-- A connection that does not change. A server may be unable to look past the cursor a
page starts from, which the last two fields leave open. -/
structure CursorConnection (Edge : Type u) (Cursor : Type v) where
  edges : List Edge
  cursor : Edge → Cursor
  distinct : (edges.map cursor).Nodup
  seesPrevious : PageArguments Cursor → Bool := fun _ => true
  seesNext : PageArguments Cursor → Bool := fun _ => true

namespace CursorConnection

variable {Edge : Type u} {Cursor : Type v} [DecidableEq Cursor]
variable (connection : CursorConnection Edge Cursor)

/-- The edges after the one with a cursor, all of them if there is none. -/
def edgesAfter (after : Option Cursor) : List Edge :=
  match after with
  | none => connection.edges
  | some position =>
      if connection.edges.any (connection.cursor · = position) then
        (connection.edges.dropWhile (connection.cursor · ≠ position)).tail
      else connection.edges

/-- The edges before the one with a cursor, all of them if there is none. -/
def edgesBefore (before : Option Cursor) (edges : List Edge) : List Edge :=
  match before with
  | none => edges
  | some position => edges.takeWhile (connection.cursor · ≠ position)

def edgesBetween (arguments : PageArguments Cursor) : List Edge :=
  connection.edgesBefore arguments.before (connection.edgesAfter arguments.after)

def firstEdges : Option Nat → List Edge → List Edge
  | none, edges => edges
  | some count, edges => edges.take count

def lastEdges : Option Nat → List Edge → List Edge
  | none, edges => edges
  | some count, edges => edges.drop (edges.length - count)

def edgesToReturn (arguments : PageArguments Cursor) : List Edge :=
  lastEdges arguments.last (firstEdges arguments.first (connection.edgesBetween arguments))

def hasPreviousPage (arguments : PageArguments Cursor) : Bool :=
  match arguments.last with
  | some count => decide (count < (connection.edgesBetween arguments).length)
  | none =>
      arguments.after.isSome && connection.seesPrevious arguments &&
        decide ((connection.edgesAfter arguments.after).length < connection.edges.length)

def hasNextPage (arguments : PageArguments Cursor) : Bool :=
  match arguments.first with
  | some count => decide (count < (connection.edgesBetween arguments).length)
  | none =>
      arguments.before.isSome && connection.seesNext arguments &&
        decide ((connection.edgesBetween arguments).length <
          (connection.edgesAfter arguments.after).length)

def page (arguments : PageArguments Cursor) : ConnectionPage Edge Cursor where
  edges := connection.edgesToReturn arguments
  startCursor := (connection.edgesToReturn arguments).head?.map connection.cursor
  endCursor := (connection.edgesToReturn arguments).getLast?.map connection.cursor
  hasNextPage := connection.hasNextPage arguments
  hasPreviousPage := connection.hasPreviousPage arguments

@[simp] theorem page_edges (arguments : PageArguments Cursor) :
    (connection.page arguments).edges = connection.edgesToReturn arguments := rfl

@[simp] theorem page_endCursor (arguments : PageArguments Cursor) :
    (connection.page arguments).endCursor =
      (connection.edgesToReturn arguments).getLast?.map connection.cursor := rfl

@[simp] theorem page_startCursor (arguments : PageArguments Cursor) :
    (connection.page arguments).startCursor =
      (connection.edgesToReturn arguments).head?.map connection.cursor := rfl

theorem endCursor_congr {arguments arguments' : PageArguments Cursor}
    (same : (connection.page arguments).edges = (connection.page arguments').edges) :
    (connection.page arguments).endCursor = (connection.page arguments').endCursor := by
  simp only [page_edges] at same
  simp only [page_endCursor, same]

theorem startCursor_congr {arguments arguments' : PageArguments Cursor}
    (same : (connection.page arguments).edges = (connection.page arguments').edges) :
    (connection.page arguments).startCursor = (connection.page arguments').startCursor := by
  simp only [page_edges] at same
  simp only [page_startCursor, same]

section Splits

variable {connection} {earlier later : List Edge} {edge : Edge}

omit [DecidableEq Cursor] in
private theorem cursor_ne_of_split (split : connection.edges = earlier ++ edge :: later) :
    ∀ other ∈ earlier, connection.cursor other ≠ connection.cursor edge := by
  intro other member same
  have distinct := connection.distinct
  rw [split, List.map_append, List.nodup_append] at distinct
  exact distinct.2.2 _ (List.mem_map_of_mem member) _ (List.mem_map_of_mem List.mem_cons_self) same

theorem edgesAfter_edge (split : connection.edges = earlier ++ edge :: later) :
    connection.edgesAfter (some (connection.cursor edge)) = later := by
  have found : connection.edges.any (connection.cursor · = connection.cursor edge) = true := by
    rw [List.any_eq_true]
    exact ⟨edge, by rw [split]; simp, by simp⟩
  have skipped : connection.edges.dropWhile (connection.cursor · ≠ connection.cursor edge) =
      edge :: later := by
    rw [split, List.dropWhile_append_of_pos]
    · rw [List.dropWhile_cons_of_neg (by simp)]
    · intro other member
      simpa using cursor_ne_of_split split other member
  simp only [edgesAfter, found, ↓reduceIte, skipped, List.tail_cons]

theorem edgesBefore_edge (split : connection.edges = earlier ++ edge :: later) :
    connection.edgesBefore (some (connection.cursor edge)) connection.edges = earlier := by
  simp only [edgesBefore]
  rw [split, List.takeWhile_append_of_pos]
  · rw [List.takeWhile_cons_of_neg (by simp), List.append_nil]
  · intro other member
    simpa using cursor_ne_of_split split other member

end Splits

theorem edgesAfter_suffix (after : Option Cursor) :
    connection.edgesAfter after <:+ connection.edges := by
  cases after with
  | none => exact List.suffix_refl _
  | some position =>
      simp only [edgesAfter]
      split
      · exact (List.tail_suffix _).trans (List.dropWhile_suffix _)
      · exact List.suffix_refl _

theorem edgesBefore_prefix (before : Option Cursor) (edges : List Edge) :
    connection.edgesBefore before edges <+: edges := by
  cases before with
  | none => exact List.prefix_refl _
  | some position => exact List.takeWhile_prefix _

theorem page_edges_subset (arguments : PageArguments Cursor) :
    (connection.page arguments).edges ⊆ connection.edges := by
  obtain ⟨first, last, after, before⟩ := arguments
  have between : connection.edgesBefore before (connection.edgesAfter after) ⊆ connection.edges :=
    List.Subset.trans (connection.edgesBefore_prefix before _).subset
      (connection.edgesAfter_suffix after).subset
  have taken (edges : List Edge) : firstEdges first edges ⊆ edges := by
    cases first with
    | none => exact List.Subset.refl _
    | some count => exact (List.take_prefix count edges).subset
  have dropped (edges : List Edge) : lastEdges last edges ⊆ edges := by
    cases last with
    | none => exact List.Subset.refl _
    | some count => exact (List.drop_suffix _ edges).subset
  exact List.Subset.trans (dropped _) (List.Subset.trans (taken _) between)

private theorem edgesAfter_lastEdges {earlier window : List Edge} (count : Nat)
    (split : connection.edges = earlier ++ window) :
    connection.edgesAfter ((lastEdges (some (count + 1)) earlier).getLast?.map
      connection.cursor) = window := by
  rcases List.eq_nil_or_concat earlier with rfl | ⟨initial, final, rfl⟩
  · have nothing : lastEdges (some (count + 1)) ([] : List Edge) = [] := List.drop_nil
    rw [nothing]
    exact split
  · have shown : ¬ (initial.concat final).length ≤
        (initial.concat final).length - (count + 1) := by
      rw [List.length_concat]
      omega
    simp only [lastEdges]
    rw [List.getLast?_drop, if_neg shown]
    simp only [List.concat_eq_append, List.getLast?_append, List.getLast?_singleton,
      Option.some_or, Option.map_some]
    rw [List.concat_eq_append, List.append_assoc] at split
    exact edgesAfter_edge split

/-- The page before one that was asked for by `first` and `after` ends where that one
begins: asking for what comes after it leads back. -/
theorem page_after_before (count : Nat) (after : Option Cursor) :
    let current := connection.page { first := some count, after }
    let previous := connection.page { last := some count, before := current.startCursor }
    (connection.page { first := some count, after := previous.endCursor }).edges =
      current.edges := by
  intro current previous
  have currentEdges : current.edges = (connection.edgesAfter after).take count := rfl
  change (connection.edgesAfter previous.endCursor).take count = current.edges
  cases count with
  | zero => rw [currentEdges, List.take_zero, List.take_zero]
  | succ count =>
      obtain ⟨earlier, split⟩ := connection.edgesAfter_suffix after
      have previousEdges : previous.edges = lastEdges (some (count + 1)) earlier := by
        have shown : previous.edges = lastEdges (some (count + 1))
            (connection.edgesBefore current.startCursor connection.edges) := rfl
        rw [shown]
        cases window : connection.edgesAfter after with
        | nil =>
            have nothing : current.startCursor = none := by
              change Option.map _ (current.edges.head?) = none
              rw [currentEdges, window]
              rfl
            rw [window, List.append_nil] at split
            rw [nothing, ← split]
            rfl
        | cons edge later =>
            have starts : current.startCursor = some (connection.cursor edge) := by
              change Option.map _ (current.edges.head?) = _
              rw [currentEdges, window]
              rfl
            rw [window] at split
            rw [starts, edgesBefore_edge split.symm]
      have ends : previous.endCursor = previous.edges.getLast?.map connection.cursor := rfl
      rw [ends, previousEdges, connection.edgesAfter_lastEdges count split.symm, currentEdges]

section Windows

variable {connection} {earlier window later : List Edge}

omit [DecidableEq Cursor] in
theorem edges_nodup (connection : CursorConnection Edge Cursor) : connection.edges.Nodup :=
  connection.distinct.of_map _

theorem edgesAfter_window (split : connection.edges = earlier ++ window ++ later)
    (some : window ≠ []) :
    connection.edgesAfter (window.getLast?.map connection.cursor) = later := by
  obtain ⟨initial, final, rfl⟩ := List.eq_nil_or_concat window |>.resolve_left some
  rw [List.concat_eq_append, List.getLast?_append, List.getLast?_singleton, Option.some_or,
    Option.map_some]
  refine @edgesAfter_edge _ _ _ _ (earlier ++ initial) _ _ ?_
  rw [split]
  simp

theorem edgesBefore_window (split : connection.edges = earlier ++ window ++ later)
    (some : window ≠ []) :
    connection.edgesBefore (window.head?.map connection.cursor) connection.edges = earlier := by
  cases window with
  | nil => exact absurd rfl some
  | cons edge rest =>
      refine @edgesBefore_edge _ _ _ _ _ (rest ++ later) _ ?_
      rw [split]
      simp

theorem page_after_window (split : connection.edges = earlier ++ window ++ later)
    (some : window ≠ []) (count : Nat) :
    let page := connection.page
      { first := count, after := window.getLast?.map connection.cursor }
    page.edges = later.take count ∧ page.hasNextPage = decide (count < later.length) := by
  have after := edgesAfter_window split some
  constructor
  · change (connection.edgesAfter _).take count = _
    rw [after]
  · change decide (count < (connection.edgesAfter _).length) = _
    rw [after]

theorem page_before_window (split : connection.edges = earlier ++ window ++ later)
    (some : window ≠ []) (count : Nat) :
    let page := connection.page
      { last := count, before := window.head?.map connection.cursor }
    page.edges = lastEdges count earlier ∧
      page.hasPreviousPage = decide (count < earlier.length) := by
  have before := edgesBefore_window split some
  constructor
  · change lastEdges count (connection.edgesBefore _ connection.edges) = _
    rw [before]
  · change decide (count < (connection.edgesBefore _ connection.edges).length) = _
    rw [before]

/-- A page is a window of the connection. If it reports that there are more edges next to it,
there are some: unless it is empty, right beside it. -/
theorem page_window (arguments : PageArguments Cursor)
    (oneSided : arguments.first = none ∨ arguments.last = none) :
    ∃ earlier later,
      connection.edges = earlier ++ (connection.page arguments).edges ++ later ∧
      ((connection.page arguments).hasNextPage = true → connection.edges ≠ [] ∧
        ((connection.page arguments).edges ≠ [] → later ≠ [])) ∧
      ((connection.page arguments).hasPreviousPage = true → connection.edges ≠ [] ∧
        ((connection.page arguments).edges ≠ [] → earlier ≠ [])) := by
  obtain ⟨first, last, after, before⟩ := arguments
  obtain ⟨front, afterSplit⟩ := connection.edgesAfter_suffix after
  obtain ⟨back, beforeSplit⟩ := connection.edgesBefore_prefix before (connection.edgesAfter after)
  generalize between : connection.edgesBefore before (connection.edgesAfter after) = edges
    at beforeSplit
  have whole : connection.edges = front ++ edges ++ back := by
    rw [← afterSplit, ← beforeSplit, List.append_assoc]
  have frontLeft (left : (connection.edgesAfter after).length < connection.edges.length) :
      front ≠ [] := by
    intro none
    rw [← afterSplit, none] at left
    exact absurd left (Nat.lt_irrefl _)
  have backLeft (left : edges.length < (connection.edgesAfter after).length) : back ≠ [] := by
    intro none
    rw [← beforeSplit, none, List.append_nil] at left
    exact absurd left (Nat.lt_irrefl _)
  have nonempty (some : front ≠ [] ∨ edges ≠ [] ∨ back ≠ []) : connection.edges ≠ [] := by
    rw [whole]
    simp only [ne_eq, List.append_eq_nil_iff, not_and_or, or_assoc]
    exact some
  have next (reported : (connection.page ⟨none, last, after, before⟩).hasNextPage = true) :
      back ≠ [] := by
    refine backLeft ?_
    rw [← between]
    exact of_decide_eq_true (Bool.and_eq_true_iff.mp reported).2
  have previous (reported : (connection.page ⟨first, none, after, before⟩).hasPreviousPage = true) :
      front ≠ [] :=
    frontLeft (of_decide_eq_true (Bool.and_eq_true_iff.mp reported).2)
  have nextFirst (count : Nat)
      (reported : (connection.page ⟨some count, last, after, before⟩).hasNextPage = true) :
      count < edges.length := by
    rw [← between]
    exact of_decide_eq_true reported
  have previousLast (count : Nat)
      (reported : (connection.page ⟨first, some count, after, before⟩).hasPreviousPage = true) :
      count < edges.length := by
    rw [← between]
    exact of_decide_eq_true reported
  cases last with
  | none =>
      cases first with
      | none =>
          refine ⟨front, back, ?_, ?_, ?_⟩
          · change connection.edges = front ++ connection.edgesBefore before _ ++ back
            rw [between, whole]
          · intro reported
            have left := next reported
            exact ⟨nonempty (.inr (.inr left)), fun _ => left⟩
          · intro reported
            have left := previous reported
            exact ⟨nonempty (.inl left), fun _ => left⟩
      | some count =>
          refine ⟨front, edges.drop count ++ back, ?_, ?_, ?_⟩
          · change connection.edges = front ++ (connection.edgesBefore before _).take count ++ _
            rw [between, whole, ← List.append_assoc, List.append_assoc front (List.take _ _),
              List.take_append_drop]
          · intro reported
            have more := nextFirst count reported
            have some : edges ≠ [] := List.ne_nil_of_length_pos (by omega)
            have left : edges.drop count ≠ [] := by
              rw [ne_eq, List.drop_eq_nil_iff]
              omega
            exact ⟨nonempty (.inr (.inl some)), fun _ => List.append_ne_nil_of_left_ne_nil left _⟩
          · intro reported
            have left := previous reported
            exact ⟨nonempty (.inl left), fun _ => left⟩
  | some count =>
      obtain rfl : first = none := by simpa using oneSided
      refine ⟨front ++ edges.take (edges.length - count), back, ?_, ?_, ?_⟩
      · change connection.edges = _ ++ lastEdges (some count) (connection.edgesBefore before _) ++ _
        rw [between, whole, lastEdges, List.append_assoc front (List.take _ _),
          List.take_append_drop]
      · intro reported
        have left := next reported
        exact ⟨nonempty (.inr (.inr left)), fun _ => left⟩
      · intro reported
        have more := previousLast count reported
        have some : edges ≠ [] := List.ne_nil_of_length_pos (by omega)
        have left : edges.take (edges.length - count) ≠ [] := by
          rw [ne_eq, List.take_eq_nil_iff, not_or]
          exact ⟨by omega, some⟩
        exact ⟨nonempty (.inr (.inl some)), fun _ => List.append_ne_nil_of_right_ne_nil _ left⟩

end Windows

end CursorConnection
