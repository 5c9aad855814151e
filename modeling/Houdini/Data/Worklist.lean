import Mathlib.Data.List.Basic
import Mathlib.Logic.Relation

/-! A walk through a finite graph with a queue. A node can be queued, and visited, several times:
nothing looks at the queue before a node is put there. -/

set_option autoImplicit false

universe u

namespace Houdini

/-- The nodes of a graph that lead somewhere else, and everything that can be met. -/
structure Graph (Node : Type u) where
  next : Node → List Node
  nodes : List Node
  next_subset : ∀ node, next node ⊆ nodes

variable {Node : Type u}

namespace Graph

def Leads (graph : Graph Node) (node other : Node) : Prop := other ∈ graph.next node

def Reaches (graph : Graph Node) : Node → Node → Prop := Relation.ReflTransGen graph.Leads

end Graph

/-- A walk that has not ended: where a visited node leads was visited or is queued. -/
structure Walk (graph : Graph Node) where
  visited : List Node
  queue : List Node
  within : queue ⊆ graph.nodes
  followed : ∀ node ∈ visited, ∀ other ∈ graph.next node, other ∈ visited ∨ other ∈ queue

namespace Walk

variable {graph : Graph Node}

def startAll (graph : Graph Node) (origins : List Node) (areNodes : origins ⊆ graph.nodes) :
    Walk graph where
  visited := []
  queue := origins
  within := areNodes
  followed := fun _ member => nomatch member

def start (graph : Graph Node) (node : Node) (isNode : node ∈ graph.nodes) : Walk graph :=
  startAll graph [node] (List.cons_subset.mpr ⟨isNode, List.nil_subset _⟩)

variable [DecidableEq Node]

/-- The next node is visited, and the nodes that it leads to are queued unless they were
visited. -/
def visit (walk : Walk graph) (head : Node) (rest : List Node)
    (queued : walk.queue = head :: rest) : Walk graph where
  visited := walk.visited.insert head
  queue := rest ++ (graph.next head).filter (· ∉ walk.visited.insert head)
  within := by
    have within := walk.within
    rw [queued] at within
    refine List.append_subset.mpr ⟨fun node member => within (List.mem_cons_of_mem _ member), ?_⟩
    exact fun node member => graph.next_subset head (List.mem_of_mem_filter member)
  followed := by
    intro node visited other leads
    by_cases seen : other ∈ walk.visited.insert head
    · exact Or.inl seen
    refine Or.inr (List.mem_append.mpr ?_)
    rcases List.mem_insert_iff.mp visited with rfl | earlier
    · exact Or.inr (List.mem_filter.mpr ⟨leads, by simpa using seen⟩)
    · have unseen : other ≠ head ∧ other ∉ walk.visited :=
        not_or.mp fun either => seen (List.mem_insert_iff.mpr either)
      have followed := walk.followed node earlier other leads
      rw [queued] at followed
      rcases followed with old | waits
      · exact absurd old unseen.2
      · rcases List.mem_cons.mp waits with equal | later
        · exact absurd equal unseen.1
        · exact Or.inl later

def unvisited (walk : Walk graph) : Nat := (graph.nodes.filter (· ∉ walk.visited)).length

def delay (walk : Walk graph) : Nat := walk.queue.findIdx (· ∉ walk.visited)

theorem visit_decreases (walk : Walk graph) {head : Node} {rest : List Node}
    (queued : walk.queue = head :: rest) :
    Prod.Lex (· < ·) (· < ·) ((walk.visit head rest queued).unvisited,
      (walk.visit head rest queued).delay) (walk.unvisited, walk.delay) := by
  by_cases seen : head ∈ walk.visited
  · have same : walk.visited.insert head = walk.visited := List.insert_of_mem seen
    have unvisited : (walk.visit head rest queued).unvisited = walk.unvisited := by
      simp only [Walk.unvisited, visit, same]
    rw [unvisited]
    apply Prod.Lex.right
    have followed := walk.followed head seen
    simp only [delay, visit, same, queued, List.findIdx_cons, seen, not_true_eq_false,
      decide_false, cond_false, List.findIdx_append]
    split
    · exact Nat.lt_succ_self _
    · next none =>
        -- nothing waits that is new, and so nothing new is queued
        have old : ∀ node ∈ rest, node ∈ walk.visited := by
          intro node member
          by_contra new
          exact none (List.findIdx_lt_length_of_exists ⟨node, member, by simpa using new⟩)
        have nothing : (graph.next head).filter (fun node => decide (node ∉ walk.visited)) = [] := by
          refine List.filter_eq_nil_iff.mpr fun node leads => ?_
          rcases followed node leads with visited | waits
          · simpa using visited
          · rw [queued] at waits
            rcases List.mem_cons.mp waits with rfl | later
            · simpa using seen
            · simpa using old node later
        have length : rest.findIdx (fun node => decide (node ∉ walk.visited)) = rest.length :=
          List.findIdx_eq_length.mpr fun node member => by simpa using old node member
        rw [nothing, length]
        simp
  · apply Prod.Lex.left
    have isNode : head ∈ graph.nodes := walk.within (by rw [queued]; exact List.mem_cons_self)
    have remaining : graph.nodes.filter (· ∉ walk.visited.insert head) =
        (graph.nodes.filter (· ∉ walk.visited)).filter (· ≠ head) := by
      rw [List.filter_filter]
      refine List.filter_congr fun node _ => ?_
      simp [List.mem_insert_iff]
    have fewer : (graph.nodes.filter (· ∉ walk.visited.insert head)).length <
        walk.unvisited := by
      rw [remaining]
      exact List.length_filter_lt_length_iff_exists.mpr
        ⟨head, List.mem_filter.mpr ⟨isNode, by simpa using seen⟩, by simp⟩
    exact fewer

def finish (walk : Walk graph) : List Node :=
  match queued : walk.queue with
  | [] => walk.visited
  | head :: rest => (walk.visit head rest queued).finish
termination_by (walk.unvisited, walk.delay)
decreasing_by exact walk.visit_decreases queued

theorem mem_finish_of_reaches (walk : Walk graph) {node other : Node}
    (seen : node ∈ walk.visited ∨ node ∈ walk.queue) (reaches : graph.Reaches node other) :
    other ∈ walk.finish := by
  induction walk using finish.induct with
  | case1 walk queued =>
      have visited : node ∈ walk.visited := by
        rcases seen with visited | waits
        · exact visited
        · rw [queued] at waits
          nomatch waits
      rw [finish]
      split
      · induction reaches with
        | refl => exact visited
        | tail _ leads ih =>
            rcases walk.followed _ ih _ leads with visited | waits
            · exact visited
            · rw [queued] at waits
              nomatch waits
      · next other => exact absurd (queued.symm.trans other) nofun
  | case2 walk head rest queued ih =>
      rw [finish]
      split
      · next empty => exact absurd (queued.symm.trans empty) nofun
      · next head' rest' queued' =>
          obtain ⟨rfl, rfl⟩ := List.cons.inj (queued.symm.trans queued')
          apply ih
          rcases seen with visited | waits
          · exact Or.inl (List.mem_insert_of_mem visited)
          · rw [queued] at waits
            rcases List.mem_cons.mp waits with rfl | later
            · exact Or.inl List.mem_insert_self
            · exact Or.inr (List.mem_append_left _ later)

theorem reaches_of_mem_finish (walk : Walk graph) {origins : List Node}
    (reached : ∀ node, node ∈ walk.visited ∨ node ∈ walk.queue →
      ∃ origin ∈ origins, graph.Reaches origin node)
    {node : Node} (visited : node ∈ walk.finish) : ∃ origin ∈ origins, graph.Reaches origin node := by
  induction walk using finish.induct with
  | case1 walk queued =>
      rw [finish] at visited
      split at visited
      · exact reached node (Or.inl visited)
      · next other => exact absurd (queued.symm.trans other) nofun
  | case2 walk head rest queued ih =>
      obtain ⟨origin, isOrigin, headReached⟩ :=
        reached head (Or.inr (by rw [queued]; exact List.mem_cons_self))
      rw [finish] at visited
      split at visited
      · next empty => exact absurd (queued.symm.trans empty) nofun
      · next head' rest' queued' =>
          obtain ⟨rfl, rfl⟩ := List.cons.inj (queued.symm.trans queued')
          refine ih ?_ visited
          intro other seen
          rcases seen with visited | waits
          · rcases List.mem_insert_iff.mp visited with rfl | earlier
            · exact ⟨origin, isOrigin, headReached⟩
            · exact reached other (Or.inl earlier)
          · rcases List.mem_append.mp waits with later | leads
            · exact reached other (Or.inr (by rw [queued]; exact List.mem_cons_of_mem _ later))
            · exact ⟨origin, isOrigin, headReached.tail (List.mem_of_mem_filter leads)⟩

theorem mem_finish_startAll_iff {origins : List Node} {node : Node}
    (areNodes : origins ⊆ graph.nodes) :
    node ∈ (startAll graph origins areNodes).finish ↔
      ∃ origin ∈ origins, graph.Reaches origin node := by
  constructor
  · refine reaches_of_mem_finish _ fun other seen => ?_
    rcases seen with visited | waits
    · exact absurd visited List.not_mem_nil
    · exact ⟨other, waits, Relation.ReflTransGen.refl⟩
  · rintro ⟨origin, isOrigin, reaches⟩
    exact mem_finish_of_reaches _ (Or.inr isOrigin) reaches

theorem mem_finish_start_iff {origin node : Node} (isNode : origin ∈ graph.nodes) :
    node ∈ (start graph origin isNode).finish ↔ graph.Reaches origin node := by
  rw [start, mem_finish_startAll_iff]
  simp

end Walk

end Houdini
