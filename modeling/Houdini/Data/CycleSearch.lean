import Houdini.Data.Worklist
import Mathlib.Data.List.Chain
import Mathlib.Data.List.TakeWhile

/-! A depth-first search for the cycles of a graph. -/

set_option autoImplicit false

universe u

namespace Houdini

variable {Node : Type u}

structure CycleSearch (Node : Type u) where
  visited : List Node := []
  onStack : List Node := []
  cycles : List (List Node) := []

namespace CycleSearch

variable {graph : Graph Node} {before middle after search : CycleSearch Node}

structure IsCycle (graph : Graph Node) (cycle : List Node) : Prop where
  chain : cycle.IsChain graph.Leads
  closes : ∃ first last, cycle.head? = some first ∧ cycle.getLast? = some last ∧
    graph.Leads last first

def Settled (graph : Graph Node) (search : CycleSearch Node) : Prop :=
  ∀ node ∈ search.visited, node ∉ search.onStack →
    ¬ Relation.TransGen graph.Leads node node ∧
      ∀ other, graph.Leads node other → other ∈ search.visited ∧ other ∉ search.onStack

structure Searched (graph : Graph Node) (before after : CycleSearch Node) : Prop where
  visited : before.visited ⊆ after.visited
  onStack : ∀ node, node ∈ after.onStack ↔ node ∈ before.onStack
  cycles : ∃ new, after.cycles = before.cycles ++ new ∧ ∀ cycle ∈ new, IsCycle graph cycle
  settled : after.cycles = before.cycles → Settled graph before → Settled graph after

theorem Searched.refl (search : CycleSearch Node) : Searched graph search search where
  visited := List.Subset.refl _
  onStack := fun _ => Iff.rfl
  cycles := ⟨[], (List.append_nil _).symm, fun _ member => absurd member List.not_mem_nil⟩
  settled := fun _ settled => settled

theorem Searched.no_more (first : Searched graph before middle)
    (second : Searched graph middle after) (none : after.cycles = before.cycles) :
    middle.cycles = before.cycles ∧ after.cycles = middle.cycles := by
  obtain ⟨new, added, _⟩ := first.cycles
  obtain ⟨newer, addedNext, _⟩ := second.cycles
  rw [addedNext, added, List.append_assoc] at none
  have empty : new ++ newer = [] := by simpa using none
  obtain ⟨rfl, rfl⟩ := List.append_eq_nil_iff.mp empty
  rw [List.append_nil] at added addedNext
  exact ⟨added, addedNext⟩

theorem Searched.trans (first : Searched graph before middle)
    (second : Searched graph middle after) : Searched graph before after := by
  obtain ⟨new, added, areCycles⟩ := first.cycles
  obtain ⟨newer, addedNext, areNext⟩ := second.cycles
  refine ⟨fun node member => second.visited (first.visited member),
    fun node => (second.onStack node).trans (first.onStack node), ⟨new ++ newer, ?_, ?_⟩, ?_⟩
  · rw [addedNext, added, List.append_assoc]
  · intro cycle member
    cases List.mem_append.mp member with
    | inl early => exact areCycles cycle early
    | inr late => exact areNext cycle late
  · intro none settled
    obtain ⟨early, late⟩ := first.no_more second none
    exact second.settled late (first.settled early settled)

variable [DecidableEq Node]

def follow (below : Node → CycleSearch Node → CycleSearch Node) (path : List Node)
    (search : CycleSearch Node) (child : Node) : CycleSearch Node :=
  if child ∉ search.visited then below child search
  else if child ∈ search.onStack then
    let cycle := path.dropWhile (· ≠ child)
    if cycle ≠ [] then { search with cycles := search.cycles ++ [cycle] } else search
  else search

def dfs (graph : Graph Node) : Nat → Node → List Node → CycleSearch Node → CycleSearch Node
  | 0, _, _, search => search
  | depth + 1, node, path, search =>
      let path := path ++ [node]
      let entered := { search with
        visited := node :: search.visited
        onStack := node :: search.onStack }
      let left := (graph.next node).foldl
        (follow (fun child => dfs graph depth child path) path) entered
      { left with onStack := left.onStack.filter (· ≠ node) }

def start (graph : Graph Node) (search : CycleSearch Node) (node : Node) : CycleSearch Node :=
  if node ∉ search.visited then dfs graph graph.nodes.length node [] search else search

def searchAll (graph : Graph Node) (order : List Node) : CycleSearch Node :=
  order.foldl (start graph) {}

def unvisited (graph : Graph Node) (search : CycleSearch Node) : Nat :=
  (graph.nodes.filter (· ∉ search.visited)).length

theorem unvisited_mono (more : before.visited ⊆ after.visited) :
    unvisited graph after ≤ unvisited graph before := by
  refine List.Sublist.length_le (List.monotone_filter_right _ fun _ absent => ?_)
  rw [decide_eq_true_eq] at absent ⊢
  exact fun known => absent (more known)

theorem unvisited_lt {node : Node} (isNode : node ∈ graph.nodes) (new : node ∉ before.visited)
    (more : before.visited ⊆ after.visited) (seen : node ∈ after.visited) :
    unvisited graph after < unvisited graph before := by
  have shorter : (graph.nodes.filter (· ∉ after.visited)).Sublist
      (graph.nodes.filter (· ∉ before.visited)) := by
    refine List.monotone_filter_right _ fun _ absent => ?_
    rw [decide_eq_true_eq] at absent ⊢
    exact fun known => absent (more known)
  refine Nat.lt_of_le_of_ne shorter.length_le fun same => ?_
  have equal := shorter.eq_of_length same
  have member : node ∈ graph.nodes.filter (· ∉ before.visited) :=
    List.mem_filter.mpr ⟨isNode, by simpa using new⟩
  rw [← equal, List.mem_filter] at member
  simp [seen] at member

structure Below (graph : Graph Node) (depth : Nat) (path : List Node)
    (search : CycleSearch Node) : Prop where
  chain : path.IsChain graph.Leads
  onStack : ∀ node, node ∈ search.onStack ↔ node ∈ path
  visited : path ⊆ search.visited
  room : unvisited graph search ≤ depth

theorem Below.searched {depth : Nat} {path : List Node} (below : Below graph depth path before)
    (searched : Searched graph before after) : Below graph depth path after where
  chain := below.chain
  onStack := fun node => (searched.onStack node).trans (below.onStack node)
  visited := fun _ member => searched.visited (below.visited member)
  room := Nat.le_trans (unvisited_mono searched.visited) below.room

theorem isCycle_dropWhile {path : List Node} {node child : Node} (chain : path.IsChain graph.Leads)
    (last : path.getLast? = some node) (leads : graph.Leads node child) (member : child ∈ path) :
    IsCycle graph (path.dropWhile (· ≠ child)) := by
  have suffix : path.dropWhile (· ≠ child) <:+ path := List.dropWhile_suffix _
  have nonempty : path.dropWhile (· ≠ child) ≠ [] := by
    intro empty
    have all := List.dropWhile_eq_nil_iff.mp empty child member
    simp at all
  refine ⟨chain.suffix suffix, child, node, ?_, ?_, leads⟩
  · obtain ⟨first, rest, found⟩ := List.exists_cons_of_ne_nil nonempty
    have stopped := List.head?_dropWhile_not (· ≠ child) path
    rw [found] at stopped ⊢
    simpa using stopped
  · obtain ⟨front, whole⟩ := suffix
    rw [← last, ← whole, List.getLast?_append_of_ne_nil _ nonempty, whole]

theorem follow_searched {below : Node → CycleSearch Node → CycleSearch Node} {depth : Nat}
    {path : List Node} {node child : Node} (last : path.getLast? = some node)
    (leads : graph.Leads node child)
    (deeper : ∀ search, Below graph depth path search → child ∉ search.visited →
      Searched graph search (below child search) ∧ child ∈ (below child search).visited)
    (isBelow : Below graph depth path search) :
    Searched graph search (follow below path search child) ∧
      child ∈ (follow below path search child).visited ∧
      ((follow below path search child).cycles = search.cycles →
        child ∉ (follow below path search child).onStack) := by
  by_cases new : child ∉ search.visited
  · rw [follow, if_pos new]
    obtain ⟨searched, seen⟩ := deeper search isBelow new
    refine ⟨searched, seen, fun _ stacked => new ?_⟩
    exact isBelow.visited ((isBelow.onStack child).mp ((searched.onStack child).mp stacked))
  · have seen : child ∈ search.visited := not_not.mp new
    rw [follow, if_neg new]
    by_cases stacked : child ∈ search.onStack
    · have isCycle := isCycle_dropWhile isBelow.chain last leads ((isBelow.onStack child).mp stacked)
      have nonempty : path.dropWhile (· ≠ child) ≠ [] := by
        obtain ⟨first, _, head, _⟩ := isCycle.closes
        intro empty
        rw [empty] at head
        cases head
      rw [if_pos stacked]
      dsimp only
      rw [if_pos nonempty]
      have grows : search.cycles ++ [path.dropWhile (· ≠ child)] ≠ search.cycles := by simp
      refine ⟨⟨List.Subset.refl _, fun _ => Iff.rfl, ⟨_, rfl, fun cycle member => ?_⟩,
        fun none => absurd none grows⟩, seen, fun none => absurd none grows⟩
      rw [List.mem_singleton.mp member]
      exact isCycle
    · rw [if_neg stacked]
      exact ⟨Searched.refl search, seen, fun _ => stacked⟩

theorem foldl_follow_searched {below : Node → CycleSearch Node → CycleSearch Node} {depth : Nat}
    {path : List Node} {node : Node} (last : path.getLast? = some node)
    (deeper : ∀ child search, graph.Leads node child → Below graph depth path search →
      child ∉ search.visited →
      Searched graph search (below child search) ∧ child ∈ (below child search).visited)
    {children : List Node} (leads : ∀ child ∈ children, graph.Leads node child)
    (isBelow : Below graph depth path search) :
    Searched graph search (children.foldl (follow below path) search) ∧
      (∀ child ∈ children, child ∈ (children.foldl (follow below path) search).visited) ∧
      ((children.foldl (follow below path) search).cycles = search.cycles →
        ∀ child ∈ children, child ∉ (children.foldl (follow below path) search).onStack) := by
  induction children generalizing search with
  | nil =>
      refine ⟨Searched.refl search, ?_, ?_⟩
      · intro child member
        cases member
      · intro _ child member
        cases member
  | cons first rest ih =>
      obtain ⟨firstLeads, restLead⟩ := List.forall_mem_cons.mp leads
      obtain ⟨searched, seen, left⟩ := follow_searched last firstLeads
        (fun search isBelow new => deeper first search firstLeads isBelow new) isBelow
      obtain ⟨searchedRest, seenRest, leftRest⟩ := ih restLead (isBelow.searched searched)
      rw [List.foldl_cons]
      refine ⟨searched.trans searchedRest, fun child member => ?_, fun none child member => ?_⟩
      · cases List.mem_cons.mp member with
        | inl same =>
            rw [same]
            exact searchedRest.visited seen
        | inr later => exact seenRest child later
      · obtain ⟨early, late⟩ := searched.no_more searchedRest none
        cases List.mem_cons.mp member with
        | inl same =>
            rw [same, searchedRest.onStack]
            exact left early
        | inr later => exact leftRest late child later

omit [DecidableEq Node] in
theorem Settled.not_stacked_of_reaches (settled : Settled graph search) {node other : Node}
    (seen : node ∈ search.visited) (left : node ∉ search.onStack)
    (reaches : Relation.ReflTransGen graph.Leads node other) :
    other ∈ search.visited ∧ other ∉ search.onStack := by
  induction reaches with
  | refl => exact ⟨seen, left⟩
  | tail _ leads ih => exact (settled _ ih.1 ih.2).2 _ leads

theorem dfs_searched (depth : Nat) : ∀ (node : Node) (path : List Node) (search : CycleSearch Node),
    node ∈ graph.nodes → node ∉ search.visited → (path ++ [node]).IsChain graph.Leads →
    Below graph depth path search →
    Searched graph search (dfs graph depth node path search) ∧
      node ∈ (dfs graph depth node path search).visited := by
  induction depth with
  | zero =>
      intro node path search isNode new chain isBelow
      have some : 0 < unvisited graph search := List.length_pos_of_mem
        (List.mem_filter.mpr ⟨isNode, by simpa using new⟩)
      have room := isBelow.room
      omega
  | succ depth ih =>
      intro node path search isNode new chain isBelow
      have absent : node ∉ search.onStack := fun stacked =>
        new (isBelow.visited ((isBelow.onStack node).mp stacked))
      have inside : Below graph depth (path ++ [node]) { search with
          visited := node :: search.visited
          onStack := node :: search.onStack } := by
        refine ⟨chain, fun other => ?_, fun other member => ?_, ?_⟩
        · rw [List.mem_cons, List.mem_append, List.mem_singleton, isBelow.onStack, or_comm]
        · cases List.mem_append.mp member with
          | inl early => exact List.mem_cons_of_mem _ (isBelow.visited early)
          | inr last =>
              rw [List.mem_singleton.mp last]
              exact List.mem_cons_self
        · have less : unvisited graph { search with
              visited := node :: search.visited
              onStack := node :: search.onStack } < unvisited graph search :=
            unvisited_lt isNode new (fun _ known => List.mem_cons_of_mem _ known)
              List.mem_cons_self
          have room := isBelow.room
          omega
      have last : (path ++ [node]).getLast? = some node := List.getLast?_concat
      have deeper : ∀ child search, graph.Leads node child →
          Below graph depth (path ++ [node]) search → child ∉ search.visited →
          Searched graph search (dfs graph depth child (path ++ [node]) search) ∧
            child ∈ (dfs graph depth child (path ++ [node]) search).visited := by
        intro child search leads isBelow new
        refine ih child _ search (graph.next_subset node leads) new ?_ isBelow
        refine List.isChain_append.mpr ⟨chain, List.isChain_singleton _, fun other found next head => ?_⟩
        rw [last, Option.mem_some_iff] at found
        rw [List.head?_cons, Option.mem_some_iff] at head
        rw [← found, ← head]
        exact leads
      obtain ⟨searched, seen, left⟩ := foldl_follow_searched last deeper
        (fun child (member : child ∈ graph.next node) => member) inside
      have stack : ∀ other, other ∈ (dfs graph (depth + 1) node path search).onStack ↔
          other ∈ search.onStack := by
        intro other
        rw [dfs, List.mem_filter, searched.onStack, List.mem_cons, decide_eq_true_eq]
        constructor
        · exact fun both => both.1.resolve_left both.2
        · intro known
          refine ⟨.inr known, fun same => absent ?_⟩
          rw [← same]
          exact known
      refine ⟨⟨?_, stack, searched.cycles, ?_⟩, searched.visited List.mem_cons_self⟩
      · exact fun other known => searched.visited (List.mem_cons_of_mem _ known)
      · intro none settled
        have entered : Settled graph { search with
            visited := node :: search.visited
            onStack := node :: search.onStack } := by
          intro other seen left
          rw [List.mem_cons, not_or] at left
          have known := (List.mem_cons.mp seen).resolve_left left.1
          refine ⟨(settled other known left.2).1, fun next leads => ?_⟩
          obtain ⟨nextSeen, nextLeft⟩ := (settled other known left.2).2 next leads
          refine ⟨List.mem_cons_of_mem _ nextSeen, fun stacked => ?_⟩
          cases List.mem_cons.mp stacked with
          | inl same =>
              rw [same] at nextSeen
              exact new nextSeen
          | inr before => exact nextLeft before
        have behind := searched.settled none entered
        have stacked := (searched.onStack node).mpr List.mem_cons_self
        intro other seenOther leftOther
        rw [stack] at leftOther
        by_cases same : other = node
        · subst same
          refine ⟨fun cycle => ?_, fun next leads => ?_⟩
          · obtain ⟨next, leads, back⟩ := Relation.TransGen.head'_iff.mp cycle
            exact (behind.not_stacked_of_reaches (seen next leads) (left none next leads) back).2
              stacked
          · refine ⟨seen next leads, fun before => ?_⟩
            rw [stack] at before
            exact left none next leads ((searched.onStack next).mpr (List.mem_cons_of_mem _ before))
        · have gone : ¬ (other ∈ node :: search.onStack) := by
            rw [List.mem_cons, not_or]
            exact ⟨same, leftOther⟩
          obtain ⟨acyclic, next⟩ :=
            behind other seenOther (fun known => gone ((searched.onStack other).mp known))
          refine ⟨acyclic, fun child leads => ⟨(next child leads).1, fun before => ?_⟩⟩
          rw [stack] at before
          exact (next child leads).2 ((searched.onStack child).mpr (List.mem_cons_of_mem _ before))

theorem foldl_start_searched {order : List Node} (within : order ⊆ graph.nodes)
    (top : search.onStack = []) :
    Searched graph search (order.foldl (start graph) search) ∧
      ∀ node ∈ order, node ∈ (order.foldl (start graph) search).visited := by
  induction order generalizing search with
  | nil => exact ⟨Searched.refl search, fun node member => absurd member List.not_mem_nil⟩
  | cons first rest ih =>
      obtain ⟨isNode, rest⟩ := List.cons_subset.mp within
      have once : Searched graph search (start graph search first) ∧
          first ∈ (start graph search first).visited := by
        by_cases new : first ∉ search.visited
        · rw [start, if_pos new]
          refine dfs_searched _ first [] search isNode new (List.isChain_singleton _) ?_
          refine ⟨List.isChain_nil, fun node => ?_, List.nil_subset _, List.length_filter_le _ _⟩
          rw [top]
        · rw [start, if_neg new]
          exact ⟨Searched.refl search, not_not.mp new⟩
      have stillTop : (start graph search first).onStack = [] := by
        refine List.eq_nil_iff_forall_not_mem.mpr fun node member => ?_
        have before := (once.1.onStack node).mp member
        rw [top] at before
        cases before
      obtain ⟨searched, seen⟩ := ih rest stillTop
      rw [List.foldl_cons]
      refine ⟨once.1.trans searched, fun node member => ?_⟩
      cases List.mem_cons.mp member with
      | inl same =>
          rw [same]
          exact searched.visited once.2
      | inr later => exact seen node later

omit [DecidableEq Node] in
theorem IsCycle.exists_closed {cycle : List Node} (isCycle : IsCycle graph cycle) :
    ∃ node ∈ cycle, Relation.TransGen graph.Leads node node := by
  obtain ⟨first, last, head, final, leads⟩ := isCycle.closes
  refine ⟨first, List.mem_of_mem_head? head, ?_⟩
  cases cycle with
  | nil => cases head
  | cons node rest =>
      cases head
      rw [List.getLast?_eq_some_getLast (List.cons_ne_nil _ _), Option.some.injEq] at final
      have reaches := List.relationReflTransGen_of_exists_isChain_cons rest isCycle.chain final
      exact Relation.TransGen.tail' reaches leads

theorem searchAll_cycles {order : List Node} (within : order ⊆ graph.nodes) :
    (∀ cycle ∈ (searchAll graph order).cycles, IsCycle graph cycle) ∧
      ((searchAll graph order).cycles = [] →
        ∀ node ∈ order, ¬ Relation.TransGen graph.Leads node node) := by
  have first : ({} : CycleSearch Node).onStack = [] := rfl
  obtain ⟨searched, seen⟩ := foldl_start_searched within first
  constructor
  · obtain ⟨new, added, areCycles⟩ := searched.cycles
    intro cycle member
    exact areCycles cycle (by simpa [searchAll, added] using member)
  · intro none node member
    have settled := searched.settled none fun node member => absurd member List.not_mem_nil
    refine (settled node (seen node member) fun stacked => ?_).1
    cases (searched.onStack node).mp stacked

end CycleSearch

end Houdini
