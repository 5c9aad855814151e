import Houdini.Runtime.Client.DocumentStoreProperties

/-! The order in which a chain visits hooks: the enter phases one after the other, in the order of
the plugins, and the exit phases the other way round. -/

set_option autoImplicit false

namespace Houdini.Runtime.Client

section Indices

variable {Hook : Type} (hook : ClientHooks → Option Hook) (plugins : List ClientHooks)

def hasHook (index : Nat) : Bool := (plugins[index]?.bind hook).isSome

def hooksFrom (start : Nat) : List Nat :=
  (List.range plugins.length).filter fun index => decide (start ≤ index) && hasHook hook plugins index

def hooksBelow (below : Nat) : List Nat :=
  ((List.range plugins.length).filter fun index =>
    decide (index < below) && hasHook hook plugins index).reverse

variable {hook plugins}

theorem lt_length_of_hasHook {index : Nat} (present : hasHook hook plugins index = true) :
    index < plugins.length := by
  by_contra outside
  rw [hasHook, List.getElem?_eq_none (Nat.le_of_not_lt outside)] at present
  cases present

theorem mem_hooksFrom (start index : Nat) :
    index ∈ hooksFrom hook plugins start ↔ start ≤ index ∧ hasHook hook plugins index = true := by
  rw [hooksFrom, List.mem_filter, List.mem_range, Bool.and_eq_true, decide_eq_true_eq]
  exact ⟨And.right, fun both => ⟨lt_length_of_hasHook both.2, both⟩⟩

theorem mem_hooksBelow (below index : Nat) :
    index ∈ hooksBelow hook plugins below ↔ index < below ∧ hasHook hook plugins index = true := by
  rw [hooksBelow, List.mem_reverse, List.mem_filter, List.mem_range, Bool.and_eq_true,
    decide_eq_true_eq]
  exact ⟨And.right, fun both => ⟨lt_length_of_hasHook both.2, both⟩⟩

theorem hooksFrom_sorted (start : Nat) : (hooksFrom hook plugins start).Pairwise (· < ·) :=
  List.pairwise_lt_range.filter _

theorem hooksBelow_sorted (below : Nat) : (hooksBelow hook plugins below).Pairwise (· > ·) := by
  rw [hooksBelow, List.pairwise_reverse]
  exact List.pairwise_lt_range.filter _

theorem sorted_ext {relation : Nat → Nat → Prop} [Std.Irrefl relation] [Std.Antisymm relation]
    {left right : List Nat} (leftSorted : left.Pairwise relation)
    (rightSorted : right.Pairwise relation) (same : ∀ index, index ∈ left ↔ index ∈ right) :
    left = right :=
  List.Perm.eq_of_pairwise (fun _ _ _ _ => antisymm) leftSorted rightSorted
    ((List.perm_ext_iff_of_nodup leftSorted.nodup rightSorted.nodup).mpr same)

theorem hooksFrom_tail {start index : Nat} {rest : List Nat}
    (split : hooksFrom hook plugins start = index :: rest) :
    rest = hooksFrom hook plugins (index + 1) := by
  have sorted : (hooksFrom hook plugins start).Pairwise (· < ·) := hooksFrom_sorted start
  have inside : ∀ other, other ∈ index :: rest ↔ start ≤ other ∧ hasHook hook plugins other = true :=
    fun other => split ▸ mem_hooksFrom start other
  rw [split, List.pairwise_cons] at sorted
  refine sorted_ext sorted.2 (hooksFrom_sorted _) fun other => ?_
  rw [mem_hooksFrom]
  constructor
  · intro member
    exact ⟨sorted.1 other member, ((inside other).mp (List.mem_cons_of_mem _ member)).2⟩
  · rintro ⟨above, present⟩
    have bound := ((inside index).mp List.mem_cons_self).1
    rcases List.mem_cons.mp ((inside other).mpr ⟨by omega, present⟩) with rfl | member
    · omega
    · exact member

theorem hooksBelow_tail {below index : Nat} {rest : List Nat}
    (split : hooksBelow hook plugins below = index :: rest) :
    rest = hooksBelow hook plugins index := by
  have sorted : (hooksBelow hook plugins below).Pairwise (· > ·) := hooksBelow_sorted below
  have inside : ∀ other, other ∈ index :: rest ↔ other < below ∧ hasHook hook plugins other = true :=
    fun other => split ▸ mem_hooksBelow below other
  rw [split, List.pairwise_cons] at sorted
  refine sorted_ext sorted.2 (hooksBelow_sorted _) fun other => ?_
  rw [mem_hooksBelow]
  constructor
  · intro member
    exact ⟨sorted.1 other member, ((inside other).mp (List.mem_cons_of_mem _ member)).2⟩
  · rintro ⟨above, present⟩
    have bound := ((inside index).mp List.mem_cons_self).1
    rcases List.mem_cons.mp ((inside other).mpr ⟨by omega, present⟩) with rfl | member
    · omega
    · exact member

theorem hasHook_iff {index : Nat} :
    hasHook hook plugins index = true ↔ ∃ handler, plugins[index]?.bind hook = some handler :=
  Option.isSome_iff_exists

theorem findUp_eq (start : Nat) :
    findUp hook start (plugins.drop start) =
      (hooksFrom hook plugins start).head?.bind fun index =>
        (plugins[index]?.bind hook).map (index, ·) := by
  have reaches : ∀ index ∈ hooksFrom hook plugins start, ∃ found handler,
      findUp hook start (plugins.drop start) = some (found, handler) ∧ found ≤ index := by
    intro index member
    obtain ⟨above, present⟩ := (mem_hooksFrom start index).mp member
    obtain ⟨expected, here⟩ := hasHook_iff.mp present
    have dropped : (plugins.drop start)[index - start]?.bind hook = some expected := by
      rw [List.getElem?_drop, Nat.add_sub_cancel' above]
      exact here
    obtain ⟨found, handler, success, bound⟩ := findUp_le start dropped
    exact ⟨found, handler, success, by omega⟩
  cases list : hooksFrom hook plugins start with
  | nil =>
      cases success : findUp hook start (plugins.drop start) with
      | none => rfl
      | some entry =>
          obtain ⟨above, present⟩ := findUp_drop_found success
          have member := (mem_hooksFrom start entry.1).mpr ⟨above, hasHook_iff.mpr ⟨_, present⟩⟩
          rw [list] at member
          exact absurd member List.not_mem_nil
  | cons index rest =>
      have sorted : (hooksFrom hook plugins start).Pairwise (· < ·) := hooksFrom_sorted start
      rw [list] at reaches sorted
      obtain ⟨found, handler, success, bound⟩ := reaches index List.mem_cons_self
      obtain ⟨above, present⟩ := findUp_drop_found success
      have member := (mem_hooksFrom start found).mpr ⟨above, hasHook_iff.mpr ⟨_, present⟩⟩
      rw [list] at member
      have same : found = index := by
        rcases List.mem_cons.mp member with equal | later
        · exact equal
        · have after := (List.pairwise_cons.mp sorted).1 found later
          omega
      subst same
      rw [success, List.head?_cons, Option.bind_some, present]
      rfl

theorem findDown_eq (below : Nat) :
    findDown plugins hook below =
      (hooksBelow hook plugins below).head?.bind fun index =>
        (plugins[index]?.bind hook).map (index, ·) := by
  cases list : hooksBelow hook plugins below with
  | nil =>
      cases success : findDown plugins hook below with
      | none => rfl
      | some entry =>
          obtain ⟨under, present⟩ := findDown_found success
          have member := (mem_hooksBelow below entry.1).mpr ⟨under, hasHook_iff.mpr ⟨_, present⟩⟩
          rw [list] at member
          exact absurd member List.not_mem_nil
  | cons index rest =>
      have sorted : (hooksBelow hook plugins below).Pairwise (· > ·) := hooksBelow_sorted below
      rw [list] at sorted
      have inside := (mem_hooksBelow below index).mp (by rw [list]; exact List.mem_cons_self)
      obtain ⟨expected, here⟩ := hasHook_iff.mp inside.2
      obtain ⟨found, handler, success, bound⟩ := findDown_ge inside.1 here
      obtain ⟨under, present⟩ := findDown_found success
      have member := (mem_hooksBelow below found).mpr ⟨under, hasHook_iff.mpr ⟨_, present⟩⟩
      rw [list] at member
      have same : found = index := by
        rcases List.mem_cons.mp member with equal | later
        · exact equal
        · have after := (List.pairwise_cons.mp sorted).1 found later
          omega
      subst same
      rw [success, List.head?_cons, Option.bind_some, present]
      rfl

end Indices

abbrev Position := Nat × Nat

def enterHooks (plugins : List ClientHooks) : (remaining currentStep start : Nat) → List Position
  | 0, _, _ => []
  | remaining + 1, currentStep, start =>
      (hooksFrom (·.forward currentStep) plugins start).map (currentStep, ·) ++
        enterHooks plugins remaining (currentStep + 1) 0

def exitHooks (plugins : List ClientHooks) : (currentStep below : Nat) → List Position
  | 0, below => (hooksBelow (·.backwards 0) plugins below).map (0, ·)
  | previous + 1, below =>
      (hooksBelow (·.backwards (previous + 1)) plugins below).map (previous + 1, ·) ++
        exitHooks plugins previous plugins.length

def Activation.position (activation : Activation) : Position :=
  (activation.state.currentStep, activation.index)

section Hooks

variable {plugins : List ClientHooks}

theorem enterHooks_tail {remaining currentStep start : Nat} {position : Position}
    {rest : List Position}
    (split : enterHooks plugins remaining currentStep start = position :: rest) :
    rest = enterHooks plugins (remaining + currentStep - position.1) position.1
      (position.2 + 1) := by
  induction remaining generalizing currentStep start with
  | zero => cases split
  | succ remaining ih =>
      rw [enterHooks] at split
      cases here : hooksFrom (·.forward currentStep) plugins start with
      | nil =>
          rw [here, List.map_nil, List.nil_append] at split
          rw [ih split]
          congr 1
          omega
      | cons index others =>
          rw [here, List.map_cons, List.cons_append] at split
          obtain ⟨rfl, rfl⟩ := List.cons.inj split
          rw [hooksFrom_tail here, show remaining + 1 + currentStep - currentStep = remaining + 1 by
            omega]
          rfl

theorem exitHooks_tail {currentStep below : Nat} {position : Position} {rest : List Position}
    (split : exitHooks plugins currentStep below = position :: rest) :
    rest = exitHooks plugins position.1 position.2 := by
  induction currentStep generalizing below with
  | zero =>
      rw [exitHooks] at split
      obtain ⟨index, others, list, rfl, rfl⟩ := List.map_eq_cons_iff.mp split
      rw [hooksBelow_tail list]
      rfl
  | succ previous ih =>
      rw [exitHooks] at split
      cases here : hooksBelow (·.backwards (previous + 1)) plugins below with
      | nil =>
          rw [here, List.map_nil, List.nil_append] at split
          exact ih split
      | cons index others =>
          rw [here, List.map_cons, List.cons_append] at split
          obtain ⟨rfl, rfl⟩ := List.cons.inj split
          rw [hooksBelow_tail here]
          rfl

/-- The enter hooks of a plugin from its start on: the phases in order, and the plugins in order
in each phase. -/
theorem mem_enterHooks {remaining currentStep start step index : Nat} :
    (step, index) ∈ enterHooks plugins remaining currentStep start ↔
      currentStep ≤ step ∧ step < currentStep + remaining ∧ (step = currentStep → start ≤ index) ∧
        hasHook (·.forward step) plugins index = true := by
  induction remaining generalizing currentStep start with
  | zero =>
      rw [enterHooks]
      constructor
      · exact fun member => absurd member List.not_mem_nil
      · rintro ⟨above, under, _⟩
        omega
  | succ remaining ih =>
      rw [enterHooks, List.mem_append, ih]
      constructor
      · rintro (here | ⟨above, under, _, present⟩)
        · obtain ⟨plugin, member, same⟩ := List.mem_map.mp here
          cases same
          obtain ⟨bound, present⟩ := (mem_hooksFrom start index).mp member
          exact ⟨Nat.le_refl _, by omega, fun _ => bound, present⟩
        · exact ⟨by omega, by omega, fun same => by omega, present⟩
      · rintro ⟨above, under, bound, present⟩
        by_cases same : step = currentStep
        · subst same
          exact Or.inl (List.mem_map_of_mem
            ((mem_hooksFrom start index).mpr ⟨bound rfl, present⟩))
        · exact Or.inr ⟨by omega, by omega, fun _ => Nat.zero_le _, present⟩

theorem mem_exitHooks {currentStep below step index : Nat} :
    (step, index) ∈ exitHooks plugins currentStep below ↔
      (step < currentStep ∨ step = currentStep ∧ index < below) ∧
        hasHook (·.backwards step) plugins index = true := by
  induction currentStep generalizing below with
  | zero =>
      rw [exitHooks, List.mem_map]
      constructor
      · rintro ⟨plugin, member, same⟩
        cases same
        obtain ⟨under, present⟩ := (mem_hooksBelow below index).mp member
        exact ⟨Or.inr ⟨rfl, under⟩, present⟩
      · rintro ⟨earlier | ⟨rfl, under⟩, present⟩
        · omega
        · exact ⟨index, (mem_hooksBelow below index).mpr ⟨under, present⟩, rfl⟩
  | succ previous ih =>
      rw [exitHooks, List.mem_append, ih]
      constructor
      · rintro (here | ⟨where_, present⟩)
        · obtain ⟨plugin, member, same⟩ := List.mem_map.mp here
          cases same
          obtain ⟨under, present⟩ := (mem_hooksBelow below index).mp member
          exact ⟨Or.inr ⟨rfl, under⟩, present⟩
        · exact ⟨Or.inl (by omega), present⟩
      · rintro ⟨where_, present⟩
        by_cases same : step = previous + 1
        · subst same
          have under : index < below := by omega
          exact Or.inl (List.mem_map_of_mem ((mem_hooksBelow below index).mpr ⟨under, present⟩))
        · refine Or.inr ⟨?_, present⟩
          have bound := lt_length_of_hasHook present
          omega

end Hooks

theorem stepError_aborted (plugins : List ClientHooks) (state : IteratorState) (error : JSError)
    (below : Nat) : ∃ thrown, stepError plugins true state error below = .rejected thrown := by
  induction below generalizing error with
  | zero => exact ⟨error, rfl⟩
  | succ below ih =>
      rw [stepError]
      split
      · exact ih error
      · exact ih abortError

def meetExit (plugins : List ClientHooks) (aborted : Bool) (state : IteratorState)
    (value : Option QueryResult) (position : Position) (handler : ClientPluginExitPhase) :
    StepResult :=
  let state := { state with currentStep := position.1 }
  if aborted then stepError plugins aborted state abortError position.2
  else .invoked { direction := .backwards, index := position.2, state, value,
                  program := handler state.context value }

def meetEnter (plugins : List ClientHooks) (aborted : Bool) (state : IteratorState)
    (position : Position) (handler : ClientPluginEnterPhase) : StepResult :=
  let state := { state with currentStep := position.1 }
  if aborted then stepError plugins aborted state abortError position.2
  else .invoked { direction := .forward, index := position.2, state,
                  program := handler state.context }

section Walks

variable {plugins : List ClientHooks} {aborted : Bool} {state : IteratorState}

theorem findDown_nil {Hook : Type} {hook : ClientHooks → Option Hook} {below : Nat}
    (list : hooksBelow hook plugins below = []) : findDown plugins hook below = none := by
  rw [findDown_eq, list]
  rfl

theorem findDown_cons {Hook : Type} {hook : ClientHooks → Option Hook} {below index : Nat}
    {rest : List Nat} (list : hooksBelow hook plugins below = index :: rest) :
    ∃ handler, plugins[index]?.bind hook = some handler ∧
      findDown plugins hook below = some (index, handler) := by
  have inside := (mem_hooksBelow below index).mp (by rw [list]; exact List.mem_cons_self)
  obtain ⟨handler, present⟩ := hasHook_iff.mp inside.2
  refine ⟨handler, present, ?_⟩
  rw [findDown_eq, list, List.head?_cons, Option.bind_some, present]
  rfl

theorem findUp_nil {Hook : Type} {hook : ClientHooks → Option Hook} {start : Nat}
    (list : hooksFrom hook plugins start = []) :
    findUp hook start (plugins.drop start) = none := by
  rw [findUp_eq, list]
  rfl

theorem findUp_cons {Hook : Type} {hook : ClientHooks → Option Hook} {start index : Nat}
    {rest : List Nat} (list : hooksFrom hook plugins start = index :: rest) :
    ∃ handler, plugins[index]?.bind hook = some handler ∧
      findUp hook start (plugins.drop start) = some (index, handler) := by
  have inside := (mem_hooksFrom start index).mp (by rw [list]; exact List.mem_cons_self)
  obtain ⟨handler, present⟩ := hasHook_iff.mp inside.2
  refine ⟨handler, present, ?_⟩
  rw [findUp_eq, list, List.head?_cons, Option.bind_some, present]
  rfl

theorem stepBackwards_nil {value : Option QueryResult} {currentStep below : Nat}
    (list : exitHooks plugins currentStep below = []) :
    stepBackwards plugins aborted state value currentStep below = .resolved value := by
  induction currentStep generalizing below with
  | zero =>
      rw [exitHooks, List.map_eq_nil_iff] at list
      unfold stepBackwards
      rw [findDown_nil list]
  | succ previous ih =>
      rw [exitHooks, List.append_eq_nil_iff, List.map_eq_nil_iff] at list
      unfold stepBackwards
      rw [findDown_nil list.1]
      exact ih list.2

theorem stepBackwards_cons {value : Option QueryResult} {currentStep below : Nat}
    {position : Position} {rest : List Position}
    (list : exitHooks plugins currentStep below = position :: rest) :
    ∃ handler, plugins[position.2]?.bind (·.backwards position.1) = some handler ∧
      stepBackwards plugins aborted state value currentStep below =
        meetExit plugins aborted state value position handler := by
  induction currentStep generalizing below with
  | zero =>
      rw [exitHooks] at list
      obtain ⟨index, others, here, rfl, rfl⟩ := List.map_eq_cons_iff.mp list
      obtain ⟨handler, present, found⟩ := findDown_cons here
      refine ⟨handler, present, ?_⟩
      unfold stepBackwards
      rw [found]
      rfl
  | succ previous ih =>
      rw [exitHooks] at list
      cases here : hooksBelow (·.backwards (previous + 1)) plugins below with
      | nil =>
          rw [here, List.map_nil, List.nil_append] at list
          obtain ⟨handler, present, met⟩ := ih list
          refine ⟨handler, present, ?_⟩
          unfold stepBackwards
          rw [findDown_nil here]
          exact met
      | cons index others =>
          rw [here, List.map_cons, List.cons_append] at list
          obtain ⟨rfl, rfl⟩ := List.cons.inj list
          obtain ⟨handler, present, found⟩ := findDown_cons here
          refine ⟨handler, present, ?_⟩
          unfold stepBackwards
          rw [found]
          rfl

theorem stepForwardFrom_nil {remaining currentStep start : Nat} (send : state.setup = false)
    (list : enterHooks plugins remaining currentStep start = []) :
    ∃ error, stepForwardFrom plugins aborted state remaining currentStep start =
      .threw error := by
  induction remaining generalizing currentStep start with
  | zero => exact ⟨_, rfl⟩
  | succ remaining ih =>
      rw [enterHooks, List.append_eq_nil_iff, List.map_eq_nil_iff] at list
      rw [stepForwardFrom, findUp_nil list.1]
      simp only [send, Bool.false_eq_true, if_false]
      exact ih list.2

theorem stepForwardFrom_cons {remaining currentStep start : Nat} (send : state.setup = false)
    {position : Position} {rest : List Position}
    (list : enterHooks plugins remaining currentStep start = position :: rest) :
    ∃ handler, plugins[position.2]?.bind (·.forward position.1) = some handler ∧
      stepForwardFrom plugins aborted state remaining currentStep start =
        meetEnter plugins aborted state position handler := by
  induction remaining generalizing currentStep start with
  | zero => cases list
  | succ remaining ih =>
      rw [enterHooks] at list
      cases here : hooksFrom (·.forward currentStep) plugins start with
      | nil =>
          rw [here, List.map_nil, List.nil_append] at list
          obtain ⟨handler, present, met⟩ := ih list
          refine ⟨handler, present, ?_⟩
          rw [stepForwardFrom, findUp_nil here]
          simp only [send, Bool.false_eq_true, if_false]
          exact met
      | cons index others =>
          rw [here, List.map_cons, List.cons_append] at list
          obtain ⟨rfl, rfl⟩ := List.cons.inj list
          obtain ⟨handler, present, found⟩ := findUp_cons here
          refine ⟨handler, present, ?_⟩
          rw [stepForwardFrom, found]
          rfl

theorem stepForwardFrom_setup {remaining currentStep start : Nat} (setup : state.setup = true) :
    stepForwardFrom plugins aborted state (remaining + 1) currentStep start =
        stepBackwards plugins aborted state (some state.initialState) 0 (plugins.length + 1) ∧
        hooksFrom (·.forward currentStep) plugins start = [] ∨
      ∃ index rest handler, hooksFrom (·.forward currentStep) plugins start = index :: rest ∧
        plugins[index]?.bind (·.forward currentStep) = some handler ∧
        stepForwardFrom plugins aborted state (remaining + 1) currentStep start =
          meetEnter plugins aborted state (currentStep, index) handler := by
  cases here : hooksFrom (·.forward currentStep) plugins start with
  | nil =>
      refine Or.inl ⟨?_, rfl⟩
      rw [stepForwardFrom, findUp_nil here]
      exact if_pos setup
  | cons index rest =>
      obtain ⟨handler, present, found⟩ := findUp_cons here
      refine Or.inr ⟨index, rest, handler, rfl, present, ?_⟩
      rw [stepForwardFrom, found]
      rfl

end Walks

end Houdini.Runtime.Client
