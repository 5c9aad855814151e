import Houdini.Runtime.Client.PipelineOrder

/-! Sends of a document, with hooks that do anything: each hook that was visited may call `next` and
`resolve` at any time and as often as it wants, and may fail. -/

set_option autoImplicit false

namespace Houdini.Runtime.Client

/-- Why a hook is visited. -/
inductive Cause where
  | sent
  | next (by_ : Activation)
  | resolve (by_ : Activation)
  | error (by_ : Activation) (error : JSError)

structure Visit where
  cause : Cause
  activation : Activation

inductive Settlement where
  | fulfilled (value : Option QueryResult)
  | rejected (error : JSError)

/-- What a final value meets: the store holds the same data, a listener of the store throws. -/
structure Outside where
  sameData : Bool
  listener : Option JSError

/-- A send under way. `visits` remembers the hooks that were visited, `sets` what was written to
the store, `resolved` is the mark at the promise. -/
structure Chain where
  visits : List Visit := []
  aborted : Bool
  resolved : Bool := false
  settlements : List Settlement := []
  sets : List (Option QueryResult) := []

/-- The final value is not written to the store: it is an echo, or `value.data` throws. -/
def Outside.silences (outside : Outside) (silenceEcho : Bool) (value : Option QueryResult) : Bool :=
  silenceEcho && (value.isNone || outside.sameData)

def StepResult.thrown (silenceEcho : Bool) (outside : Outside) : StepResult → Option JSError
  | .threw error => some error
  | .resolved value =>
      if silenceEcho && value.isNone then some (.error "value is undefined")
      else if outside.silences silenceEcho value then none
      else outside.listener
  | .invoked _ | .rejected _ => none

namespace Chain

def settle (chain : Chain) (settlement : Settlement) : Chain :=
  if chain.resolved then chain
  else { chain with resolved := true, settlements := settlement :: chain.settlements }

def apply (silenceEcho : Bool) (outside : Outside) (cause : Cause) (chain : Chain) :
    StepResult → Chain
  | .invoked activation => { chain with visits := ⟨cause, activation⟩ :: chain.visits }
  | .resolved value =>
      let set :=
        if outside.silences silenceEcho value then chain
        else { chain with sets := value :: chain.sets }
      match StepResult.thrown silenceEcho outside (.resolved value) with
      | some _ => set
      | none => set.settle (.fulfilled value)
  | .rejected error => chain.settle (.rejected error)
  | .threw _ => chain

/-- `send()` in a promise, which is rejected when the first walk throws. -/
def send (plugins : List ClientHooks) (silenceEcho : Bool) (outside : Outside) (aborted : Bool)
    (state : IteratorState) : Chain :=
  let result := stepForward plugins aborted { state with currentStep := 0 } 0
  let chain := apply silenceEcho outside .sent { aborted } result
  match result.thrown silenceEcho outside with
  | some error => { chain with settlements := .rejected error :: chain.settlements }
  | none => chain

end Chain

/-- What a visited hook does, or the owner of the controller. -/
inductive Act where
  | abort
  | next (activation : Activation) (context : ClientPluginContext) (outside : Outside)
  | resolve (activation : Activation) (context : ClientPluginContext)
      (value : Option QueryResult) (outside : Outside)
  | fail (activation : Activation) (error : JSError)

namespace Chain

def act (plugins : List ClientHooks) (silenceEcho : Bool) (chain : Chain) : Act → Chain
  | .abort => { chain with aborted := true }
  | .next activation context outside =>
      chain.apply silenceEcho outside (.next activation)
        (activation.next plugins chain.aborted context)
  | .resolve activation context value outside =>
      chain.apply silenceEcho outside (.resolve activation)
        (activation.resolve plugins chain.aborted context value)
  | .fail activation error =>
      chain.apply silenceEcho ⟨false, none⟩ (.error activation error)
        (activation.fail plugins chain.aborted error)

end Chain

def Act.activation? : Act → Option Activation
  | .abort => none
  | .next activation _ _ => some activation
  | .resolve activation _ _ _ => some activation
  | .fail activation _ => some activation

/-- What happens after a state: acts of hooks that were visited, and aborts. -/
inductive Chain.Later (plugins : List ClientHooks) (silenceEcho : Bool)
    (permitted : Chain → Act → Prop) (first : Chain) : Chain → Prop where
  | refl : Later plugins silenceEcho permitted first first
  | step {chain : Chain} (later : Later plugins silenceEcho permitted first chain) (act : Act)
      (visited : ∀ activation, act.activation? = some activation →
        ∃ visit ∈ chain.visits, visit.activation = activation)
      (condition : permitted chain act) :
      Later plugins silenceEcho permitted first (chain.act plugins silenceEcho act)

namespace Activation

def nextStep (activation : Activation) : Nat :=
  match activation.direction with
  | .forward => activation.state.currentStep
  | .backwards | .error => 0

/-- The index that `next` goes on with: after an exit hook it is the same plugin's. -/
def nextStart (activation : Activation) : Nat :=
  match activation.direction with
  | .forward | .error => activation.index + 1
  | .backwards => activation.index

def left (activation : Activation) (plugins : List ClientHooks) : List Position :=
  exitHooks plugins activation.state.currentStep
    (match activation.direction with
    | .backwards => activation.index
    | .forward | .error => activation.index + 1)

def handedOn (activation : Activation) (value : Option QueryResult) : Option QueryResult :=
  match activation.direction with
  | .backwards => value.or activation.value
  | .forward | .error => value

end Activation

/-- What a walk forward has in front of it. A setup cycle has one enter phase, and then the exit
hooks of that phase. -/
def forwardHooks (plugins : List ClientHooks) (setup : Bool) (currentStep start : Nat) :
    List (Direction × Position) :=
  if setup then
    (hooksFrom (·.forward currentStep) plugins start).map (fun index =>
        (.forward, (currentStep, index))) ++
      (exitHooks plugins 0 (plugins.length + 1)).map (.backwards, ·)
  else (enterHooks plugins (3 - currentStep) currentStep start).map (.forward, ·)

/-- A hook is visited because it is the first one left, or because it handles the error of a hook
of a later plugin. -/
def Visit.InOrder (plugins : List ClientHooks) (setup : Bool) (visit : Visit) : Prop :=
  match visit.cause with
  | .sent => (forwardHooks plugins setup 0 0).head? =
      some (visit.activation.direction, visit.activation.position)
  | .next by_ => (forwardHooks plugins by_.state.setup by_.nextStep by_.nextStart).head? =
      some (visit.activation.direction, visit.activation.position)
  | .resolve by_ => visit.activation.direction = .backwards ∧
      (by_.left plugins).head? = some visit.activation.position
  | .error by_ error => visit.activation.direction = .error ∧
      visit.activation.index < by_.index ∧
      ∃ handler, plugins[visit.activation.index]?.bind (·.catch) = some handler ∧
        visit.activation.program = handler by_.state.context error

/-- An act does not end the chain of an aborted request: a hook is left to visit, or the final
value is not written. -/
def Act.Calm (plugins : List ClientHooks) (silenceEcho : Bool) (chain : Chain) (act : Act) : Prop :=
  chain.aborted = true →
    match act with
    | .abort => True
    | .next activation _ outside => activation.state.setup = true →
        forwardHooks plugins true activation.nextStep activation.nextStart = [] →
        outside.silences silenceEcho (some activation.state.initialState) = true
    | .resolve activation _ value outside => activation.left plugins = [] →
        outside.silences silenceEcho (activation.handedOn value) = true
    | .fail _ _ => True

section Results

variable {plugins : List ClientHooks} {aborted : Bool} {state : IteratorState}

theorem meetExit_invoked {value : Option QueryResult} {position : Position}
    {handler : ClientPluginExitPhase} {activation : Activation}
    (met : meetExit plugins aborted state value position handler = .invoked activation) :
    aborted = false ∧ activation.direction = .backwards ∧ activation.position = position ∧
      activation.state.setup = state.setup := by
  unfold meetExit at met
  cases aborted with
  | false =>
      cases met
      exact ⟨rfl, rfl, rfl, rfl⟩
  | true =>
      obtain ⟨thrown, rejected⟩ := stepError_aborted plugins { state with currentStep := position.1 }
        abortError position.2
      rw [if_pos rfl, rejected] at met
      cases met

theorem meetEnter_invoked {position : Position} {handler : ClientPluginEnterPhase}
    {activation : Activation}
    (met : meetEnter plugins aborted state position handler = .invoked activation) :
    aborted = false ∧ activation.direction = .forward ∧ activation.position = position ∧
      activation.state.setup = state.setup := by
  unfold meetEnter at met
  cases aborted with
  | false =>
      cases met
      exact ⟨rfl, rfl, rfl, rfl⟩
  | true =>
      obtain ⟨thrown, rejected⟩ := stepError_aborted plugins { state with currentStep := position.1 }
        abortError position.2
      rw [if_pos rfl, rejected] at met
      cases met

theorem meetExit_ne_resolved {value final : Option QueryResult} {position : Position}
    {handler : ClientPluginExitPhase} :
    meetExit plugins aborted state value position handler ≠ .resolved final := by
  unfold meetExit
  cases aborted with
  | false => exact fun same => nomatch same
  | true =>
      obtain ⟨thrown, rejected⟩ := stepError_aborted plugins { state with currentStep := position.1 }
        abortError position.2
      rw [if_pos rfl, rejected]
      exact fun same => nomatch same

theorem meetEnter_ne_resolved {final : Option QueryResult} {position : Position}
    {handler : ClientPluginEnterPhase} :
    meetEnter plugins aborted state position handler ≠ .resolved final := by
  unfold meetEnter
  cases aborted with
  | false => exact fun same => nomatch same
  | true =>
      obtain ⟨thrown, rejected⟩ := stepError_aborted plugins { state with currentStep := position.1 }
        abortError position.2
      rw [if_pos rfl, rejected]
      exact fun same => nomatch same

theorem stepBackwards_visits {value : Option QueryResult} {currentStep below : Nat}
    {activation : Activation}
    (invoked : stepBackwards plugins aborted state value currentStep below =
      .invoked activation) :
    aborted = false ∧ activation.direction = .backwards ∧
      (exitHooks plugins currentStep below).head? = some activation.position ∧
      activation.state.setup = state.setup := by
  cases list : exitHooks plugins currentStep below with
  | nil =>
      rw [stepBackwards_nil list] at invoked
      cases invoked
  | cons position rest =>
      obtain ⟨handler, _, met⟩ :=
        @stepBackwards_cons plugins aborted state value _ _ _ _ list
      rw [met] at invoked
      obtain ⟨calm, direction, same, setup⟩ := meetExit_invoked invoked
      exact ⟨calm, direction, by rw [same]; rfl, setup⟩

theorem stepBackwards_resolved {value final : Option QueryResult} {currentStep below : Nat} :
    stepBackwards plugins aborted state value currentStep below = .resolved final ↔
      exitHooks plugins currentStep below = [] ∧ final = value := by
  cases list : exitHooks plugins currentStep below with
  | nil =>
      rw [stepBackwards_nil list]
      constructor
      · intro same
        cases same
        exact ⟨rfl, rfl⟩
      · rintro ⟨_, rfl⟩
        rfl
  | cons position rest =>
      obtain ⟨handler, _, met⟩ :=
        @stepBackwards_cons plugins aborted state value _ _ _ _ list
      rw [met]
      constructor
      · exact fun same => absurd same meetExit_ne_resolved
      · rintro ⟨same, _⟩
        cases same

theorem stepForward_visits {start : Nat} {activation : Activation} (early : state.currentStep < 3)
    (invoked : stepForward plugins aborted state start = .invoked activation) :
    aborted = false ∧ activation.state.setup = state.setup ∧
      (forwardHooks plugins state.setup state.currentStep start).head? =
        some (activation.direction, activation.position) := by
  unfold stepForward at invoked
  obtain ⟨remaining, count⟩ : ∃ remaining, 3 - state.currentStep = remaining + 1 :=
    ⟨2 - state.currentStep, by omega⟩
  cases setup : state.setup with
  | true =>
      rw [count] at invoked
      rcases stepForwardFrom_setup setup with ⟨walk, none_⟩ | ⟨index, rest, handler, list, _, met⟩
      · rw [walk] at invoked
        obtain ⟨calm, direction, first, same⟩ := stepBackwards_visits invoked
        refine ⟨calm, same.trans setup, ?_⟩
        rw [forwardHooks, if_pos rfl, none_, List.map_nil, List.nil_append, List.head?_map, first,
          direction]
        rfl
      · rw [met] at invoked
        obtain ⟨calm, direction, position, same⟩ := meetEnter_invoked invoked
        refine ⟨calm, same.trans setup, ?_⟩
        rw [forwardHooks, if_pos rfl, list, direction, position]
        rfl
  | false =>
      cases list : enterHooks plugins (3 - state.currentStep) state.currentStep start with
      | nil =>
          obtain ⟨error, threw⟩ := @stepForwardFrom_nil plugins aborted state _ _ _ setup list
          rw [threw] at invoked
          cases invoked
      | cons position rest =>
          obtain ⟨handler, _, met⟩ :=
            @stepForwardFrom_cons plugins aborted state _ _ _ setup _ _ list
          rw [met] at invoked
          obtain ⟨calm, direction, same, kept⟩ := meetEnter_invoked invoked
          refine ⟨calm, kept.trans setup, ?_⟩
          rw [forwardHooks, if_neg Bool.false_ne_true, list, direction, same]
          rfl

theorem stepForward_resolved {start : Nat} {final : Option QueryResult}
    (early : state.currentStep < 3) :
    stepForward plugins aborted state start = .resolved final ↔
      state.setup = true ∧ forwardHooks plugins true state.currentStep start = [] ∧
        final = some state.initialState := by
  unfold stepForward
  obtain ⟨remaining, count⟩ : ∃ remaining, 3 - state.currentStep = remaining + 1 :=
    ⟨2 - state.currentStep, by omega⟩
  cases setup : state.setup with
  | true =>
      rw [count, forwardHooks, if_pos rfl, List.append_eq_nil_iff, List.map_eq_nil_iff,
        List.map_eq_nil_iff]
      rcases stepForwardFrom_setup setup with ⟨walk, none_⟩ | ⟨index, rest, handler, list, _, met⟩
      · rw [walk, stepBackwards_resolved, none_]
        exact ⟨fun both => ⟨rfl, ⟨rfl, both.1⟩, both.2⟩, fun all => ⟨all.2.1.2, all.2.2⟩⟩
      · rw [met, list]
        constructor
        · exact fun same => absurd same meetEnter_ne_resolved
        · rintro ⟨_, ⟨same, _⟩, _⟩
          cases same
  | false =>
      constructor
      · intro same
        cases list : enterHooks plugins (3 - state.currentStep) state.currentStep start with
        | nil =>
            obtain ⟨error, threw⟩ := @stepForwardFrom_nil plugins aborted state _ _ _ setup list
            rw [threw] at same
            cases same
        | cons position rest =>
            obtain ⟨handler, _, met⟩ :=
              @stepForwardFrom_cons plugins aborted state _ _ _ setup _ _ list
            rw [met] at same
            exact absurd same meetEnter_ne_resolved
      · rintro ⟨impossible, _⟩
        cases impossible

theorem stepError_visits {error : JSError} {below : Nat} {activation : Activation}
    (invoked : stepError plugins aborted state error below = .invoked activation) :
    aborted = false ∧ activation.direction = .error ∧ activation.index < below ∧
      activation.state = state ∧
      ∃ handler, plugins[activation.index]?.bind (·.catch) = some handler ∧
        activation.program = handler state.context error := by
  have calm : aborted = false := by
    cases aborted with
    | false => rfl
    | true =>
        obtain ⟨thrown, rejected⟩ := stepError_aborted plugins state error below
        rw [rejected] at invoked
        cases invoked
  refine ⟨calm, ?_⟩
  subst calm
  induction below with
  | zero => cases invoked
  | succ below ih =>
      cases here : plugins[below]?.bind (·.catch) with
      | none =>
          simp only [stepError, here] at invoked
          obtain ⟨direction, bound, same, handled⟩ := ih invoked
          exact ⟨direction, Nat.lt_succ_of_lt bound, same, handled⟩
      | some handler =>
          simp only [stepError, here, Bool.false_eq_true, if_false, StepResult.invoked.injEq]
            at invoked
          subst invoked
          exact ⟨rfl, Nat.lt_succ_self _, rfl, handler, here, rfl⟩

theorem stepError_ne_resolved {error : JSError} {below : Nat} {final : Option QueryResult} :
    stepError plugins aborted state error below ≠ .resolved final := by
  induction below generalizing error with
  | zero =>
      intro same
      cases same
  | succ below ih =>
      rw [stepError]
      split
      · exact ih
      · split
        · exact ih
        · intro same
          cases same

end Results

theorem Activation.next_eq (activation : Activation) (plugins : List ClientHooks) (aborted : Bool)
    (context : ClientPluginContext) :
    activation.next plugins aborted context =
      stepForward plugins aborted
        { activation.state with context, currentStep := activation.nextStep }
        activation.nextStart := by
  unfold Activation.next Activation.nextStep Activation.nextStart
  cases activation.direction <;> rfl

theorem Activation.resolve_eq (activation : Activation) (plugins : List ClientHooks)
    (aborted : Bool) (context : ClientPluginContext) (value : Option QueryResult) :
    activation.resolve plugins aborted context value =
      stepBackwards plugins aborted { activation.state with context } (activation.handedOn value)
        activation.state.currentStep
        (match activation.direction with
        | .backwards => activation.index
        | .forward | .error => activation.index + 1) := by
  unfold Activation.resolve Activation.handedOn
  cases activation.direction <;> rfl

namespace Chain

variable {plugins : List ClientHooks} {silenceEcho : Bool} {outside : Outside} {cause : Cause}
  {chain : Chain}

@[simp] theorem settle_visits (chain : Chain) (settlement : Settlement) :
    (chain.settle settlement).visits = chain.visits := by
  unfold settle
  split <;> rfl

@[simp] theorem settle_sets (chain : Chain) (settlement : Settlement) :
    (chain.settle settlement).sets = chain.sets := by
  unfold settle
  split <;> rfl

@[simp] theorem settle_aborted (chain : Chain) (settlement : Settlement) :
    (chain.settle settlement).aborted = chain.aborted := by
  unfold settle
  split <;> rfl

theorem apply_visits (result : StepResult) :
    (chain.apply silenceEcho outside cause result).visits =
      match result with
      | .invoked activation => ⟨cause, activation⟩ :: chain.visits
      | _ => chain.visits := by
  cases result with
  | invoked activation => rfl
  | rejected error => exact settle_visits _ _
  | threw error => rfl
  | resolved value =>
      simp only [apply]
      split
      · split <;> rfl
      · rw [settle_visits]
        split <;> rfl

theorem apply_sets (result : StepResult) :
    (chain.apply silenceEcho outside cause result).sets =
      match result with
      | .resolved value =>
          if outside.silences silenceEcho value then chain.sets else value :: chain.sets
      | _ => chain.sets := by
  cases result with
  | invoked activation => rfl
  | rejected error => exact settle_sets _ _
  | threw error => rfl
  | resolved value =>
      simp only [apply]
      split
      · split <;> rfl
      · rw [settle_sets]
        split <;> rfl

theorem apply_sets_eq_iff (result : StepResult) :
    (chain.apply silenceEcho outside cause result).sets = chain.sets ↔
      ∀ final, result = .resolved final → outside.silences silenceEcho final = true := by
  rw [apply_sets]
  cases result with
  | invoked activation => exact ⟨fun _ _ same => (nomatch same), fun _ => rfl⟩
  | rejected error => exact ⟨fun _ _ same => (nomatch same), fun _ => rfl⟩
  | threw error => exact ⟨fun _ _ same => (nomatch same), fun _ => rfl⟩
  | resolved value =>
      constructor
      · intro same final equal
        cases equal
        by_contra loud
        simp only [loud] at same
        exact List.cons_ne_self _ _ same
      · intro silent
        exact if_pos (silent value rfl)

/-- The promise was settled at most once, and is marked then, unless no hook was visited. -/
structure SettlesOnce (chain : Chain) : Prop where
  once : chain.settlements.length ≤ 1
  marked : chain.settlements ≠ [] → chain.resolved = true ∨ chain.visits = []

theorem SettlesOnce.settle (once : chain.SettlesOnce) (some_ : chain.visits ≠ [])
    (settlement : Settlement) : (chain.settle settlement).SettlesOnce := by
  unfold Chain.settle
  split
  · exact once
  · next unmarked =>
      have none_ : chain.settlements = [] := by
        by_contra settled
        rcases once.marked settled with marked | empty
        · exact unmarked marked
        · exact some_ empty
      refine ⟨?_, fun _ => Or.inl rfl⟩
      rw [none_]
      exact Nat.le_refl 1

theorem SettlesOnce.apply (once : chain.SettlesOnce) (some_ : chain.visits ≠ [])
    (result : StepResult) : (chain.apply silenceEcho outside cause result).SettlesOnce := by
  cases result with
  | invoked activation =>
      refine ⟨once.once, fun settled => ?_⟩
      rcases once.marked settled with marked | empty
      · exact Or.inl marked
      · exact absurd empty some_
  | rejected error => exact once.settle some_ _
  | threw error => exact once
  | resolved value =>
      have kept : (if outside.silences silenceEcho value then chain
          else { chain with sets := value :: chain.sets }).SettlesOnce ∧
          (if outside.silences silenceEcho value then chain
            else { chain with sets := value :: chain.sets }).visits ≠ [] := by
        split
        · exact ⟨once, some_⟩
        · exact ⟨⟨once.once, once.marked⟩, some_⟩
      simp only [Chain.apply]
      split
      · exact kept.1
      · exact kept.1.settle kept.2 _

theorem settlesOnce_send (plugins : List ClientHooks) (silenceEcho : Bool) (outside : Outside)
    (aborted : Bool) (state : IteratorState) :
    (send plugins silenceEcho outside aborted state).SettlesOnce := by
  unfold send
  cases stepForward plugins aborted { state with currentStep := 0 } 0 with
  | invoked activation => exact ⟨Nat.zero_le 1, fun settled => absurd rfl settled⟩
  | rejected error => exact ⟨Nat.le_refl 1, fun _ => Or.inl rfl⟩
  | threw error => exact ⟨Nat.le_refl 1, fun _ => Or.inr rfl⟩
  | resolved value =>
      simp only [apply]
      cases thrown : StepResult.thrown silenceEcho outside (.resolved value) with
      | some error =>
          cases outside.silences silenceEcho value with
          | true => exact ⟨Nat.le_refl 1, fun _ => Or.inr rfl⟩
          | false => exact ⟨Nat.le_refl 1, fun _ => Or.inr rfl⟩
      | none =>
          cases outside.silences silenceEcho value with
          | true => exact ⟨Nat.le_refl 1, fun _ => Or.inl rfl⟩
          | false => exact ⟨Nat.le_refl 1, fun _ => Or.inl rfl⟩

theorem early_of_exitHooks {currentStep below : Nat} {position : Position}
    (member : position ∈ exitHooks plugins currentStep below) (early : currentStep < 3) :
    position.1 < 3 := by
  obtain ⟨where_, _⟩ := mem_exitHooks.mp (show (position.1, position.2) ∈ _ from member)
  omega

theorem early_of_forwardHooks {setup : Bool} {currentStep start : Nat} {direction : Direction}
    {position : Position}
    (member : (direction, position) ∈ forwardHooks plugins setup currentStep start)
    (early : currentStep < 3) : position.1 < 3 := by
  unfold forwardHooks at member
  split at member
  · rcases List.mem_append.mp member with enter | exit_
    · obtain ⟨index, _, same⟩ := List.mem_map.mp enter
      cases same
      exact early
    · obtain ⟨candidate, inside, same⟩ := List.mem_map.mp exit_
      cases same
      exact early_of_exitHooks inside (by omega)
  · obtain ⟨candidate, inside, same⟩ := List.mem_map.mp member
    cases same
    obtain ⟨_, bound, _⟩ := mem_enterHooks.mp (show (position.1, position.2) ∈ _ from inside)
    omega

theorem nextStep_lt {activation : Activation} (early : activation.state.currentStep < 3) :
    activation.nextStep < 3 := by
  unfold Activation.nextStep
  cases activation.direction with
  | forward => exact early
  | backwards => exact Nat.zero_lt_succ 2
  | error => exact Nat.zero_lt_succ 2

theorem act_visits {setup : Bool} (act : Act)
    (early : ∀ activation, act.activation? = some activation → activation.state.currentStep < 3) :
    (chain.act plugins silenceEcho act).visits = chain.visits ∨
      chain.aborted = false ∧ ∃ visit, visit.InOrder plugins setup ∧
        visit.activation.state.currentStep < 3 ∧
        (chain.act plugins silenceEcho act).visits = visit :: chain.visits := by
  cases act with
  | abort => exact Or.inl rfl
  | next activation context outside =>
      have bound := nextStep_lt (early activation rfl)
      rw [Chain.act, apply_visits, Activation.next_eq]
      split
      · next visited invoked =>
          obtain ⟨calm, _, first⟩ := stepForward_visits bound invoked
          refine Or.inr ⟨calm, ⟨.next activation, visited⟩, first, ?_, rfl⟩
          exact early_of_forwardHooks (List.mem_of_head? first) bound
      · exact Or.inl rfl
  | resolve activation context value outside =>
      rw [Chain.act, apply_visits, Activation.resolve_eq]
      split
      · next visited invoked =>
          obtain ⟨calm, direction, first, _⟩ := stepBackwards_visits invoked
          refine Or.inr ⟨calm, ⟨.resolve activation, visited⟩, ⟨direction, first⟩, ?_, rfl⟩
          exact early_of_exitHooks (List.mem_of_head? first) (early activation rfl)
      · exact Or.inl rfl
  | fail activation error =>
      rw [Chain.act, apply_visits]
      split
      · next visited invoked =>
          obtain ⟨calm, direction, below, same, handled⟩ := stepError_visits invoked
          refine Or.inr ⟨calm, ⟨.error activation error, visited⟩, ⟨direction, below, handled⟩, ?_, rfl⟩
          rw [same]
          exact early activation rfl
      · exact Or.inl rfl

theorem act_sets_iff (act : Act) (aborted : chain.aborted = true)
    (early : ∀ activation, act.activation? = some activation → activation.state.currentStep < 3) :
    (chain.act plugins silenceEcho act).sets = chain.sets ↔ act.Calm plugins silenceEcho chain := by
  cases act with
  | abort => exact ⟨fun _ _ => trivial, fun _ => rfl⟩
  | next activation context outside =>
      have bound := nextStep_lt (early activation rfl)
      rw [Chain.act, apply_sets_eq_iff, Activation.next_eq]
      have ends := @stepForward_resolved plugins chain.aborted
        { activation.state with context, currentStep := activation.nextStep }
        activation.nextStart
      constructor
      · intro silent _ setup empty
        exact silent _ ((ends bound).mpr ⟨setup, empty, rfl⟩)
      · intro calm final resolved
        obtain ⟨setup, empty, rfl⟩ := (ends bound).mp resolved
        exact calm aborted setup empty
  | resolve activation context value outside =>
      rw [Chain.act, apply_sets_eq_iff, Activation.resolve_eq]
      constructor
      · intro silent _ empty
        exact silent _ (stepBackwards_resolved.mpr ⟨empty, rfl⟩)
      · intro calm final resolved
        obtain ⟨empty, rfl⟩ := stepBackwards_resolved.mp resolved
        exact calm aborted empty
  | fail activation error =>
      rw [Chain.act, apply_sets_eq_iff]
      exact ⟨fun _ _ => trivial, fun _ _ resolved => absurd resolved stepError_ne_resolved⟩

theorem apply_aborted (result : StepResult) :
    (chain.apply silenceEcho outside cause result).aborted = chain.aborted := by
  cases result with
  | invoked activation => rfl
  | rejected error => exact settle_aborted _ _
  | threw error => rfl
  | resolved value =>
      simp only [apply]
      split
      · split <;> rfl
      · rw [settle_aborted]
        split <;> rfl

theorem act_aborted (act : Act) (aborted : chain.aborted = true) :
    (chain.act plugins silenceEcho act).aborted = true := by
  cases act with
  | abort => rfl
  | next activation context outside => exact (apply_aborted _).trans aborted
  | resolve activation context value outside => exact (apply_aborted _).trans aborted
  | fail activation error => exact (apply_aborted _).trans aborted

/-- What holds of every state of a send. -/
structure Orderly (plugins : List ClientHooks) (setup : Bool) (chain : Chain) : Prop where
  early : ∀ visit ∈ chain.visits, visit.activation.state.currentStep < 3
  inOrder : ∀ visit ∈ chain.visits, visit.InOrder plugins setup
  settles : chain.SettlesOnce

theorem Orderly.early_of_visited {setup : Bool} {act : Act} (orderly : chain.Orderly plugins setup)
    (visited : ∀ activation, act.activation? = some activation →
      ∃ visit ∈ chain.visits, visit.activation = activation) :
    ∀ activation, act.activation? = some activation → activation.state.currentStep < 3 := by
  intro activation acts
  obtain ⟨visit, member, rfl⟩ := visited activation acts
  exact orderly.early visit member

theorem Orderly.act {setup : Bool} {act : Act} (orderly : chain.Orderly plugins setup)
    (visited : ∀ activation, act.activation? = some activation →
      ∃ visit ∈ chain.visits, visit.activation = activation) :
    (chain.act plugins silenceEcho act).Orderly plugins setup := by
  have early := orderly.early_of_visited visited
  have some_ : ∀ activation, act.activation? = some activation → chain.visits ≠ [] := by
    intro activation acts
    obtain ⟨visit, member, _⟩ := visited activation acts
    exact List.ne_nil_of_mem member
  have settles : (chain.act plugins silenceEcho act).SettlesOnce := by
    cases act with
    | abort => exact ⟨orderly.settles.once, orderly.settles.marked⟩
    | next activation context outside => exact orderly.settles.apply (some_ _ rfl) _
    | resolve activation context value outside => exact orderly.settles.apply (some_ _ rfl) _
    | fail activation error => exact orderly.settles.apply (some_ _ rfl) _
  rcases @act_visits plugins silenceEcho chain setup act early with
    same | ⟨_, visit, inOrder, bound, grown⟩
  · exact ⟨same ▸ orderly.early, same ▸ orderly.inOrder, settles⟩
  · refine ⟨?_, ?_, settles⟩
    · rw [grown]
      intro other member
      rcases List.mem_cons.mp member with rfl | older
      · exact bound
      · exact orderly.early other older
    · rw [grown]
      intro other member
      rcases List.mem_cons.mp member with rfl | older
      · exact inOrder
      · exact orderly.inOrder other older

theorem Orderly.later {setup : Bool} {permitted : Chain → Act → Prop} {after : Chain}
    (orderly : chain.Orderly plugins setup)
    (later : Later plugins silenceEcho permitted chain after) : after.Orderly plugins setup := by
  induction later with
  | refl => exact orderly
  | step _ act visited _ ih => exact ih.act visited

theorem send_visits (plugins : List ClientHooks) (silenceEcho : Bool) (outside : Outside)
    (aborted : Bool) (state : IteratorState) :
    (send plugins silenceEcho outside aborted state).visits =
      match stepForward plugins aborted { state with currentStep := 0 } 0 with
      | .invoked activation => [⟨.sent, activation⟩]
      | _ => [] := by
  have applied := @apply_visits silenceEcho outside .sent { aborted }
    (stepForward plugins aborted { state with currentStep := 0 } 0)
  unfold send
  simp only []
  rw [← applied]
  split <;> rfl

theorem orderly_send (plugins : List ClientHooks) (silenceEcho : Bool) (outside : Outside)
    (aborted : Bool) (state : IteratorState) :
    (send plugins silenceEcho outside aborted state).Orderly plugins state.setup := by
  refine ⟨?_, ?_, settlesOnce_send plugins silenceEcho outside aborted state⟩
  all_goals
    rw [send_visits]
    split
    · next activation invoked =>
        obtain ⟨_, _, first⟩ := stepForward_visits (Nat.zero_lt_succ 2) invoked
        intro visit member
        rw [List.mem_singleton.mp member]
        first
        | exact first
        | exact early_of_forwardHooks (List.mem_of_head? first) (Nat.zero_lt_succ 2)
    · exact fun _ member => absurd member List.not_mem_nil

theorem Orderly.rest {setup : Bool} {after : Chain} (orderly : chain.Orderly plugins setup)
    (aborted : chain.aborted = true)
    (later : Later plugins silenceEcho (fun state act => act.Calm plugins silenceEcho state)
      chain after) :
    after.aborted = true ∧ after.visits = chain.visits ∧ after.sets = chain.sets := by
  induction later with
  | refl => exact ⟨aborted, rfl, rfl⟩
  | @step middle before act visited calm ih =>
      obtain ⟨still, visits, sets⟩ := ih
      have early := (orderly.later before).early_of_visited visited
      refine ⟨act_aborted act still, ?_, ((act_sets_iff act still early).mpr calm).trans sets⟩
      rcases @act_visits plugins silenceEcho middle setup act early with same | ⟨calm, _⟩
      · exact same.trans visits
      · rw [still] at calm
        cases calm

end Chain

inductive EnterPass (plugins : List ClientHooks) : Activation → List Position → Prop where
  | stay (activation : Activation) : EnterPass plugins activation []
  | next {activation visited : Activation} {context : ClientPluginContext} {rest : List Position}
      (calls : activation.next plugins false context = .invoked visited)
      (pass : EnterPass plugins visited rest) :
      EnterPass plugins activation (visited.position :: rest)

inductive ExitPass (plugins : List ClientHooks) : Activation → List Position → Prop where
  | ends {activation : Activation} {context : ClientPluginContext}
      {value final : Option QueryResult}
      (calls : activation.resolve plugins false context value = .resolved final) :
      ExitPass plugins activation []
  | resolve {activation visited : Activation} {context : ClientPluginContext}
      {value : Option QueryResult} {rest : List Position}
      (calls : activation.resolve plugins false context value = .invoked visited)
      (pass : ExitPass plugins visited rest) :
      ExitPass plugins activation (visited.position :: rest)

section Passes

variable {plugins : List ClientHooks} {activation : Activation} {list : List Position}

theorem enterHooks_of_forwardHooks {currentStep start : Nat} {direction : Direction}
    {position : Position}
    (first : (forwardHooks plugins false currentStep start).head? = some (direction, position)) :
    direction = .forward ∧
      ∃ rest, enterHooks plugins (3 - currentStep) currentStep start = position :: rest := by
  rw [forwardHooks, if_neg Bool.false_ne_true, List.head?_map] at first
  obtain ⟨candidate, head, same⟩ := Option.map_eq_some_iff.mp first
  cases same
  cases enters : enterHooks plugins (3 - currentStep) currentStep start with
  | nil =>
      rw [enters] at head
      cases head
  | cons found rest =>
      rw [enters] at head
      cases head
      exact ⟨rfl, rest, rfl⟩

theorem EnterPass.prefix_left (pass : EnterPass plugins activation list)
    (forward : activation.direction = .forward) (send : activation.state.setup = false)
    (early : activation.state.currentStep < 3) :
    list <+: enterHooks plugins (3 - activation.state.currentStep) activation.state.currentStep
      (activation.index + 1) := by
  induction pass with
  | stay activation => exact List.nil_prefix
  | @next activation visited context rest calls pass ih =>
      rw [Activation.next_eq] at calls
      obtain ⟨_, setup, first⟩ := stepForward_visits (Chain.nextStep_lt early) calls
      have step : activation.nextStep = activation.state.currentStep := by
        rw [Activation.nextStep, forward]
      have start : activation.nextStart = activation.index + 1 := by
        rw [Activation.nextStart, forward]
      simp only [send, step, start] at first setup
      obtain ⟨direction, others, enters⟩ := enterHooks_of_forwardHooks first
      have bound := Chain.early_of_forwardHooks (List.mem_of_head? first) early
      have later := ih direction setup bound
      have tail := enterHooks_tail enters
      rw [Nat.sub_add_cancel (Nat.le_of_lt early)] at tail
      rw [enters, tail]
      exact (List.prefix_cons_inj _).mpr later

theorem ExitPass.eq_left (pass : ExitPass plugins activation list) :
    list = activation.left plugins := by
  induction pass with
  | ends calls =>
      rw [Activation.resolve_eq] at calls
      exact (stepBackwards_resolved.mp calls).1.symm
  | @resolve activation visited context value rest calls pass ih =>
      rw [Activation.resolve_eq] at calls
      obtain ⟨_, direction, first, _⟩ := stepBackwards_visits calls
      obtain ⟨others, exits⟩ := List.head?_eq_some_iff.mp first
      have tail := exitHooks_tail exits
      rw [Activation.left, exits, tail, ih, Activation.left, direction]
      rfl

theorem mem_left_of_forward (forward : activation.direction = .forward) {step index : Nat} :
    (step, index) ∈ activation.left plugins ↔
      (step < activation.state.currentStep ∨
        step = activation.state.currentStep ∧ index ≤ activation.index) ∧
        hasHook (·.backwards step) plugins index = true := by
  rw [Activation.left, forward, mem_exitHooks, Nat.lt_succ_iff]

theorem exitHooks_sorted (plugins : List ClientHooks) (currentStep below : Nat) :
    (exitHooks plugins currentStep below).Pairwise fun first second =>
      second.1 < first.1 ∨ second.1 = first.1 ∧ second.2 < first.2 := by
  have phase : ∀ step bound, ((hooksBelow (·.backwards step) plugins bound).map
      (step, ·)).Pairwise fun first second : Position =>
        second.1 < first.1 ∨ second.1 = first.1 ∧ second.2 < first.2 := by
    intro step bound
    rw [List.pairwise_map]
    exact (hooksBelow_sorted bound).imp fun lower => Or.inr ⟨rfl, lower⟩
  induction currentStep generalizing below with
  | zero => exact phase 0 below
  | succ previous ih =>
      rw [exitHooks, List.pairwise_append]
      refine ⟨phase _ _, ih _, ?_⟩
      intro first here second later
      obtain ⟨index, _, rfl⟩ := List.mem_map.mp here
      obtain ⟨bound, _⟩ := mem_exitHooks.mp (show (second.1, second.2) ∈ _ from later)
      exact Or.inl (by simp only; omega)

end Passes

/-- In a send whose acts after an abort are calm, every hook is visited in its turn, an error is
handled before the plugin that raised it, the promise settles once, and nothing happens after an
abort. Whole passes visit the enter hooks in order, and from an enter hook all the exit hooks whose
phase was entered, in reverse order. -/
theorem Chain.onion (plugins : List ClientHooks) (silenceEcho : Bool) (outside : Outside)
    (aborted : Bool) (state : IteratorState) {chain : Chain}
    (starts : aborted = true → state.setup = true → forwardHooks plugins true 0 0 = [] →
      outside.silences silenceEcho (some state.initialState) = true)
    (later : Later plugins silenceEcho (fun before act => act.Calm plugins silenceEcho before)
      (send plugins silenceEcho outside aborted state) chain) :
    (aborted = true → (send plugins silenceEcho outside aborted state).visits = [] ∧
      (send plugins silenceEcho outside aborted state).sets = []) ∧
    (∀ visit ∈ chain.visits, visit.InOrder plugins state.setup) ∧
    chain.settlements.length ≤ 1 ∧
    (∀ after, chain.aborted = true →
      Later plugins silenceEcho (fun before act => act.Calm plugins silenceEcho before)
        chain after → after.visits = chain.visits ∧ after.sets = chain.sets) ∧
    (∀ first list, state.setup = false →
      stepForward plugins false { state with currentStep := 0 } 0 = .invoked first →
      EnterPass plugins first list → first.position :: list <+: enterHooks plugins 3 0 0) ∧
    ∀ activation list, ExitPass plugins activation list →
      list = activation.left plugins ∧
      (list.Pairwise fun first second =>
        second.1 < first.1 ∨ second.1 = first.1 ∧ second.2 < first.2) ∧
      (activation.direction = .forward → ∀ step index, (step, index) ∈ list ↔
        (step < activation.state.currentStep ∨
          step = activation.state.currentStep ∧ index ≤ activation.index) ∧
          hasHook (·.backwards step) plugins index = true) := by
  have orderly := (orderly_send plugins silenceEcho outside aborted state).later later
  refine ⟨?_, orderly.inOrder, orderly.settles.once, ?_, ?_, ?_⟩
  · rintro rfl
    constructor
    · rw [send_visits]
      split
      · next activation invoked =>
          obtain ⟨calm, _⟩ := stepForward_visits (Nat.zero_lt_succ 2) invoked
          cases calm
      · rfl
    · have sets : (apply silenceEcho outside .sent { aborted := true }
          (stepForward plugins true { state with currentStep := 0 } 0)).sets = [] := by
        refine (apply_sets_eq_iff _).mpr fun final resolved => ?_
        obtain ⟨setup, empty, rfl⟩ := (stepForward_resolved (Nat.zero_lt_succ 2)).mp resolved
        exact starts rfl setup empty
      unfold send
      simp only []
      split
      · exact sets
      · exact sets
  · intro after stopped rest
    exact (orderly.rest stopped rest).2
  · intro first list send invoked pass
    obtain ⟨_, setup, head⟩ := stepForward_visits (Nat.zero_lt_succ 2) invoked
    simp only [send] at head setup
    obtain ⟨direction, others, enters⟩ := enterHooks_of_forwardHooks head
    have bound := early_of_forwardHooks (List.mem_of_head? head) (Nat.zero_lt_succ 2)
    have tail := enterHooks_tail enters
    rw [show enterHooks plugins 3 0 0 = enterHooks plugins (3 - 0) 0 0 from rfl, enters, tail]
    exact (List.prefix_cons_inj _).mpr (pass.prefix_left direction setup bound)
  · intro activation list pass
    have same := pass.eq_left
    refine ⟨same, ?_, fun forward step index => ?_⟩
    · rw [same]
      exact exitHooks_sorted _ _ _
    · rw [same]
      exact mem_left_of_forward forward

/-- A plugin with a `start` and an `end` hook: both are visited. -/
theorem Chain.onion_visits :
    ∃ chain, Later [{ start := some fun _ => .finish, «end» := some fun _ _ => .finish }] false
        (fun before act => act.Calm
          [{ start := some fun _ => .finish, «end» := some fun _ _ => .finish }] false before)
        (send [{ start := some fun _ => .finish, «end» := some fun _ _ => .finish }] false
          ⟨false, none⟩ false { context := { artifactKind := .query } }) chain ∧
      chain.visits.length = 2 ∧ chain.settlements.length ≤ 1 := by
  let plugins : List ClientHooks :=
    [{ start := some fun _ => .finish, «end» := some fun _ _ => .finish }]
  let state : IteratorState := { context := { artifactKind := .query } }
  let first : Activation := { direction := .forward, index := 0, program := .finish, state }
  have resolved := @Later.step plugins false (fun before act => act.Calm plugins false before)
    (send plugins false ⟨false, none⟩ false state) _ .refl
    (.resolve first { artifactKind := .query } none ⟨false, none⟩)
    (fun _ acts => ⟨⟨.sent, first⟩, List.mem_cons_self, Option.some.inj acts⟩)
    (fun aborted => absurd aborted Bool.false_ne_true)
  exact ⟨_, resolved, rfl, (onion plugins false ⟨false, none⟩ false state
    (fun aborted => absurd aborted Bool.false_ne_true) resolved).2.2.1⟩

/-- The hook of the network phase resolves after the abort: no exit hook is left that would look at
the controller, and the store is written. -/
theorem Chain.aborted_sets :
    ¬ ∀ (plugins : List ClientHooks) (silenceEcho : Bool) (outside : Outside)
      (state : IteratorState) (chain after : Chain),
      Later plugins silenceEcho (fun _ _ => True)
        (send plugins silenceEcho outside false state) chain →
      chain.aborted = true → Later plugins silenceEcho (fun _ _ => True) chain after →
      after.sets = chain.sets := by
  intro quiet
  let plugins : List ClientHooks := [{ network := some fun _ => .finish }]
  let state : IteratorState := { context := { artifactKind := .query } }
  let first : Activation :=
    { direction := .forward, index := 0, program := .finish
      state := { context := { artifactKind := .query }, currentStep := 2 } }
  have aborts : Later plugins false (fun _ _ => True) (send plugins false ⟨false, none⟩ false state)
      (act plugins false (send plugins false ⟨false, none⟩ false state) .abort) :=
    .step .refl .abort (fun _ acts => nomatch acts) trivial
  have resolves := @Later.step plugins false (fun _ _ => True)
    (act plugins false (send plugins false ⟨false, none⟩ false state) .abort) _ .refl
    (.resolve first { artifactKind := .query } (some {}) ⟨false, none⟩)
    (fun _ acts => ⟨⟨.sent, first⟩, List.mem_cons_self, Option.some.inj acts⟩) trivial
  have same := quiet plugins false ⟨false, none⟩ state _ _ aborts rfl resolves
  exact List.cons_ne_nil _ _ same

end Houdini.Runtime.Client
