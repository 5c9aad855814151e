import Houdini.Runtime.Client.DocumentStore

/-! Which hook a step of the pipeline invokes. -/

set_option autoImplicit false

namespace Houdini.Runtime.Client

section Find

variable {Hook : Type} {hook : ClientHooks → Option Hook}

theorem findUp_found {plugins : List ClientHooks} {start index : Nat} {found : Hook}
    (success : findUp hook start plugins = some (index, found)) :
    start ≤ index ∧ plugins[index - start]?.bind hook = some found := by
  induction plugins generalizing start with
  | nil => cases success
  | cons plugin rest ih =>
      cases here : hook plugin with
      | some handler =>
          simp only [findUp, here, Option.some.injEq, Prod.mk.injEq] at success
          obtain ⟨rfl, rfl⟩ := success
          exact ⟨Nat.le_refl _, by simp [here]⟩
      | none =>
          simp only [findUp, here] at success
          obtain ⟨above, later⟩ := ih success
          refine ⟨by omega, ?_⟩
          have shift : index - start = (index - (start + 1)) + 1 := by omega
          rw [shift, List.getElem?_cons_succ]
          exact later

theorem findUp_le {plugins : List ClientHooks} (start : Nat) {target : Nat} {expected : Hook}
    (present : plugins[target]?.bind hook = some expected) :
    ∃ index found, findUp hook start plugins = some (index, found) ∧ index ≤ start + target := by
  induction plugins generalizing start target with
  | nil => simp at present
  | cons plugin rest ih =>
      cases here : hook plugin with
      | some handler => exact ⟨start, handler, by simp [findUp, here], by omega⟩
      | none =>
          cases target with
          | zero => simp [here] at present
          | succ target =>
              rw [List.getElem?_cons_succ] at present
              obtain ⟨index, found, success, bound⟩ := ih (start + 1) present
              exact ⟨index, found, by simpa [findUp, here] using success, by omega⟩

theorem findDown_found {plugins : List ClientHooks} {below index : Nat} {found : Hook}
    (success : findDown plugins hook below = some (index, found)) :
    index < below ∧ plugins[index]?.bind hook = some found := by
  induction below with
  | zero => cases success
  | succ below ih =>
      cases here : plugins[below]?.bind hook with
      | some handler =>
          simp only [findDown, here, Option.some.injEq, Prod.mk.injEq] at success
          obtain ⟨rfl, rfl⟩ := success
          exact ⟨Nat.lt_succ_self _, here⟩
      | none =>
          simp only [findDown, here] at success
          obtain ⟨bound, later⟩ := ih success
          exact ⟨by omega, later⟩

theorem findDown_ge {plugins : List ClientHooks} {below target : Nat} {expected : Hook}
    (inRange : target < below) (present : plugins[target]?.bind hook = some expected) :
    ∃ index found, findDown plugins hook below = some (index, found) ∧ target ≤ index := by
  induction below with
  | zero => omega
  | succ below ih =>
      cases here : plugins[below]?.bind hook with
      | some handler => exact ⟨below, handler, by simp [findDown, here], by omega⟩
      | none =>
          have different : target ≠ below := by
            intro same
            rw [← same, present] at here
            cases here
          obtain ⟨index, found, success, bound⟩ := ih (by omega)
          exact ⟨index, found, by simpa [findDown, here] using success, bound⟩

end Find

def Activation.Fresh (plugins : List ClientHooks) (activation : Activation) : Prop :=
  match activation.direction with
  | .forward => ∃ handler,
      plugins[activation.index]?.bind (·.forward activation.state.currentStep) = some handler ∧
        activation.program = handler activation.state.context
  | .backwards => ∃ handler,
      plugins[activation.index]?.bind (·.backwards activation.state.currentStep) = some handler ∧
        activation.program = handler activation.state.context activation.value
  | .error => ∃ handler error,
      plugins[activation.index]?.bind (·.catch) = some handler ∧
        activation.program = handler activation.state.context error

section Steps

variable {plugins : List ClientHooks} {aborted : Bool} {state : IteratorState}

theorem stepError_invoked {error : JSError} {below : Nat} {activation : Activation}
    (invoked : stepError plugins aborted state error below = .invoked activation) :
    activation.Fresh plugins ∧ activation.direction = .error ∧ activation.state = state ∧
      activation.index < below := by
  induction below generalizing error with
  | zero => cases invoked
  | succ below ih =>
      cases here : plugins[below]?.bind (·.catch) with
      | none =>
          simp only [stepError, here] at invoked
          obtain ⟨fresh, direction, same, bound⟩ := ih invoked
          exact ⟨fresh, direction, same, by omega⟩
      | some handler =>
          cases stopped : aborted with
          | true =>
              simp only [stepError, here, stopped, if_true] at invoked ih
              obtain ⟨fresh, direction, same, bound⟩ := ih invoked
              exact ⟨fresh, direction, same, by omega⟩
          | false =>
              simp only [stepError, here, stopped, Bool.false_eq_true, if_false,
                StepResult.invoked.injEq] at invoked
              subst invoked
              exact ⟨⟨handler, error, here, rfl⟩, rfl, rfl, Nat.lt_succ_self _⟩

theorem stepError_reaches {error : JSError} {below target : Nat}
    {expected : ClientPluginErrorPhase} (inRange : target < below)
    (present : plugins[target]?.bind (·.catch) = some expected) :
    ∃ activation, stepError plugins false state error below = .invoked activation ∧
      target ≤ activation.index := by
  induction below with
  | zero => omega
  | succ below ih =>
      cases here : plugins[below]?.bind (·.catch) with
      | some handler =>
          exact ⟨_, by simp [stepError, here]; rfl, by simp only; omega⟩
      | none =>
          have different : target ≠ below := by
            intro same
            rw [← same, present] at here
            cases here
          obtain ⟨activation, invoked, bound⟩ := ih (by omega)
          exact ⟨activation, by simpa [stepError, here] using invoked, bound⟩

theorem stepError_rejected {error : JSError} {below : Nat}
    (none_ : ∀ index < below, plugins[index]?.bind (·.catch) = none) :
    ∃ thrown, stepError plugins aborted state error below = .rejected thrown := by
  induction below with
  | zero => exact ⟨error, rfl⟩
  | succ below ih =>
      obtain ⟨thrown, rejected⟩ := ih fun index bound => none_ index (by omega)
      exact ⟨thrown, by simpa [stepError, none_ below (by omega)] using rejected⟩

theorem stepBackwards_invoked {value : Option QueryResult} {currentStep below : Nat}
    {activation : Activation}
    (invoked : stepBackwards plugins aborted state value currentStep below = .invoked activation) :
    activation.Fresh plugins ∧ activation.state.context = state.context ∧
      (activation.direction = .backwards ∨ activation.direction = .error) := by
  induction currentStep generalizing below with
  | zero =>
      unfold stepBackwards at invoked
      cases found : findDown plugins (·.backwards 0) below with
      | none => simp [found] at invoked
      | some entry =>
          obtain ⟨index, handler⟩ := entry
          simp only [found] at invoked
          split at invoked
          · obtain ⟨fresh, direction, same, _⟩ := stepError_invoked invoked
            exact ⟨fresh, by rw [same], .inr direction⟩
          · cases invoked
            exact ⟨⟨handler, (findDown_found found).2, rfl⟩, rfl, .inl rfl⟩
  | succ previous ih =>
      unfold stepBackwards at invoked
      cases found : findDown plugins (·.backwards (previous + 1)) below with
      | none =>
          simp only [found] at invoked
          exact ih invoked
      | some entry =>
          obtain ⟨index, handler⟩ := entry
          simp only [found] at invoked
          split at invoked
          · obtain ⟨fresh, direction, same, _⟩ := stepError_invoked invoked
            exact ⟨fresh, by rw [same], .inr direction⟩
          · cases invoked
            exact ⟨⟨handler, (findDown_found found).2, rfl⟩, rfl, .inl rfl⟩

/-- Without an abort, a backwards step from above a plugin with an `end` hook does not
leave the pipeline, and visits that phase from there or above. -/
theorem stepBackwards_reaches {value : Option QueryResult} {currentStep below target : Nat}
    {expected : ClientPluginExitPhase} (inRange : target < plugins.length)
    (above : currentStep = 0 → target < below)
    (present : plugins[target]?.bind (·.backwards 0) = some expected) :
    ∃ activation, stepBackwards plugins false state value currentStep below =
        .invoked activation ∧ activation.direction = .backwards ∧
      (activation.state.currentStep = 0 → target ≤ activation.index) := by
  induction currentStep generalizing below with
  | zero =>
      obtain ⟨index, handler, found, bound⟩ := findDown_ge (above rfl) present
      unfold stepBackwards
      simp only [found, Bool.false_eq_true, if_false]
      exact ⟨_, rfl, rfl, fun _ => bound⟩
  | succ previous ih =>
      unfold stepBackwards
      cases found : findDown plugins (·.backwards (previous + 1)) below with
      | none => exact ih fun _ => inRange
      | some entry =>
          obtain ⟨index, handler⟩ := entry
          simp only [Bool.false_eq_true, if_false]
          exact ⟨_, rfl, rfl, fun impossible => by cases impossible⟩

theorem findUp_drop_found {Hook : Type} {hook : ClientHooks → Option Hook}
    {start index : Nat} {found : Hook}
    (success : findUp hook start (plugins.drop start) = some (index, found)) :
    start ≤ index ∧ plugins[index]?.bind hook = some found := by
  obtain ⟨bound, present⟩ := findUp_found success
  rw [List.getElem?_drop] at present
  have same : start + (index - start) = index := by omega
  rw [same] at present
  exact ⟨bound, present⟩

theorem stepForwardFrom_invoked {remaining currentStep start : Nat} {activation : Activation}
    (invoked : stepForwardFrom plugins aborted state remaining currentStep start =
      .invoked activation) :
    activation.Fresh plugins ∧ activation.state.context = state.context ∧
      (activation.direction = .forward → currentStep ≤ activation.state.currentStep ∧
        (activation.state.currentStep = currentStep → start ≤ activation.index)) := by
  induction remaining generalizing currentStep start with
  | zero => cases invoked
  | succ remaining ih =>
      unfold stepForwardFrom at invoked
      cases found : findUp (·.forward currentStep) start (plugins.drop start) with
      | some entry =>
          obtain ⟨index, handler⟩ := entry
          obtain ⟨bound, present⟩ := findUp_drop_found found
          simp only [found] at invoked
          split at invoked
          · obtain ⟨fresh, direction, same, _⟩ := stepError_invoked invoked
            refine ⟨fresh, by rw [same], fun impossible => ?_⟩
            rw [direction] at impossible
            cases impossible
          · cases invoked
            exact ⟨⟨handler, present, rfl⟩, rfl, fun _ => ⟨Nat.le_refl _, fun _ => bound⟩⟩
      | none =>
          simp only [found] at invoked
          split at invoked
          · obtain ⟨fresh, same, direction⟩ := stepBackwards_invoked invoked
            refine ⟨fresh, same, fun impossible => ?_⟩
            rw [impossible] at direction
            rcases direction with other | other <;> cases other
          · obtain ⟨fresh, same, location⟩ := ih invoked
            refine ⟨fresh, same, fun direction => ?_⟩
            obtain ⟨later, _⟩ := location direction
            exact ⟨by omega, fun impossible => by omega⟩

/-- Without an abort, a forward step does not leave the pipeline when a plugin has an
`end` hook. It can only throw because no phase is left. -/
theorem stepForwardFrom_reaches {remaining currentStep start target : Nat}
    {expected : ClientPluginExitPhase} (inRange : target < plugins.length)
    (present : plugins[target]?.bind (·.backwards 0) = some expected) :
    (∃ error, stepForwardFrom plugins false state remaining currentStep start = .threw error) ∨
      ∃ activation, stepForwardFrom plugins false state remaining currentStep start =
        .invoked activation ∧ (activation.direction = .forward ∨
          activation.direction = .backwards ∧
            (activation.state.currentStep = 0 → target ≤ activation.index)) := by
  induction remaining generalizing currentStep start with
  | zero => exact .inl ⟨_, rfl⟩
  | succ remaining ih =>
      unfold stepForwardFrom
      cases found : findUp (·.forward currentStep) start (plugins.drop start) with
      | some entry =>
          obtain ⟨index, handler⟩ := entry
          simp only [Bool.false_eq_true, if_false]
          exact .inr ⟨_, rfl, .inl rfl⟩
      | none =>
          dsimp only
          split
          · have reached : ∃ activation, stepBackwards plugins false state
                (some state.initialState) 0 (plugins.length + 1) = .invoked activation ∧
                activation.direction = .backwards ∧
                (activation.state.currentStep = 0 → target ≤ activation.index) :=
              stepBackwards_reaches inRange (fun _ => by omega) present
            obtain ⟨activation, invoked, direction, bound⟩ := reached
            exact .inr ⟨activation, invoked, .inr ⟨direction, bound⟩⟩
          · exact ih

theorem stepForwardFrom_le {remaining currentStep start target : Nat}
    {expected : ClientPluginEnterPhase} (above : start ≤ target)
    (present : plugins[target]?.bind (·.forward currentStep) = some expected) :
    ∃ index ≤ target, ∃ handler, start ≤ index ∧
      plugins[index]?.bind (·.forward currentStep) = some handler ∧
      stepForwardFrom plugins aborted state (remaining + 1) currentStep start =
        if aborted then stepError plugins aborted { state with currentStep } abortError index
        else .invoked { direction := .forward, index, state := { state with currentStep },
                        program := handler state.context } := by
  have dropped : (plugins.drop start)[target - start]?.bind (·.forward currentStep) =
      some expected := by
    rw [List.getElem?_drop]
    have same : start + (target - start) = target := by omega
    rw [same]
    exact present
  obtain ⟨index, handler, found, bound⟩ := findUp_le start dropped
  obtain ⟨lower, here⟩ := findUp_drop_found found
  refine ⟨index, by omega, handler, lower, here, ?_⟩
  rw [stepForwardFrom, found]

end Steps

open Cache (InMemoryStorage LayerID)

theorem HookProgram.Step.storage_step {storage next : InMemoryStorage}
    {program rest : HookProgram} (step : HookProgram.Step storage program next rest) :
    next = storage ∨ storage.Step next := by
  cases step with
  | work | workFailed | respond | clearLayerFailed => exact .inl rfl
  | createLayer => exact .inr (.createLayer storage true)
  | @clearLayer id layer _ known =>
      refine .inr (.layer ?_ (.clear layer))
      unfold InMemoryStorage.getLayer at known
      cases found : storage.data.find? (·.id == id) with
      | none => rw [found] at known; cases known
      | some present =>
          rw [found] at known
          cases known
          exact List.mem_of_find?_eq_some found
  | @resolveLayer _ id _ success =>
      have step := InMemoryStorage.Step.resolveLayer storage id
      rw [success] at step
      exact .inr step
  | @resolveLayerFailed _ id _ _ failure =>
      have step := InMemoryStorage.Step.resolveLayer storage id
      rw [failure] at step
      exact .inr step

namespace Send

variable {pipeline : Pipeline} {send next : Send} {event : Event}

@[simp] theorem apply_storage (send : Send) (result : StepResult) :
    (send.apply result).storage = send.storage := by
  cases result <;> rfl

@[simp] theorem apply_layers (send : Send) (result : StepResult) :
    (send.apply result).layers = send.layers := by
  cases result <;> rfl

@[simp] theorem apply_resolved (send : Send) (result : StepResult) :
    (send.apply result).resolved = send.resolved := by
  cases result <;> rfl

theorem apply_settled {send : Send} {result : StepResult}
    (settled : (send.apply result).settled = true) :
    send.settled = true ∨ (∃ value, result = .resolved value) ∨ ∃ error, result = .rejected error := by
  cases result with
  | invoked | threw => exact .inl settled
  | resolved value => exact .inr (.inl ⟨value, rfl⟩)
  | rejected error => exact .inr (.inr ⟨error, rfl⟩)

theorem mem_apply_active {send : Send} {result : StepResult} {activation : Activation}
    (member : activation ∈ (send.apply result).active) :
    activation ∈ send.active ∨ result = .invoked activation := by
  cases result with
  | invoked newest =>
      obtain same | older := List.mem_cons.mp member
      · exact .inr (by rw [same])
      · exact .inl older
  | resolved | rejected | threw => exact .inl member

@[simp] theorem record_storage (send : Send) (pipeline : Pipeline) (activation : Activation) :
    (send.record pipeline activation).storage = send.storage := by
  unfold record
  split <;> rfl

@[simp] theorem record_active (send : Send) (pipeline : Pipeline) (activation : Activation) :
    (send.record pipeline activation).active = send.active := by
  unfold record
  split <;> rfl

@[simp] theorem record_settled (send : Send) (pipeline : Pipeline) (activation : Activation) :
    (send.record pipeline activation).settled = send.settled := by
  unfold record
  split <;> rfl

theorem Step.storage_step (step : Step pipeline send event next) :
    next.storage = send.storage ∨ send.storage.Step next.storage := by
  cases step with
  | storage step => exact .inr step
  | abort | finish => exact .inl rfl
  | run running step => exact step.storage_step
  | handOn running hands => exact .inl (apply_storage _ _)
  | handOnThrew running hands throws => exact .inl rfl
  | fail running program => exact .inl (apply_storage _ _)

/-- Where an active hook comes from: it was active before, it went on with the rest
of its program, or the step invoked it. -/
inductive Origin (pipeline : Pipeline) (send : Send) : Event → InMemoryStorage → Activation →
    Prop where
  | kept {event : Event} {storage : InMemoryStorage} {activation : Activation}
      (member : activation ∈ send.active) : Origin pipeline send event storage activation
  | ran {storage : InMemoryStorage} {activation : Activation} {rest : HookProgram}
      (member : activation ∈ send.active)
      (step : HookProgram.Step send.storage activation.program storage rest) :
      Origin pipeline send .other storage (activation.continue rest)
  | handedOn {storage : InMemoryStorage} {activation : Activation}
      {context : ClientPluginContext} {rest : HookProgram} {result : StepResult}
      (member : activation ∈ send.active)
      (hands : activation.HandsOn pipeline.plugins send.aborted context rest result) :
      Origin pipeline send (.handedOn activation context) storage (activation.continue rest)
  | threw {storage : InMemoryStorage} {activation : Activation}
      {context : ClientPluginContext} {rest : HookProgram} {result : StepResult}
      {error : JSError} (member : activation ∈ send.active)
      (hands : activation.HandsOn pipeline.plugins send.aborted context rest result) :
      Origin pipeline send .other storage (activation.continue (.throw error))
  | invoked {storage : InMemoryStorage} {activation invoked : Activation}
      {context : ClientPluginContext} {rest : HookProgram}
      (member : activation ∈ send.active)
      (hands : activation.HandsOn pipeline.plugins send.aborted context rest (.invoked invoked)) :
      Origin pipeline send (.handedOn activation context) storage invoked
  | handles {storage : InMemoryStorage} {activation handler : Activation} {error : JSError}
      (member : activation ∈ send.active) (program : activation.program = .throw error)
      (invokes : activation.fail pipeline.plugins send.aborted error = .invoked handler) :
      Origin pipeline send (.failed activation) storage handler

theorem mem_running {before after active : List Activation} {activation : Activation}
    (running : active = before ++ activation :: after) : activation ∈ active := by
  rw [running]
  exact List.mem_append_right _ List.mem_cons_self

theorem mem_replaced {before after active : List Activation}
    {activation replaced member : Activation} (running : active = before ++ activation :: after)
    (present : member ∈ before ++ replaced :: after) : member ∈ active ∨ member = replaced := by
  rw [running]
  simp only [List.mem_append, List.mem_cons] at present ⊢
  obtain older | same | older := present
  · exact .inl (.inl older)
  · exact .inr same
  · exact .inl (.inr (.inr older))

theorem Step.origin (step : Step pipeline send event next) {activation : Activation}
    (member : activation ∈ next.active) : Origin pipeline send event next.storage activation := by
  cases step with
  | storage step => exact .kept member
  | abort => exact .kept member
  | @finish before after finished running program =>
      refine .kept ?_
      rw [running]
      simp only [List.mem_append, List.mem_cons] at member ⊢
      exact member.imp id .inr
  | run running step =>
      obtain older | same := mem_replaced running (by simpa [proceed] using member)
      · exact .kept older
      · rw [same]
        exact .ran (mem_running running) step
  | handOn running hands =>
      obtain present | invoked := mem_apply_active member
      · obtain older | same := mem_replaced running present
        · exact .kept older
        · rw [same]
          exact .handedOn (mem_running running) hands
      · rw [invoked] at hands
        exact .invoked (mem_running running) hands
  | handOnThrew running hands throws =>
      obtain older | same := mem_replaced running member
      · exact .kept older
      · rw [same]
        exact .threw (mem_running running) hands
  | @fail before after failed error running program =>
      obtain present | invoked := mem_apply_active member
      · refine .kept ?_
        rw [running]
        simp only [List.mem_append, List.mem_cons] at present ⊢
        exact present.imp id .inr
      · exact .handles (mem_running running) program invoked

theorem Step.recorded (step : Step pipeline send event next) :
    (next.layers = send.layers ∧ next.resolved = send.resolved) ∨
      ∃ activation ∈ send.active, activation.index = pipeline.mutationIndex ∧
        next.layers = activation.program.creates send.storage ++ send.layers ∧
        next.resolved = activation.program.resolves.map (·, activation) ++ send.resolved := by
  cases step with
  | storage | abort | finish | handOnThrew => exact .inl ⟨rfl, rfl⟩
  | handOn | fail => exact .inl ⟨apply_layers _ _, apply_resolved _ _⟩
  | @run before after activation rest storage running step =>
      by_cases own : activation.index = pipeline.mutationIndex
      · refine .inr ⟨activation, mem_running running, own, ?_⟩
        simp only [proceed, record, own, if_true]
        exact ⟨trivial, trivial⟩
      · refine .inl ?_
        simp only [proceed, record, own, if_false]
        exact ⟨trivial, trivial⟩

theorem Step.settled (step : Step pipeline send event next) (settled : next.settled = true) :
    send.settled = true ∨
      (∃ activation ∈ send.active, ∃ context rest result,
        event = .handedOn activation context ∧
        activation.HandsOn pipeline.plugins send.aborted context rest result ∧
        ∀ invoked, result ≠ .invoked invoked ∧ ∀ error, result ≠ .threw error) ∨
      ∃ activation ∈ send.active, ∃ error,
        event = .failed activation ∧ activation.program = .throw error ∧
        ∀ invoked, activation.fail pipeline.plugins send.aborted error ≠ .invoked invoked := by
  cases step with
  | storage | abort | finish | handOnThrew => exact .inl settled
  | run running step => exact .inl (by simpa [proceed] using settled)
  | handOn running hands =>
      obtain earlier | resolved | rejected := apply_settled settled
      · exact .inl earlier
      · obtain ⟨value, rfl⟩ := resolved
        exact .inr (.inl ⟨_, mem_running running, _, _, _, rfl, hands,
          fun _ => ⟨nofun, fun _ => nofun⟩⟩)
      · obtain ⟨error, rfl⟩ := rejected
        exact .inr (.inl ⟨_, mem_running running, _, _, _, rfl, hands,
          fun _ => ⟨nofun, fun _ => nofun⟩⟩)
  | fail running program =>
      obtain earlier | resolved | rejected := apply_settled settled
      · exact .inl earlier
      · obtain ⟨value, same⟩ := resolved
        exact .inr (.inr ⟨_, mem_running running, _, rfl, program,
          fun _ impossible => by rw [same] at impossible; cases impossible⟩)
      · obtain ⟨error, same⟩ := rejected
        exact .inr (.inr ⟨_, mem_running running, _, rfl, program,
          fun _ impossible => by rw [same] at impossible; cases impossible⟩)

private theorem call_step {storage next : InMemoryStorage} {program rest : HookProgram}
    {move : Move} (success : call storage program move = some (next, rest)) :
    HookProgram.Step storage program next rest := by
  unfold call at success
  split at success
  · cases success
    exact .work _ _
  · cases success
    exact .workFailed _ _ _
  · cases success
    exact .respond _ _ _
  · cases success
    exact .createLayer _ _
  · split at success
    · cases success
      exact .clearLayer _ ‹_›
    · cases success
      exact .clearLayerFailed _ _ _ _
  · split at success
    · cases success
      exact .resolveLayer _ ‹_›
    · cases success
      exact .resolveLayerFailed _ ‹_›
  · cases success

theorem move_step {move : Move} (success : send.move pipeline move = some (event, next)) :
    Step pipeline send event next := by
  unfold Send.move at success
  split at success
  · cases success
    exact .abort send
  · split at success
    · cases success
    · rename_i activation after active
      have running : send.active = [] ++ activation :: after := active
      split at success
      · cases success
        exact .finish running ‹_›
      · cases success
        exact .handOn running (.next ‹_›)
      · cases success
        exact .handOn running (.resolve ‹_›)
      · cases success
        exact .fail running ‹_›
      · obtain ⟨⟨storage, rest⟩, called, same⟩ := Option.map_eq_some_iff.mp success
        cases same
        exact .run running (call_step called)

theorem replay_run {permitted : Send → Event → Prop}
    [∀ send event, Decidable (permitted send event)] {first : Send} {moves : List Move}
    (run : Run pipeline permitted first send)
    (success : replay pipeline permitted moves send = some next) :
    Run pipeline permitted first next := by
  induction moves generalizing send with
  | nil =>
      cases success
      exact run
  | cons move rest ih =>
      unfold replay at success
      cases moved : send.move pipeline move with
      | none => rw [moved] at success; cases success
      | some reached =>
          obtain ⟨event, middle⟩ := reached
          simp only [moved] at success
          split at success
          · rename_i condition
            exact ih (.step run condition (move_step moved)) success
          · cases success

end Send

end Houdini.Runtime.Client
