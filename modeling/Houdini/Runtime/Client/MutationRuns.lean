import Houdini.Runtime.Client.MutationProperties

/-! Every run of a mutation: when its optimistic layer is released before the send
settles, and a run in which it is not. -/

set_option autoImplicit false

namespace Houdini.Runtime.Client

open Cache (InMemoryStorage LayerID)

namespace Send

/-- A layer that the mutation plugin created for the send is still optimistic. -/
def Pending (send : Send) : Prop := ∃ id ∈ send.layers, send.storage.Optimistic id

end Send

/-- What an active hook may do once the layer exists. Before the mutation plugin, hooks
of the first phase have handed on already. -/
def Activation.permission (activation : Activation) (mutationIndex : Nat) (layer : LayerID) :
    Permission :=
  if mutationIndex < activation.index then .anything
  else
    match activation.direction with
    | .forward =>
        if activation.state.currentStep ≠ 0 then .keep activation.state.context
        else if activation.index = mutationIndex then .withLayer layer
        else .nothing
    | .backwards => .exit activation.state.context
    | .error => .nothing

def Activation.Carries (activation : Activation) (mutationIndex : Nat) (layer : LayerID) : Prop :=
  match activation.direction with
  | .forward =>
      (activation.state.currentStep = 0 ∧ activation.index ≤ mutationIndex) ∨
        activation.state.context.layer = some layer
  | .backwards =>
      activation.state.context.layer = some layer ∧
        (activation.state.currentStep = 0 → mutationIndex ≤ activation.index ∧
          (activation.index = mutationIndex → activation.program.Releases layer))
  | .error =>
      activation.state.context.layer = some layer ∧ mutationIndex ≤ activation.index ∧
        (activation.index = mutationIndex → activation.program.Releases layer)

/-- The one hook that a send which has not reached the mutation plugin runs. -/
structure Activation.Starting (activation : Activation) (mutationIndex : Nat) : Prop where
  direction : activation.direction = .forward
  step : activation.state.currentStep = 0
  inRange : activation.index ≤ mutationIndex
  before : activation.index < mutationIndex → activation.program.StartsOnce
  atMutation : activation.index = mutationIndex → activation.program.CreatesFirst

namespace Send

/-- The mutation plugin has not been reached, or never will be. -/
structure Early (pipeline : Pipeline) (send : Send) : Prop where
  layers : send.layers = []
  kind : ∀ activation ∈ send.active, activation.state.context.artifactKind = .mutation
  active : (∀ activation ∈ send.active, activation.program = .finish) ∨
    send.settled = false ∧ ∃ token others, send.active.Perm (token :: others) ∧
      token.Starting pipeline.mutationIndex ∧
      ∀ activation ∈ others, activation.program = .finish

/-- The mutation plugin has created its layer. -/
structure Late (pipeline : Pipeline) (layer : LayerID) (send : Send) : Prop where
  layers : send.layers = [layer]
  known : layer < send.storage.idCount
  kind : ∀ activation ∈ send.active, activation.state.context.artifactKind = .mutation
  within : ∀ activation ∈ send.active,
    activation.program.Within (activation.permission pipeline.mutationIndex layer)
  unsettled : send.storage.Optimistic layer → send.settled = false
  carried : send.storage.Optimistic layer → ∀ activation ∈ send.active,
    activation.program = .finish ∨ activation.Carries pipeline.mutationIndex layer

structure Sound (pipeline : Pipeline) (send : Send) : Prop where
  distinct : send.storage.DistinctLayers
  phase : send.Early pipeline ∨ ∃ layer, send.Late pipeline layer

/-- A step that does not lose the layer. While it is pending, no hook is invoked once
the request is aborted, only plugins after the mutation plugin fail, and the context
they hand on keeps the layer. No plugin makes the mutation another kind of document. -/
def Careful (pipeline : Pipeline) (send : Send) : Event → Prop
  | .other => True
  | .handedOn activation context =>
      (pipeline.mutationIndex < activation.index →
        context.artifactKind = activation.state.context.artifactKind) ∧
      (send.Pending → send.aborted = false ∧
        (pipeline.mutationIndex < activation.index →
          context.layer = activation.state.context.layer))
  | .failed activation =>
      send.Pending → send.aborted = false ∧ pipeline.mutationIndex < activation.index

end Send

section Invoked

variable {pipeline : Pipeline}

private theorem getElem_mutation (standard : pipeline.Standard) :
    pipeline.plugins[pipeline.mutationIndex]? = some mutation := by
  simp [Pipeline.plugins, Pipeline.mutationIndex, standard.mutation]

private theorem mutationIndex_lt (pipeline : Pipeline) :
    pipeline.mutationIndex < pipeline.plugins.length := by
  simp [Pipeline.plugins, Pipeline.mutationIndex]

private theorem plugin_before (standard : pipeline.Standard) {index : Nat} {plugin : ClientHooks}
    (inRange : index < pipeline.mutationIndex)
    (present : pipeline.plugins[index]? = some plugin) : plugin.PassesOn := by
  refine standard.before plugin ?_
  rw [Pipeline.plugins, List.getElem?_append_left inRange] at present
  exact List.mem_of_getElem? present

private theorem no_catch_before (standard : pipeline.Standard) {index : Nat}
    (inRange : index < pipeline.mutationIndex) :
    pipeline.plugins[index]?.bind (·.catch) = none := by
  cases present : pipeline.plugins[index]? with
  | none => rfl
  | some plugin => exact (plugin_before standard inRange present).catch

private theorem mutation_start {handler : ClientPluginEnterPhase}
    (present : mutation.forward 0 = some handler) {context : ClientPluginContext}
    (kind : context.artifactKind = .mutation) : (handler context).CreatesFirst := by
  cases present
  simp only [kind, ne_eq, not_true_eq_false, if_false]
  refine ⟨_, rfl, fun id => ?_⟩
  dsimp only
  split <;> simp [HookProgram.Within, Permission.withLayer, kind]

private theorem mutation_exit {step : Nat} {handler : ClientPluginExitPhase}
    (present : mutation.backwards step = some handler) (context : ClientPluginContext)
    (value : Option QueryResult) : (handler context value).Within (.exit context) := by
  obtain ending | after := ClientHooks.backwards_cases present
  · cases ending
    dsimp only
    split
    · simp [HookProgram.Within, Permission.exit]
    · unfold Mutation.end
      cases value with
      | none => exact trivial
      | some value =>
          cases context.layer with
          | none => simp [HookProgram.Within, Permission.exit]
          | some layer =>
              dsimp only
              split <;> simp [HookProgram.Within, Permission.exit]
  · cases after
    dsimp only
    split
    · simp [HookProgram.Within, Permission.exit]
    · unfold Mutation.afterNetwork
      cases context.layer <;> simp [HookProgram.Within, Permission.exit]

private theorem mutation_end {handler : ClientPluginExitPhase} {layer : LayerID}
    (present : mutation.backwards 0 = some handler) {context : ClientPluginContext}
    (kind : context.artifactKind = .mutation) (held : context.layer = some layer)
    (value : Option QueryResult) : (handler context value).Releases layer := by
  cases present
  simp only [kind, ne_eq, not_true_eq_false, if_false]
  unfold Mutation.end
  cases value with
  | none => exact trivial
  | some value =>
      simp only [held]
      split <;> rfl

private theorem mutation_catch {handler : ClientPluginErrorPhase}
    (present : mutation.catch = some handler) (context : ClientPluginContext) (error : JSError) :
    (handler context error).Within .nothing ∧
      ∀ layer, context.layer = some layer → (handler context error).Releases layer := by
  cases present
  unfold Mutation.catch
  cases held : context.layer with
  | none => exact ⟨trivial, nofun⟩
  | some layer => exact ⟨trivial, fun other same => Option.some.inj same⟩

private theorem within_of_fresh (standard : pipeline.Standard) {activation : Activation}
    (fresh : activation.Fresh pipeline.plugins)
    (kind : activation.state.context.artifactKind = .mutation)
    (started : activation.direction = .forward → activation.state.currentStep = 0 →
      pipeline.mutationIndex < activation.index) (layer : LayerID) :
    activation.program.Within (activation.permission pipeline.mutationIndex layer) := by
  unfold Activation.permission
  split
  · exact activation.program.within_anything
  · rename_i notAfter
    have inRange := Nat.eq_or_lt_of_le (Nat.le_of_not_lt notAfter)
    unfold Activation.Fresh at fresh
    cases direction : activation.direction with
    | forward =>
        have later : activation.state.currentStep ≠ 0 :=
          fun first => notAfter (started direction first)
        simp only [direction] at fresh
        obtain ⟨handler, found, program⟩ := fresh
        obtain ⟨plugin, present, hook⟩ := Option.bind_eq_some_iff.mp found
        simp only [later, ne_eq, not_false_eq_true, if_true]
        rw [program]
        obtain same | before := inRange
        · rw [same, getElem_mutation standard] at present
          cases present
          match step : activation.state.currentStep with
          | 0 => exact absurd step later
          | 1 | 2 | _ + 3 => rw [step] at hook; cases hook
        · exact (plugin_before standard before present).forward _ handler later hook _ kind
    | backwards =>
        simp only [direction] at fresh
        obtain ⟨handler, found, program⟩ := fresh
        obtain ⟨plugin, present, hook⟩ := Option.bind_eq_some_iff.mp found
        rw [program]
        obtain same | before := inRange
        · rw [same, getElem_mutation standard] at present
          cases present
          exact mutation_exit hook _ _
        · exact (plugin_before standard before present).backwards _ handler hook _ _ kind
    | error =>
        simp only [direction] at fresh
        obtain ⟨handler, error, found, program⟩ := fresh
        rw [program]
        obtain same | before := inRange
        · rw [same, getElem_mutation standard] at found
          exact (mutation_catch found _ error).1
        · rw [no_catch_before standard before] at found
          cases found

private theorem carries_of_fresh (standard : pipeline.Standard) {activation : Activation}
    {layer : LayerID} (fresh : activation.Fresh pipeline.plugins)
    (kind : activation.state.context.artifactKind = .mutation)
    (held : activation.state.context.layer = some layer)
    (located : activation.direction = .forward ∨
      (activation.direction = .backwards ∧
        (activation.state.currentStep = 0 → pipeline.mutationIndex ≤ activation.index)) ∨
      activation.direction = .error ∧ pipeline.mutationIndex ≤ activation.index) :
    activation.Carries pipeline.mutationIndex layer := by
  unfold Activation.Carries
  unfold Activation.Fresh at fresh
  obtain forward | ⟨backwards, bound⟩ | ⟨error, bound⟩ := located
  · simp only [forward]
    exact .inr held
  · simp only [backwards] at fresh ⊢
    refine ⟨held, fun last => ⟨bound last, fun same => ?_⟩⟩
    obtain ⟨handler, found, program⟩ := fresh
    rw [same, getElem_mutation standard, last] at found
    rw [program]
    exact mutation_end found kind held _
  · simp only [error] at fresh ⊢
    refine ⟨held, bound, fun same => ?_⟩
    obtain ⟨handler, error, found, program⟩ := fresh
    rw [same, getElem_mutation standard] at found
    rw [program]
    exact (mutation_catch found _ error).2 layer held

end Invoked

section Steps

variable {pipeline : Pipeline} {activation : Activation} {aborted : Bool}
  {context : ClientPluginContext} {rest : HookProgram} {result : StepResult}

private theorem Activation.HandsOn.invoked {invoked : Activation}
    (hands : activation.HandsOn pipeline.plugins aborted context rest (.invoked invoked)) :
    invoked.Fresh pipeline.plugins ∧ invoked.state.context = context := by
  generalize same : StepResult.invoked invoked = result at hands
  cases hands with
  | next program =>
      obtain ⟨fresh, handed, _⟩ := stepForwardFrom_invoked same.symm
      exact ⟨fresh, handed⟩
  | resolve program =>
      obtain ⟨fresh, handed, _⟩ := stepBackwards_invoked same.symm
      exact ⟨fresh, handed⟩

private theorem Activation.HandsOn.started {invoked : Activation} {layer : LayerID}
    (hands : activation.HandsOn pipeline.plugins aborted context rest (.invoked invoked))
    (within : activation.program.Within
      (activation.permission pipeline.mutationIndex layer))
    (forward : invoked.direction = .forward) (first : invoked.state.currentStep = 0) :
    pipeline.mutationIndex < invoked.index := by
  generalize same : StepResult.invoked invoked = result at hands
  cases hands with
  | resolve program =>
      obtain ⟨_, _, direction⟩ := stepBackwards_invoked same.symm
      rw [forward] at direction
      obtain impossible | impossible := direction <;> cases impossible
  | next program =>
      obtain ⟨_, _, location⟩ := stepForwardFrom_invoked same.symm
      obtain ⟨step, above⟩ := location forward
      rw [first] at step above
      have above := above (Nat.le_zero.mp step).symm
      rw [program] at within
      unfold Activation.permission at within
      by_cases after : pipeline.mutationIndex < activation.index
      · cases direction : activation.direction <;> simp only [direction] at above <;> omega
      · simp only [after, if_false] at within
        cases direction : activation.direction with
        | forward =>
            simp only [direction, ne_eq, Nat.le_zero] at step within above
            simp only [step, not_true_eq_false, if_false] at within
            split at within
            · omega
            · exact within.1.elim
        | backwards | error =>
            simp only [direction] at within
            exact within.1.elim

/-- While the request is not aborted, a context with the layer reaches a hook that
carries it on. -/
private theorem Activation.HandsOn.carries (standard : pipeline.Standard) {layer : LayerID}
    (hands : activation.HandsOn pipeline.plugins false context rest result)
    (within : activation.program.Within
      (activation.permission pipeline.mutationIndex layer))
    (carries : activation.Carries pipeline.mutationIndex layer) :
    (∃ error, result = .threw error) ∨ ∃ invoked, result = .invoked invoked ∧
      (invoked.direction = .forward ∨ invoked.direction = .backwards ∧
        (invoked.state.currentStep = 0 → pipeline.mutationIndex ≤ invoked.index)) := by
  have present : pipeline.plugins[pipeline.mutationIndex]?.bind (·.backwards 0) =
      mutation.backwards 0 := by rw [getElem_mutation standard]; rfl
  have inRange := mutationIndex_lt pipeline
  cases hands with
  | next program => exact stepForwardFrom_reaches inRange present
  | resolve program =>
      refine .inr ?_
      unfold Activation.Carries at carries
      unfold Activation.resolve
      dsimp only
      cases direction : activation.direction with
      | forward =>
          refine (stepBackwards_reaches inRange (fun last => ?_) present).imp fun invoked found =>
            ⟨found.1, .inr found.2⟩
          by_contra early
          dsimp only at early
          have notAfter : ¬ pipeline.mutationIndex < activation.index := by omega
          have before : activation.index ≠ pipeline.mutationIndex := by omega
          rw [program] at within
          simp only [Activation.permission, notAfter, direction, last, before, ne_eq,
            not_true_eq_false, if_false] at within
          exact within.1
      | backwards =>
          refine (stepBackwards_reaches inRange (fun last => ?_) present).imp fun invoked found =>
            ⟨found.1, .inr found.2⟩
          simp only [direction] at carries
          obtain ⟨bound, releases⟩ := carries.2 last
          refine Nat.lt_of_le_of_ne bound fun same => ?_
          have impossible := releases same.symm
          rw [program] at impossible
          exact impossible
      | error =>
          refine (stepBackwards_reaches inRange (fun last => ?_) present).imp fun invoked found =>
            ⟨found.1, .inr found.2⟩
          simp only [direction] at carries
          exact Nat.lt_succ_of_le carries.2.1

/-- The context that a hook hands on keeps the layer and the kind, if those after the
mutation plugin do. -/
private theorem Activation.HandsOn.handed {layer : LayerID}
    (hands : activation.HandsOn pipeline.plugins aborted context rest result)
    (within : activation.program.Within
      (activation.permission pipeline.mutationIndex layer))
    (kind : activation.state.context.artifactKind = .mutation) :
    (¬ pipeline.mutationIndex < activation.index → context.artifactKind = .mutation) ∧
      (¬ pipeline.mutationIndex < activation.index →
        activation.Carries pipeline.mutationIndex layer → context.layer = some layer) := by
  obtain ⟨_, allowed⟩ := hands.within within
  unfold Activation.permission at allowed
  unfold Activation.Carries
  by_cases after : pipeline.mutationIndex < activation.index
  · exact ⟨fun notAfter => absurd after notAfter, fun notAfter => absurd after notAfter⟩
  · simp only [after, if_false] at allowed
    cases direction : activation.direction with
    | forward =>
        simp only [direction] at allowed
        split at allowed
        · rename_i later
          have kept : context.layer = activation.state.context.layer ∧
              context.artifactKind = activation.state.context.artifactKind := by
            obtain next | resolve := allowed
            · exact next
            · exact resolve
          refine ⟨fun _ => kept.2.trans kind, fun _ carries => ?_⟩
          obtain ⟨first, _⟩ | held := carries
          · exact absurd first later
          · exact kept.1.trans held
        · split at allowed
          · obtain next | resolve := allowed
            · exact ⟨fun _ => next.2, fun _ _ => next.1⟩
            · exact resolve.elim
          · obtain next | resolve := allowed
            · exact next.elim
            · exact resolve.elim
    | backwards =>
        simp only [direction] at allowed
        obtain next | kept := allowed
        · exact next.elim
        · exact ⟨fun _ => kept.2.trans kind, fun _ carries => kept.1.trans carries.1⟩
    | error =>
        simp only [direction] at allowed
        obtain next | resolve := allowed
        · exact next.elim
        · exact resolve.elim

private theorem Activation.Carries.continue {layer : LayerID} {index : Nat}
    (carries : activation.Carries index layer)
    (releases : activation.program.Releases layer → rest.Releases layer) :
    (activation.continue rest).Carries index layer := by
  unfold Activation.Carries at carries ⊢
  cases direction : activation.direction with
  | forward =>
      simp only [direction] at carries
      simp only [Activation.continue, direction]
      exact carries
  | backwards =>
      simp only [direction] at carries
      simp only [Activation.continue, direction]
      exact ⟨carries.1, fun last =>
        ⟨(carries.2 last).1, fun same => releases ((carries.2 last).2 same)⟩⟩
  | error =>
      simp only [direction] at carries
      simp only [Activation.continue, direction]
      exact ⟨carries.1, carries.2.1, fun same => releases (carries.2.2 same)⟩

private theorem Activation.Carries.held {layer : LayerID} {index : Nat}
    (carries : activation.Carries index layer) (after : index < activation.index) :
    activation.state.context.layer = some layer := by
  unfold Activation.Carries at carries
  cases direction : activation.direction with
  | forward =>
      simp only [direction] at carries
      exact carries.resolve_left fun early => by omega
  | backwards | error =>
      simp only [direction] at carries
      exact carries.1

private theorem creates_eq_nil {permission : Permission} {program : HookProgram}
    (within : program.Within permission) (forbidden : ¬ permission.createLayer)
    (storage : InMemoryStorage) : program.creates storage = [] := by
  cases program with
  | createLayer rest => exact absurd within.1 forbidden
  | _ => rfl

private theorem Activation.permission_createLayer {index : Nat} {layer : LayerID}
    (inRange : activation.index ≤ index) :
    ¬ (activation.permission index layer).createLayer := by
  unfold Activation.permission
  rw [if_neg (Nat.not_lt.mpr inRange)]
  cases activation.direction with
  | forward =>
      dsimp only
      split
      · exact id
      · split <;> exact id
  | backwards | error => exact id

end Steps

namespace Send

variable {pipeline : Pipeline} {send next : Send} {event : Event} {layer : LayerID}

private theorem Late.pending (late : send.Late pipeline layer)
    (optimistic : send.storage.Optimistic layer) : send.Pending :=
  ⟨layer, by simp [late.layers], optimistic⟩

private theorem storage_kept (distinct : send.storage.DistinctLayers)
    (step : Step pipeline send event next) :
    send.storage.idCount ≤ next.storage.idCount ∧ next.storage.DistinctLayers ∧
      ∀ id < send.storage.idCount, next.storage.Optimistic id → send.storage.Optimistic id := by
  obtain same | step := step.storage_step
  · rw [same]
    exact ⟨Nat.le_refl _, distinct, fun _ _ => id⟩
  · have kept := distinct.headersKept step
    refine ⟨kept.count, kept.distinctLayers distinct, fun id old optimistic => ?_⟩
    exact (kept.optimistic id optimistic).resolve_right (Nat.ne_of_gt old)

private theorem Late.layers_step (late : send.Late pipeline layer)
    (step : Step pipeline send event next) : next.layers = [layer] := by
  obtain ⟨same, _⟩ | ⟨activation, member, own, created, _⟩ := step.recorded
  · rw [same, late.layers]
  · have nothing := creates_eq_nil (late.within activation member)
      (activation.permission_createLayer (Nat.le_of_eq own)) send.storage
    rw [created, nothing, late.layers]
    rfl

private theorem Late.kind_handed (late : send.Late pipeline layer)
    {activation : Activation} {context : ClientPluginContext} {rest : HookProgram}
    {result : StepResult} (careful : Careful pipeline send (.handedOn activation context))
    (member : activation ∈ send.active)
    (hands : activation.HandsOn pipeline.plugins send.aborted context rest result) :
    context.artifactKind = .mutation := by
  have kind := late.kind activation member
  by_cases after : pipeline.mutationIndex < activation.index
  · exact (careful.1 after).trans kind
  · exact (hands.handed (late.within activation member) kind).1 after

private theorem Late.kind_step (late : send.Late pipeline layer)
    (careful : Careful pipeline send event) (step : Step pipeline send event next)
    (activation : Activation) (member : activation ∈ next.active) :
    activation.state.context.artifactKind = .mutation := by
  cases step.origin member with
  | kept present => exact late.kind _ present
  | ran present | handedOn present | threw present =>
      have kind := late.kind _ present
      exact kind
  | invoked present hands =>
      rw [hands.invoked.2]
      exact late.kind_handed careful present hands
  | handles present program invokes =>
      obtain ⟨_, _, same, _⟩ := stepError_invoked invokes
      rw [same]
      exact late.kind _ present

private theorem Late.within_step (standard : pipeline.Standard) (late : send.Late pipeline layer)
    (careful : Careful pipeline send event) (step : Step pipeline send event next)
    (activation : Activation) (member : activation ∈ next.active) :
    activation.program.Within (activation.permission pipeline.mutationIndex layer) := by
  have kind := late.kind_step careful step activation member
  cases step.origin member with
  | kept present => exact late.within _ present
  | ran present step =>
      have within := step.within (late.within _ present)
      exact within
  | handedOn present hands => exact (hands.within (late.within _ present)).1
  | threw present hands => exact trivial
  | invoked present hands =>
      exact within_of_fresh standard hands.invoked.1 kind
        (hands.started (late.within _ present)) layer
  | handles present program invokes =>
      obtain ⟨fresh, direction, _⟩ := stepError_invoked invokes
      refine within_of_fresh standard fresh kind (fun forward => ?_) layer
      rw [direction] at forward
      cases forward

private theorem Late.carries (late : send.Late pipeline layer)
    (optimistic : send.storage.Optimistic layer) {activation : Activation}
    (member : activation ∈ send.active) (running : activation.program ≠ .finish) :
    activation.Carries pipeline.mutationIndex layer :=
  (late.carried optimistic activation member).resolve_left running

private theorem HandsOn.ne_finish {plugins : List ClientHooks} {activation : Activation}
    {context : ClientPluginContext} {rest : HookProgram} {result : StepResult} {aborted : Bool}
    (hands : activation.HandsOn plugins aborted context rest result) :
    activation.program ≠ .finish := by
  cases hands with
  | next program | resolve program => rw [program]; nofun

private theorem Late.fail_reaches (standard : pipeline.Standard) {activation : Activation}
    (error : JSError) (after : pipeline.mutationIndex < activation.index) :
    ∃ handler, activation.fail pipeline.plugins false error = .invoked handler ∧
      pipeline.mutationIndex ≤ handler.index := by
  have present : pipeline.plugins[pipeline.mutationIndex]?.bind (·.catch) = mutation.catch := by
    rw [getElem_mutation standard]
    rfl
  exact stepError_reaches after present

private theorem Late.unsettled_step (standard : pipeline.Standard)
    (late : send.Late pipeline layer) (careful : Careful pipeline send event)
    (step : Step pipeline send event next) (optimistic : send.storage.Optimistic layer) :
    next.settled = false := by
  have pending := late.pending optimistic
  cases settled : next.settled with
  | false => rfl
  | true =>
      obtain earlier | ⟨activation, member, context, rest, result, rfl, hands, ends⟩ |
        ⟨activation, member, error, rfl, program, ends⟩ := step.settled settled
      · rw [late.unsettled optimistic] at earlier
        cases earlier
      · obtain ⟨running, _⟩ := careful.2 pending
        rw [running] at hands
        have carries := late.carries optimistic member (HandsOn.ne_finish hands)
        obtain ⟨error, threw⟩ | ⟨invoked, success, _⟩ :=
          hands.carries standard (late.within _ member) carries
        · exact absurd threw ((ends activation).2 error)
        · exact absurd success (ends invoked).1
      · obtain ⟨running, after⟩ := careful pending
        obtain ⟨handler, success, _⟩ := Late.fail_reaches standard error after
        rw [running] at ends
        exact absurd success (ends handler)

private theorem Late.carried_step (standard : pipeline.Standard)
    (distinct : send.storage.DistinctLayers) (late : send.Late pipeline layer)
    (careful : Careful pipeline send event) (step : Step pipeline send event next)
    (optimistic : send.storage.Optimistic layer) (stays : next.storage.Optimistic layer)
    (activation : Activation) (member : activation ∈ next.active) :
    activation.program = .finish ∨ activation.Carries pipeline.mutationIndex layer := by
  have kind := late.kind_step careful step activation member
  have pending := late.pending optimistic
  cases step.origin member with
  | kept present => exact late.carried optimistic _ present
  | ran present step =>
      refine .inr (Activation.Carries.continue (late.carries optimistic present ?_) ?_)
      · intro finished
        rw [finished] at step
        cases step
      · intro releases
        refine (step.releases releases).resolve_right fun resolved => ?_
        rw [resolved] at stays
        exact distinct.not_optimistic_resolveLayer layer stays
  | handedOn present hands =>
      exact .inr (Activation.Carries.continue
        (late.carries optimistic present (HandsOn.ne_finish hands))
        fun releases => absurd releases hands.not_releases)
  | threw present hands =>
      exact .inr (Activation.Carries.continue
        (late.carries optimistic present (HandsOn.ne_finish hands)) fun _ => trivial)
  | @invoked _ handing _ context _ present hands =>
      obtain ⟨running, keeps⟩ := careful.2 pending
      rw [running] at hands
      have carries := late.carries optimistic present (HandsOn.ne_finish hands)
      have held : context.layer = some layer := by
        by_cases after : pipeline.mutationIndex < handing.index
        · exact (keeps after).trans (carries.held after)
        · exact (hands.handed (late.within _ present) (late.kind _ present)).2 after carries
      obtain ⟨error, threw⟩ | ⟨found, success, location⟩ :=
        hands.carries standard (late.within _ present) carries
      · cases threw
      · cases success
        rw [← hands.invoked.2] at held
        exact .inr (carries_of_fresh standard hands.invoked.1 kind held
          (location.imp id .inl))
  | @handles _ failing _ error present program invokes =>
      obtain ⟨running, after⟩ := careful pending
      rw [running] at invokes
      obtain ⟨fresh, direction, same, _⟩ := stepError_invoked invokes
      obtain ⟨handler, success, bound⟩ := Late.fail_reaches standard error after
      rw [invokes] at success
      cases success
      have carries := late.carries optimistic present (by rw [program]; nofun)
      refine .inr (carries_of_fresh standard fresh kind ?_ (.inr (.inr ⟨direction, bound⟩)))
      rw [same]
      exact carries.held after

private theorem Late.step (standard : pipeline.Standard)
    (distinct : send.storage.DistinctLayers) (late : send.Late pipeline layer)
    (careful : Careful pipeline send event) (step : Step pipeline send event next) :
    next.Late pipeline layer := by
  obtain ⟨count, _, older⟩ := storage_kept distinct step
  have earlier := older layer late.known
  exact
    { layers := late.layers_step step
      known := Nat.lt_of_lt_of_le late.known count
      kind := late.kind_step careful step
      within := late.within_step standard careful step
      unsettled := fun stays => late.unsettled_step standard careful step (earlier stays)
      carried := fun stays =>
        late.carried_step standard distinct careful step (earlier stays) stays }

end Send

private theorem stepForward_starts {pipeline : Pipeline} (standard : pipeline.Standard)
    (aborted : Bool) {state : IteratorState} {start : Nat} (first : state.currentStep = 0)
    (kind : state.context.artifactKind = .mutation) (bound : start ≤ pipeline.mutationIndex) :
    (∃ error, stepForward pipeline.plugins aborted state start = .rejected error) ∨
      ∃ activation, stepForward pipeline.plugins aborted state start = .invoked activation ∧
        activation.Starting pipeline.mutationIndex ∧
        activation.state.context.artifactKind = .mutation := by
  have present : pipeline.plugins[pipeline.mutationIndex]?.bind (·.forward 0) =
      mutation.forward 0 := by
    rw [getElem_mutation standard]
    rfl
  obtain ⟨index, inRange, handler, _, found, result⟩ :=
    @stepForwardFrom_le pipeline.plugins aborted state 2 0 start _ _ bound present
  unfold stepForward
  rw [first, result]
  cases aborted with
  | true =>
      exact .inl (stepError_rejected fun below under =>
        no_catch_before standard (Nat.lt_of_lt_of_le under inRange))
  | false =>
      refine .inr ⟨_, rfl, ⟨rfl, rfl, inRange, fun before => ?_, fun same => ?_⟩, kind⟩
      · obtain ⟨plugin, present, hook⟩ := Option.bind_eq_some_iff.mp found
        exact (plugin_before standard before present).start handler hook _ kind
      · have same : index = pipeline.mutationIndex := same
        rw [same, getElem_mutation standard] at found
        exact mutation_start found kind

private theorem perm_running {before after others : List Activation}
    {activation token : Activation}
    (perm : (before ++ activation :: after).Perm (token :: others))
    (idle : ∀ other ∈ others, other.program = .finish)
    (running : activation.program ≠ .finish) :
    activation = token ∧ (before ++ after).Perm others := by
  have member := perm.subset (List.mem_append_right before List.mem_cons_self)
  obtain same | other := List.mem_cons.mp member
  · rw [same] at perm
    exact ⟨same, (List.perm_middle.symm.trans perm).cons_inv⟩
  · exact absurd (idle activation other) running

private theorem HookProgram.Step.startsOnce {storage next : InMemoryStorage}
    {program rest : HookProgram} (step : HookProgram.Step storage program next rest)
    (starts : program.StartsOnce) : rest.StartsOnce ∧ next = storage := by
  cases step with
  | work => exact ⟨starts, rfl⟩
  | workFailed => exact ⟨trivial, rfl⟩
  | _ => exact starts.elim

namespace Send

variable {pipeline : Pipeline} {send next : Send} {event : Event} {layer : LayerID}

private theorem Early.token (early : send.Early pipeline) {before after : List Activation}
    {activation : Activation} (running : send.active = before ++ activation :: after)
    (unfinished : activation.program ≠ .finish) :
    send.settled = false ∧ activation.Starting pipeline.mutationIndex ∧
      ∀ other ∈ before ++ after, other.program = .finish := by
  obtain finished | ⟨unsettled, token, others, perm, starting, idle⟩ := early.active
  · exact absurd (finished activation (mem_running running)) unfinished
  · rw [running] at perm
    obtain ⟨rfl, rest⟩ := perm_running perm idle unfinished
    exact ⟨unsettled, starting, fun other member => idle other (rest.subset member)⟩

private theorem Early.run (early : send.Early pipeline) {before after : List Activation}
    {activation : Activation} {rest : HookProgram} {storage : InMemoryStorage}
    (running : send.active = before ++ activation :: after)
    (step : HookProgram.Step send.storage activation.program storage rest) :
    let next : Send :=
      { (send.record pipeline activation).proceed before after activation rest with storage }
    next.Early pipeline ∨ ∃ layer, next.Late pipeline layer := by
  obtain ⟨unsettled, starting, idle⟩ := early.token running (by
    intro finished
    rw [finished] at step
    cases step)
  have kind : ∀ other ∈ before ++ activation.continue rest :: after,
      other.state.context.artifactKind = .mutation := by
    intro other member
    obtain older | same := mem_replaced running member
    · exact early.kind other older
    · rw [same]
      exact early.kind activation (mem_running running)
  obtain atMutation | before_ := Nat.eq_or_lt_of_le starting.inRange
  · obtain ⟨create, program, within⟩ := starting.atMutation atMutation
    rw [program] at step
    cases step
    refine .inr ⟨send.storage.idCount, ?_⟩
    have located : ∀ other ∈ before ++
          activation.continue (create send.storage.idCount) :: after,
        other.program = .finish ∨ other = activation.continue (create send.storage.idCount) := by
      intro other member
      simp only [List.mem_append, List.mem_cons] at member idle
      obtain older | same | older := member
      · exact .inl (idle other (.inl older))
      · exact .inr same
      · exact .inl (idle other (.inr older))
    refine ⟨?_, Nat.lt_succ_self _, kind, ?_, ?_, ?_⟩
    · simp [proceed, record, atMutation, program, HookProgram.creates, early.layers,
        InMemoryStorage.createLayer]
    · intro other member
      obtain finished | same := located other member
      · rw [finished]
        exact trivial
      · rw [same]
        simp only [Activation.continue, Activation.permission, atMutation, starting.direction,
          starting.step, Nat.lt_irrefl, ne_eq, not_true_eq_false, if_false, if_true]
        exact within _
    · intro _
      simpa [proceed] using unsettled
    · intro _ other member
      refine (located other member).imp id fun same => ?_
      rw [same]
      simp only [Activation.Carries, Activation.continue, starting.direction]
      exact .inl ⟨starting.step, starting.inRange⟩
  · have starts := step.startsOnce (starting.before before_)
    have elsewhere := Nat.ne_of_lt before_
    refine .inl ⟨?_, kind, .inr ⟨?_, activation.continue rest, before ++ after, ?_, ?_, idle⟩⟩
    · simpa [proceed, record, elsewhere] using early.layers
    · simpa [proceed] using unsettled
    · exact List.perm_middle
    · exact ⟨starting.direction, starting.step, starting.inRange, fun _ => starts.1,
        fun same => absurd same elsewhere⟩

private theorem Starting.hands (standard : pipeline.Standard) {activation : Activation}
    {aborted : Bool} {context : ClientPluginContext} {rest : HookProgram} {result : StepResult}
    (starting : activation.Starting pipeline.mutationIndex)
    (hands : activation.HandsOn pipeline.plugins aborted context rest result) :
    rest = .finish ∧ ((∃ error, result = .rejected error) ∨
      ∃ invoked, result = .invoked invoked ∧ invoked.Starting pipeline.mutationIndex ∧
        invoked.state.context.artifactKind = .mutation) := by
  obtain atMutation | before := Nat.eq_or_lt_of_le starting.inRange
  · obtain ⟨create, program, _⟩ := starting.atMutation atMutation
    cases hands with
    | next called | resolve called => rw [program] at called; cases called
  · have starts := starting.before before
    cases hands with
    | resolve called => rw [called] at starts; exact starts.elim
    | next called =>
        rw [called] at starts
        refine ⟨starts.2, ?_⟩
        unfold Activation.next
        simp only [starting.direction]
        exact stepForward_starts standard aborted starting.step starts.1 before

private theorem Early.step (standard : pipeline.Standard) (early : send.Early pipeline)
    (step : Step pipeline send event next) :
    next.Early pipeline ∨ ∃ layer, next.Late pipeline layer := by
  cases step with
  | storage step => exact .inl ⟨early.layers, early.kind, early.active⟩
  | abort => exact .inl ⟨early.layers, early.kind, early.active⟩
  | run running step => exact early.run running step
  | @finish before after activation running program =>
      have fewer : ∀ other ∈ before ++ after, other ∈ send.active := by
        intro other member
        rw [running]
        simp only [List.mem_append, List.mem_cons] at member ⊢
        exact member.imp id .inr
      refine .inl ⟨early.layers, fun other member => early.kind other (fewer other member), ?_⟩
      obtain finished | ⟨unsettled, token, others, perm, starting, idle⟩ := early.active
      · exact .inl fun other member => finished other (fewer other member)
      · rw [running] at perm
        have perm := List.perm_middle.symm.trans perm
        obtain same | member := List.mem_cons.mp (perm.subset List.mem_cons_self)
        · rw [same] at perm
          exact .inl fun other member => idle other (perm.cons_inv.subset member)
        · obtain ⟨first, last, rfl⟩ := List.append_of_mem member
          refine .inr ⟨unsettled, token, first ++ last, ?_, starting, fun other present => ?_⟩
          · exact (perm.trans ((List.perm_middle.cons token).trans (.swap _ _ _))).cons_inv
          · refine idle other ?_
            simp only [List.mem_append, List.mem_cons] at present ⊢
            exact present.imp id .inr
  | @handOn before after activation context rest result running hands =>
      obtain ⟨unsettled, starting, idle⟩ := early.token running (HandsOn.ne_finish hands)
      have kept : ∀ other ∈ before ++ activation.continue rest :: after,
          other.state.context.artifactKind = .mutation := by
        intro other member
        obtain older | same := mem_replaced running member
        · exact early.kind other older
        · rw [same]
          exact early.kind activation (mem_running running)
      obtain ⟨finished, ends⟩ := Starting.hands standard starting hands
      have done : ∀ other ∈ before ++ activation.continue rest :: after,
          other.program = .finish := by
        intro other member
        simp only [List.mem_append, List.mem_cons] at member idle
        obtain older | same | older := member
        · exact idle other (.inl older)
        · rw [same]
          exact finished
        · exact idle other (.inr older)
      obtain ⟨error, rfl⟩ | ⟨invoked, rfl, starts, kind⟩ := ends
      · exact .inl ⟨early.layers, kept, .inl done⟩
      · refine .inl ⟨early.layers, ?_, .inr ⟨unsettled, invoked, _, .refl _, starts, done⟩⟩
        intro other member
        obtain same | older := List.mem_cons.mp member
        · rw [same]
          exact kind
        · exact kept other older
  | handOnThrew running hands throws =>
      obtain ⟨_, starting, _⟩ := early.token running (HandsOn.ne_finish hands)
      obtain ⟨_, ⟨error, rfl⟩ | ⟨invoked, rfl, _⟩⟩ := Starting.hands standard starting hands
      · exact throws.elim
      · exact throws.elim
  | @fail before after activation error running program =>
      obtain ⟨unsettled, starting, idle⟩ := early.token running (by
        rw [program]
        intro same
        cases same)
      have rejected : ∃ thrown,
          activation.fail pipeline.plugins send.aborted error = .rejected thrown :=
        stepError_rejected fun index below =>
          no_catch_before standard (Nat.lt_of_lt_of_le below starting.inRange)
      obtain ⟨thrown, rejected⟩ := rejected
      rw [rejected]
      refine .inl ⟨early.layers, fun other member => ?_, .inl idle⟩
      refine early.kind other ?_
      rw [running]
      simp only [apply, List.mem_append, List.mem_cons] at member ⊢
      exact member.imp id .inr

private theorem sound_start (standard : pipeline.Standard) {storage : InMemoryStorage}
    (distinct : storage.DistinctLayers) (aborted : Bool) {state : IteratorState}
    (kind : state.context.artifactKind = .mutation) :
    (start pipeline storage aborted state).Sound pipeline := by
  have starts := @stepForward_starts pipeline standard aborted { state with currentStep := 0 } 0
    rfl kind (Nat.zero_le _)
  unfold start
  obtain ⟨error, rejected⟩ | ⟨invoked, success, starting, kind⟩ := starts
  · simp only [rejected, apply]
    exact ⟨distinct, .inl ⟨rfl, nofun, .inl nofun⟩⟩
  · simp only [success, apply]
    refine ⟨distinct, .inl ⟨rfl, ?_, .inr ⟨rfl, invoked, [], .refl _, starting, nofun⟩⟩⟩
    intro activation member
    rw [List.mem_singleton.mp member]
    exact kind

private theorem Sound.step (standard : pipeline.Standard) (sound : send.Sound pipeline)
    (careful : Careful pipeline send event) (step : Step pipeline send event next) :
    next.Sound pipeline := by
  obtain ⟨_, distinct, _⟩ := storage_kept sound.distinct step
  refine ⟨distinct, ?_⟩
  obtain early | ⟨layer, late⟩ := sound.phase
  · exact early.step standard step
  · exact .inr ⟨layer, late.step standard sound.distinct careful step⟩

private theorem Sound.run (standard : pipeline.Standard) {first : Send}
    (sound : first.Sound pipeline) (run : Run pipeline (Careful pipeline) first send) :
    send.Sound pipeline := by
  induction run with
  | start => exact sound
  | step _ careful step ih => exact ih.step standard careful step

private theorem Sound.released (sound : send.Sound pipeline) (settled : send.settled = true) :
    ∀ id ∈ send.layers, ¬ send.storage.Optimistic id := by
  intro id member optimistic
  obtain early | ⟨layer, late⟩ := sound.phase
  · rw [early.layers] at member
    cases member
  · rw [late.layers, List.mem_singleton] at member
    rw [member] at optimistic
    rw [late.unsettled optimistic] at settled
    cases settled

end Send

def Activation.SawFailure (activation : Activation) : Prop :=
  match activation.direction with
  | .forward => False
  | .backwards => ∃ value, activation.value = some value ∧ value.errors ≠ []
  | .error => True

private theorem clearsFirst_of_fresh {pipeline : Pipeline} (standard : pipeline.Standard)
    {activation : Activation} (fresh : activation.Fresh pipeline.plugins)
    (own : activation.index = pipeline.mutationIndex) (failure : activation.SawFailure) :
    activation.program.ClearsFirst activation.cleared := by
  unfold Activation.Fresh at fresh
  unfold Activation.SawFailure at failure
  cases direction : activation.direction with
  | forward =>
      simp only [direction] at failure
  | backwards =>
      simp only [direction] at fresh failure
      obtain ⟨handler, found, program⟩ := fresh
      obtain ⟨value, held, errors⟩ := failure
      rw [own, getElem_mutation standard] at found
      rw [program, held]
      obtain ending | after := ClientHooks.backwards_cases found
      · cases ending
        dsimp only
        split
        · exact trivial
        · unfold Mutation.end
          cases activation.state.context.layer with
          | none => exact trivial
          | some layer =>
              simp only [if_pos errors]
              exact ⟨List.mem_cons_self, trivial⟩
      · cases after
        dsimp only
        split
        · exact trivial
        · unfold Mutation.afterNetwork
          cases activation.state.context.layer <;> exact trivial
  | error =>
      simp only [direction] at fresh
      obtain ⟨handler, error, found, program⟩ := fresh
      rw [own, getElem_mutation standard] at found
      rw [program]
      cases found
      unfold Mutation.catch
      cases activation.state.context.layer with
      | none => exact trivial
      | some layer => exact ⟨List.mem_cons_self, trivial⟩

namespace Send

variable {pipeline : Pipeline} {send next : Send} {event : Event}

structure ClearsFailures (pipeline : Pipeline) (send : Send) : Prop where
  active : ∀ activation ∈ send.active, activation.index = pipeline.mutationIndex →
    activation.SawFailure → activation.program.ClearsFirst activation.cleared
  resolved : ∀ release ∈ send.resolved, release.2.SawFailure → release.1 ∈ release.2.cleared

private theorem ClearsFailures.step (standard : pipeline.Standard)
    (clears : send.ClearsFailures pipeline) (step : Step pipeline send event next) :
    next.ClearsFailures pipeline := by
  constructor
  · intro activation member own failure
    cases step.origin member with
    | kept present => exact clears.active _ present own failure
    | ran present step =>
        have kept := step.clearsFirst (clears.active _ present own failure)
        exact kept
    | handedOn present hands =>
        have kept := hands.clearsFirst (clears.active _ present own failure)
        exact kept
    | threw present hands => exact trivial
    | invoked present hands => exact clearsFirst_of_fresh standard hands.invoked.1 own failure
    | handles present program invokes =>
        exact clearsFirst_of_fresh standard (stepError_invoked invokes).1 own failure
  · intro release member failure
    obtain ⟨_, same⟩ | ⟨activation, present, own, _, recorded⟩ := step.recorded
    · rw [same] at member
      exact clears.resolved release member failure
    · rw [recorded] at member
      obtain newest | older := List.mem_append.mp member
      · obtain ⟨id, resolves, rfl⟩ := List.mem_map.mp newest
        have first := clears.active activation present own failure
        cases program : activation.program with
        | resolveLayer layer rest =>
            rw [program] at first resolves
            rw [List.mem_singleton.mp resolves]
            exact first.1
        | _ => rw [program] at resolves; cases resolves
      · exact clears.resolved release older failure

private theorem ClearsFailures.run (standard : pipeline.Standard) {first : Send}
    {permitted : Send → Event → Prop} (clears : first.ClearsFailures pipeline)
    (run : Run pipeline permitted first send) : send.ClearsFailures pipeline := by
  induction run with
  | start => exact clears
  | step _ _ step ih => exact ih.step standard step

private theorem clearsFailures_start (standard : pipeline.Standard) (storage : InMemoryStorage)
    (aborted : Bool) {state : IteratorState} (kind : state.context.artifactKind = .mutation) :
    (start pipeline storage aborted state).ClearsFailures pipeline := by
  have starts := @stepForward_starts pipeline standard aborted { state with currentStep := 0 } 0
    rfl kind (Nat.zero_le _)
  unfold start
  obtain ⟨error, rejected⟩ | ⟨invoked, success, starting, _⟩ := starts
  · simp only [rejected, apply]
    exact ⟨nofun, nofun⟩
  · simp only [success, apply]
    refine ⟨?_, nofun⟩
    intro activation member _ failure
    rw [List.mem_singleton.mp member] at failure
    unfold Activation.SawFailure at failure
    simp only [starting.direction] at failure

/-- The condition under which a mutation of the standard pipeline releases its layer: in
every run of careful steps, once the send has settled the layer is not optimistic any
more. A hook that saw the mutation fail resolves only what it cleared. -/
theorem standardPipeline_released (options : ClientOptions) {storage : InMemoryStorage}
    (reachable : storage.Reachable) (aborted : Bool) {state : IteratorState}
    (kind : state.context.artifactKind = .mutation)
    (run : Run (standardPipeline options) (Careful (standardPipeline options))
      (start (standardPipeline options) storage aborted state) send)
    (settled : send.settled = true) :
    (∀ id ∈ send.layers, ¬ send.storage.Optimistic id) ∧
      ∀ release ∈ send.resolved, release.2.SawFailure → release.1 ∈ release.2.cleared := by
  have standard := standardPipeline_standard options
  have sound := (sound_start standard reachable.distinctLayers aborted kind).run standard run
  have clears := (clearsFailures_start standard storage aborted kind).run standard run
  exact ⟨sound.released settled, clears.resolved⟩

instance (storage : InMemoryStorage) (id : LayerID) : Decidable (storage.Optimistic id) :=
  inferInstanceAs (Decidable (_ ∈ _))

instance (send : Send) : Decidable send.Pending :=
  inferInstanceAs (Decidable (∃ id ∈ send.layers, send.storage.Optimistic id))

instance (pipeline : Pipeline) (send : Send) : DecidablePred (Careful pipeline send)
  | .other => .isTrue trivial
  | .handedOn _ _ => inferInstanceAs (Decidable (_ ∧ _))
  | .failed _ => inferInstanceAs (Decidable (_ → _))

def plainClient : ClientOptions where
  readCache ctx := .next ctx .finish
  queryStart ctx := .next ctx .finish
  queryEnd ctx _ := .resolve ctx none .finish
  fragmentStart ctx := .next ctx .finish

def sentMutation : Send :=
  start (standardPipeline plainClient) {} false { context := { artifactKind := .mutation } }

def untilRequest : List Move :=
  [.run, .handOn, .run, .handOn, .handOn, .run, .handOn, .handOn, .run, .handOn, .run, .handOn]

def refused : List Move :=
  [.run, .respond { errors := ["refused"] }, .handOn, .run, .handOn, .run, .handOn, .run,
    .respond {}, .handOn, .run, .run, .handOn, .handOn, .run, .handOn, .handOn]

/-- A mutation that the server refuses settles after its layer was cleared and resolved. -/
theorem standardPipeline_released_refused :
    ∃ send : Send, send.layers = [1] ∧ send.resolved.map Prod.fst = [1] ∧
      (∀ id ∈ send.layers, ¬ send.storage.Optimistic id) ∧
      ∀ release ∈ send.resolved, release.2.SawFailure → release.1 ∈ release.2.cleared := by
  have replayed : (replay (standardPipeline plainClient) (Careful (standardPipeline plainClient))
      (untilRequest ++ refused) sentMutation).any (fun send =>
        send.settled && send.layers == [1] && send.resolved.map Prod.fst == [1]) = true := by
    decide
  obtain ⟨send, success, facts⟩ := (Option.any_eq_true _ _).mp replayed
  simp only [Bool.and_eq_true, beq_iff_eq] at facts
  obtain ⟨⟨settled, layers⟩, resolved⟩ := facts
  exact ⟨send, layers, resolved,
    standardPipeline_released plainClient .refl false rfl (replay_run .start success) settled⟩

/-- An abort during the request: the promise rejects without the mutation plugin
hearing of it, and the layer stays. -/
theorem standardPipeline_leaks_aborted :
    ∃ send : Send, Run (standardPipeline plainClient) (fun _ _ => True) sentMutation send ∧
      send.settled = true ∧ ∃ id ∈ send.layers, send.storage.Optimistic id := by
  have replayed : (replay (standardPipeline plainClient) (fun _ _ => True)
      (untilRequest ++ [.abort, .workFailed abortError, .fail]) sentMutation).any (fun send =>
        send.settled && decide send.Pending) = true := by
    decide
  obtain ⟨send, success, facts⟩ := (Option.any_eq_true _ _).mp replayed
  simp only [Bool.and_eq_true, decide_eq_true_eq] at facts
  exact ⟨send, replay_run .start success, facts⟩

end Send

end Houdini.Runtime.Client
