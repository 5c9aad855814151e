import Houdini.Runtime.Cache.StorageRuns

/-! The plugin pipeline of a document store. `#step` looks for the next hook in one
direction, and hooks run interleaved: a hook hands on by calling `next` or
`resolve`, as often as it wants and also after it was awaited. -/

set_option autoImplicit false

namespace Houdini.Runtime.Client

open Cache (InMemoryStorage LayerID)

inductive ArtifactKind where
  | query
  | mutation
  | fragment
  | subscription
  deriving DecidableEq, Repr

structure ClientPluginContext where
  artifactKind : ArtifactKind
  /-- `cacheParams?.layer` -/
  layer : Option LayerID := none
  /-- `stuff.optimisticResponse` is set. -/
  optimisticResponse : Bool := false
  deriving DecidableEq, Repr

structure QueryResult where
  data : GraphQLValue := .null
  errors : List String := []

/-- What a hook does, call by call. `work` stands for everything else: it can fail,
and other code can run before the hook goes on. `respond` waits for a result
from outside. -/
inductive HookProgram where
  | finish
  | throw (error : JSError)
  | next (context : ClientPluginContext) (rest : HookProgram)
  | resolve (context : ClientPluginContext) (value : Option QueryResult) (rest : HookProgram)
  | createLayer (rest : LayerID → HookProgram)
  | clearLayer (id : LayerID) (rest : HookProgram)
  | resolveLayer (id : LayerID) (rest : HookProgram)
  | work (rest : HookProgram)
  | respond (rest : QueryResult → HookProgram)

abbrev ClientPluginEnterPhase := ClientPluginContext → HookProgram

/-- The value of an exit phase is missing when a hook resolved without one. -/
abbrev ClientPluginExitPhase := ClientPluginContext → Option QueryResult → HookProgram

abbrev ClientPluginErrorPhase := ClientPluginContext → JSError → HookProgram

structure ClientHooks where
  start : Option ClientPluginEnterPhase := none
  beforeNetwork : Option ClientPluginEnterPhase := none
  network : Option ClientPluginEnterPhase := none
  afterNetwork : Option ClientPluginExitPhase := none
  «end» : Option ClientPluginExitPhase := none
  «catch» : Option ClientPluginErrorPhase := none

namespace ClientHooks

def forward (hooks : ClientHooks) : Nat → Option ClientPluginEnterPhase
  | 0 => hooks.start
  | 1 => hooks.beforeNetwork
  | 2 => hooks.network
  | _ => none

def backwards (hooks : ClientHooks) : Nat → Option ClientPluginExitPhase
  | 0 => hooks.end
  | 1 => hooks.afterNetwork
  | _ => none

end ClientHooks

inductive Direction where
  | forward
  | backwards
  | error
  deriving DecidableEq, Repr

structure IteratorState where
  context : ClientPluginContext
  currentStep : Nat := 0
  setup : Bool := false
  /-- The value of a setup cycle: the initial state, or else the store's state. -/
  initialState : QueryResult := {}

/-- A hook that was invoked, and what it has left to do. `cleared` remembers the
layers that it cleared so far. -/
structure Activation where
  direction : Direction
  index : Nat
  state : IteratorState
  value : Option QueryResult := none
  program : HookProgram
  cleared : List LayerID := []

inductive StepResult where
  | invoked (activation : Activation)
  | resolved (value : Option QueryResult)
  | rejected (error : JSError)
  | threw (error : JSError)

/-- The call can throw: there is no phase left, or a listener of the store does. -/
def StepResult.Throws : StepResult → JSError → Prop
  | .threw error, thrown => error = thrown
  | .resolved _, _ => True
  | .invoked _, _ | .rejected _, _ => False

def abortError : JSError := .error "aborted"

def findUp {Hook : Type} (hook : ClientHooks → Option Hook) :
    (index : Nat) → List ClientHooks → Option (Nat × Hook)
  | _, [] => none
  | index, plugin :: rest =>
      match hook plugin with
      | some found => some (index, found)
      | none => findUp hook (index + 1) rest

def findDown {Hook : Type} (plugins : List ClientHooks) (hook : ClientHooks → Option Hook) :
    Nat → Option (Nat × Hook)
  | 0 => none
  | index + 1 =>
      match plugins[index]?.bind hook with
      | some found => some (index, found)
      | none => findDown plugins hook index

/-- `#step('error')` for the plugins below an index. Once the request is aborted
no handler is invoked any more. -/
def stepError (plugins : List ClientHooks) (aborted : Bool) (state : IteratorState)
    (error : JSError) : Nat → StepResult
  | 0 => .rejected error
  | index + 1 =>
      match plugins[index]?.bind (·.catch) with
      | none => stepError plugins aborted state error index
      | some handler =>
          if aborted then stepError plugins aborted state abortError index
          else .invoked { direction := .error, index, state, program := handler state.context error }

def stepBackwards (plugins : List ClientHooks) (aborted : Bool) (state : IteratorState)
    (value : Option QueryResult) : (currentStep index : Nat) → StepResult
  | currentStep, below =>
      match findDown plugins (·.backwards currentStep) below with
      | some (index, handler) =>
          let state := { state with currentStep }
          if aborted then stepError plugins aborted state abortError index
          else .invoked { direction := .backwards, index, state, value,
                          program := handler state.context value }
      | none =>
          match currentStep with
          | 0 => .resolved value
          | previous + 1 =>
              stepBackwards plugins aborted state value previous plugins.length

def stepForwardFrom (plugins : List ClientHooks) (aborted : Bool) (state : IteratorState) :
    (remaining currentStep start : Nat) → StepResult
  | 0, _, _ => .threw (.error ("Called next() on last possible plugin. " ++
      "Your chain is missing a plugin that calls resolve()."))
  | remaining + 1, currentStep, start =>
      match findUp (·.forward currentStep) start (plugins.drop start) with
      | some (index, handler) =>
          let state := { state with currentStep }
          if aborted then stepError plugins aborted state abortError index
          else .invoked { direction := .forward, index, state, program := handler state.context }
      | none =>
          if state.setup then
            stepBackwards plugins aborted state (some state.initialState) 0 (plugins.length + 1)
          else stepForwardFrom plugins aborted state remaining (currentStep + 1) 0

def stepForward (plugins : List ClientHooks) (aborted : Bool) (state : IteratorState)
    (start : Nat) : StepResult :=
  stepForwardFrom plugins aborted state (3 - state.currentStep) state.currentStep start

namespace Activation

def next (activation : Activation) (plugins : List ClientHooks) (aborted : Bool)
    (context : ClientPluginContext) : StepResult :=
  let start :=
    match activation.direction with
    | .forward | .error => activation.index + 1
    | .backwards => activation.index
  let currentStep :=
    match activation.direction with
    | .forward => activation.state.currentStep
    | .backwards | .error => 0
  stepForward plugins aborted { activation.state with context, currentStep } start

/-- The handler `resolve`. In an exit phase a missing value means the current one. -/
def resolve (activation : Activation) (plugins : List ClientHooks) (aborted : Bool)
    (context : ClientPluginContext) (value : Option QueryResult) : StepResult :=
  let below :=
    match activation.direction with
    | .backwards => activation.index
    | .forward | .error => activation.index + 1
  let value :=
    match activation.direction with
    | .backwards => value.or activation.value
    | .forward | .error => value
  stepBackwards plugins aborted { activation.state with context } value
    activation.state.currentStep below

def fail (activation : Activation) (plugins : List ClientHooks) (aborted : Bool)
    (error : JSError) : StepResult :=
  stepError plugins aborted activation.state error activation.index

end Activation

structure Pipeline where
  before : List ClientHooks
  mutation : ClientHooks
  after : List ClientHooks

namespace Pipeline

def plugins (pipeline : Pipeline) : List ClientHooks :=
  pipeline.before ++ pipeline.mutation :: pipeline.after

def mutationIndex (pipeline : Pipeline) : Nat := pipeline.before.length

end Pipeline

inductive HookProgram.Step :
    InMemoryStorage → HookProgram → InMemoryStorage → HookProgram → Prop where
  | work (storage : InMemoryStorage) (rest : HookProgram) :
      Step storage (.work rest) storage rest
  | workFailed (storage : InMemoryStorage) (rest : HookProgram) (error : JSError) :
      Step storage (.work rest) storage (.throw error)
  | respond (storage : InMemoryStorage) (rest : QueryResult → HookProgram)
      (value : QueryResult) : Step storage (.respond rest) storage (rest value)
  | createLayer (storage : InMemoryStorage) (rest : LayerID → HookProgram) :
      Step storage (.createLayer rest) (storage.createLayer true).2
        (rest (storage.createLayer true).1.id)
  | clearLayer {storage : InMemoryStorage} {id : LayerID} {layer : Cache.Layer}
      (rest : HookProgram) (known : storage.getLayer id = .ok layer) :
      Step storage (.clearLayer id rest) (storage.setLayer layer.clear) rest
  /-- The layer is unknown, or a subscriber that is notified throws. -/
  | clearLayerFailed (storage : InMemoryStorage) (id : LayerID) (rest : HookProgram)
      (error : JSError) : Step storage (.clearLayer id rest) storage (.throw error)
  | resolveLayer {storage next : InMemoryStorage} {id : LayerID} (rest : HookProgram)
      (success : storage.resolveLayer id = .ok () next) :
      Step storage (.resolveLayer id rest) next rest
  | resolveLayerFailed {storage next : InMemoryStorage} {id : LayerID} {error : JSError}
      (rest : HookProgram) (failure : storage.resolveLayer id = .error error next) :
      Step storage (.resolveLayer id rest) next (.throw error)

namespace HookProgram

def creates (storage : InMemoryStorage) : HookProgram → List LayerID
  | .createLayer _ => [(storage.createLayer true).1.id]
  | _ => []

def clears : HookProgram → List LayerID
  | .clearLayer id _ => [id]
  | _ => []

def resolves : HookProgram → List LayerID
  | .resolveLayer id _ => [id]
  | _ => []

end HookProgram

def Activation.continue (activation : Activation) (rest : HookProgram) : Activation :=
  { activation with
    program := rest
    cleared := activation.program.clears ++ activation.cleared }

/-- The hook hands a context on, has a program left, and the call comes to a result. -/
inductive Activation.HandsOn (activation : Activation) (plugins : List ClientHooks)
    (aborted : Bool) : ClientPluginContext → HookProgram → StepResult → Prop where
  | next {context : ClientPluginContext} {rest : HookProgram}
      (program : activation.program = .next context rest) :
      HandsOn activation plugins aborted context rest (activation.next plugins aborted context)
  | resolve {context : ClientPluginContext} {value : Option QueryResult} {rest : HookProgram}
      (program : activation.program = .resolve context value rest) :
      HandsOn activation plugins aborted context rest
        (activation.resolve plugins aborted context value)

/-- A document that was sent. `layers` remembers the layers that the mutation
plugin created for it, and `resolved` those it resolved, with the hook that did. -/
structure Send where
  storage : InMemoryStorage
  aborted : Bool := false
  settled : Bool := false
  active : List Activation := []
  layers : List LayerID := []
  resolved : List (LayerID × Activation) := []

namespace Send

def apply (send : Send) : StepResult → Send
  | .invoked activation => { send with active := activation :: send.active }
  | .resolved _ | .rejected _ => { send with settled := true }
  | .threw _ => send

def start (pipeline : Pipeline) (storage : InMemoryStorage) (aborted : Bool)
    (state : IteratorState) : Send :=
  let state := { state with currentStep := 0 }
  let send : Send := { storage, aborted }
  match stepForward pipeline.plugins aborted state 0 with
  | .threw _ => { send with settled := true }
  | result => send.apply result

def proceed (send : Send) (before after : List Activation) (activation : Activation)
    (rest : HookProgram) : Send :=
  { send with active := before ++ activation.continue rest :: after }

def record (send : Send) (pipeline : Pipeline) (activation : Activation) : Send :=
  if activation.index = pipeline.mutationIndex then
    { send with
      layers := activation.program.creates send.storage ++ send.layers
      resolved := activation.program.resolves.map (·, activation) ++ send.resolved }
  else send

end Send

/-- Why the state of a send changes. -/
inductive Event where
  | other
  | handedOn (activation : Activation) (context : ClientPluginContext)
  | failed (activation : Activation)

/-- One change of a document that was sent. Other code can change the storage, and
the request can be aborted, at any time. -/
inductive Send.Step (pipeline : Pipeline) : Send → Event → Send → Prop where
  | storage {send : Send} {storage : InMemoryStorage} (step : send.storage.Step storage) :
      Step pipeline send .other { send with storage }
  | abort (send : Send) : Step pipeline send .other { send with aborted := true }
  | finish {send : Send} {before after : List Activation} {activation : Activation}
      (running : send.active = before ++ activation :: after)
      (program : activation.program = .finish) :
      Step pipeline send .other { send with active := before ++ after }
  | run {send : Send} {before after : List Activation} {activation : Activation}
      {rest : HookProgram} {storage : InMemoryStorage}
      (running : send.active = before ++ activation :: after)
      (step : HookProgram.Step send.storage activation.program storage rest) :
      Step pipeline send .other
        { (send.record pipeline activation).proceed before after activation rest with storage }
  | handOn {send : Send} {before after : List Activation} {activation : Activation}
      {context : ClientPluginContext} {rest : HookProgram} {result : StepResult}
      (running : send.active = before ++ activation :: after)
      (hands : activation.HandsOn pipeline.plugins send.aborted context rest result) :
      Step pipeline send (.handedOn activation context)
        ((send.proceed before after activation rest).apply result)
  | handOnThrew {send : Send} {before after : List Activation} {activation : Activation}
      {context : ClientPluginContext} {rest : HookProgram} {result : StepResult}
      {error : JSError} (running : send.active = before ++ activation :: after)
      (hands : activation.HandsOn pipeline.plugins send.aborted context rest result)
      (throws : result.Throws error) :
      Step pipeline send .other (send.proceed before after activation (.throw error))
  | fail {send : Send} {before after : List Activation} {activation : Activation}
      {error : JSError} (running : send.active = before ++ activation :: after)
      (program : activation.program = .throw error) :
      Step pipeline send (.failed activation)
        ({ send with active := before ++ after }.apply
          (activation.fail pipeline.plugins send.aborted error))

/-- The states that a send goes through, with why each is reached. -/
inductive Send.Run (pipeline : Pipeline) (permitted : Send → Event → Prop) (first : Send) :
    Send → Prop where
  | start : Run pipeline permitted first first
  | step {send next : Send} {event : Event} (run : Run pipeline permitted first send)
      (condition : permitted send event) (step : Send.Step pipeline send event next) :
      Run pipeline permitted first next

/-- A step of the hook that was invoked last, or an abort. -/
inductive Move where
  | abort
  | finish
  | run
  | workFailed (error : JSError)
  | respond (value : QueryResult)
  | handOn
  | fail

namespace Send

def call (storage : InMemoryStorage) : HookProgram → Move → Option (InMemoryStorage × HookProgram)
  | .work rest, .run => some (storage, rest)
  | .work _, .workFailed error => some (storage, .throw error)
  | .respond rest, .respond value => some (storage, rest value)
  | .createLayer rest, .run =>
      some ((storage.createLayer true).2, rest (storage.createLayer true).1.id)
  | .clearLayer id rest, .run =>
      match storage.getLayer id with
      | .ok layer => some (storage.setLayer layer.clear, rest)
      | .error error => some (storage, .throw error)
  | .resolveLayer id rest, .run =>
      match storage.resolveLayer id with
      | .ok () next => some (next, rest)
      | .error error next => some (next, .throw error)
  | _, _ => none

def move (pipeline : Pipeline) (send : Send) : Move → Option (Event × Send)
  | .abort => some (.other, { send with aborted := true })
  | move =>
      match send.active with
      | [] => none
      | activation :: after =>
          match move, activation.program with
          | .finish, .finish => some (.other, { send with active := after })
          | .handOn, .next context rest =>
              some (.handedOn activation context,
                (send.proceed [] after activation rest).apply
                  (activation.next pipeline.plugins send.aborted context))
          | .handOn, .resolve context value rest =>
              some (.handedOn activation context,
                (send.proceed [] after activation rest).apply
                  (activation.resolve pipeline.plugins send.aborted context value))
          | .fail, .throw error =>
              some (.failed activation, { send with active := after }.apply
                (activation.fail pipeline.plugins send.aborted error))
          | move, program =>
              (call send.storage program move).map fun (storage, rest) =>
                (.other, { (send.record pipeline activation).proceed [] after activation rest with
                  storage })

def replay (pipeline : Pipeline) (permitted : Send → Event → Prop)
    [∀ send event, Decidable (permitted send event)] : List Move → Send → Option Send
  | [], send => some send
  | move :: rest, send =>
      match send.move pipeline move with
      | none => none
      | some (event, next) =>
          if permitted send event then replay pipeline permitted rest next else none

end Send

end Houdini.Runtime.Client
