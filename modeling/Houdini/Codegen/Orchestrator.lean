import Houdini.Data.OrderedMap

/-! The orchestrator talks to plugins in other processes: over a websocket that is opened when it is
first needed, or over stdin and stdout. Both share one table of pending requests. -/

set_option autoImplicit false

namespace Houdini.Codegen

inductive Transport where
  | websocket
  | stdio
  deriving DecidableEq, Repr

structure Plugin where
  configName : String
  dbKey : String
  name : String
  wasm : Bool
  deriving DecidableEq, Repr

structure Setup where
  useStdio : Bool
  plugins : List Plugin

namespace Setup

def transport (setup : Setup) (plugin : Plugin) : Transport :=
  if setup.useStdio || plugin.wasm then .stdio else .websocket

def requestTransport (setup : Setup) : Transport :=
  if setup.useStdio then .stdio else .websocket

def find? (setup : Setup) (name : String) : Option Plugin :=
  setup.plugins.find? fun plugin => plugin.name = name

end Setup

inductive ReadyState where
  | connecting
  | «open»
  | closing
  | closed
  deriving DecidableEq, Repr

structure Connection where
  plugin : String
  readyState : ReadyState
  deriving DecidableEq, Repr

/-- A call of `invoke_hook`. A request gets the next number once its plugin is known. -/
structure Call where
  plugin : String
  hook : String
  messageId : Option Nat
  deriving DecidableEq, Repr

structure PendingRequest where
  call : Nat
  hook : String
  plugin : String
  deriving DecidableEq, Repr

/-- A call that waits for a connection. It goes on some time after the connection has opened. -/
structure WaitingCall where
  call : Nat
  messageId : Nat
  hook : String
  plugin : String
  connection : Nat
  opened : Bool
  deriving DecidableEq, Repr

inductive MessageType where
  | result
  | responseError
  | error
  | other
  deriving DecidableEq, Repr

/-- What a promise of `invoke_hook` is settled with. -/
inductive Outcome where
  | message (plugin : String) (messageId : Nat) (type : MessageType)
  | unknownPlugin
  | noChannel
  | connectionFailed
  | timedOut
  | exited
  | closed
  deriving DecidableEq, Repr

structure SentRequest where
  messageId : Nat
  plugin : String
  transport : Transport
  deriving DecidableEq, Repr

structure Orchestrator where
  messageCounter : Nat := 0
  pendingRequests : OrderedMap Nat PendingRequest := ∅
  wsConnections : OrderedMap String Nat := ∅
  stdioStdin : List String := []
  connections : List Connection := []
  waiting : List WaitingCall := []
  calls : List Call := []
  /-- Every time that a promise was settled. -/
  settled : List (Nat × Outcome) := []
  sent : List SentRequest := []
  closed : Bool := false

namespace Orchestrator

def start (setup : Setup) : Orchestrator where
  stdioStdin := (setup.plugins.filter fun plugin => setup.transport plugin = .stdio).map Plugin.dbKey

def settle (state : Orchestrator) (call : Nat) (outcome : Outcome) : Orchestrator :=
  { state with settled := state.settled ++ [(call, outcome)] }

def send (state : Orchestrator) (transport : Transport) (call messageId : Nat)
    (hook plugin : String) : Orchestrator :=
  { state with
    pendingRequests := state.pendingRequests.set messageId { call, hook, plugin }
    sent := state.sent ++ [{ messageId, plugin, transport }] }

def openConnection? (state : Orchestrator) (plugin : String) : Option Nat :=
  (state.wsConnections.get? plugin).filter fun connection =>
    (state.connections[connection]?.map (·.readyState)) = some .open

/-- `getOrCreateWS`, up to the point where it has to wait. -/
def awaitWS (state : Orchestrator) (call messageId : Nat) (hook plugin : String) : Orchestrator :=
  match state.openConnection? plugin with
  | some connection =>
      { state with
        waiting := state.waiting ++
          [{ call, messageId, hook, plugin, connection, opened := true }] }
  | none =>
      { state with
        connections := state.connections ++ [{ plugin, readyState := .connecting }]
        waiting := state.waiting ++
          [{ call, messageId, hook, plugin, connection := state.connections.length
             opened := false }] }

def record (state : Orchestrator) (plugin hook : String) (messageId : Option Nat) :
    Orchestrator :=
  { state with calls := state.calls ++ [{ plugin, hook, messageId }] }

def invokeHook (setup : Setup) (state : Orchestrator) (plugin hook : String) : Orchestrator :=
  let call := state.calls.length
  match setup.find? plugin with
  | none => (state.record plugin hook none).settle call .unknownPlugin
  | some _ =>
      let messageId := state.messageCounter + 1
      let counted : Orchestrator := { state with messageCounter := messageId }
      let known := counted.record plugin hook (some messageId)
      if setup.useStdio then
        if plugin ∈ known.stdioStdin then known.send .stdio call messageId hook plugin
        else known.settle call .noChannel
      else known.awaitWS call messageId hook plugin

def proceed (state : Orchestrator) (call : Nat) : Orchestrator :=
  match state.waiting.find? fun waiting => waiting.call = call && waiting.opened with
  | none => state
  | some waiting =>
      { state with waiting := state.waiting.filter fun other => other.call ≠ call }.send .websocket
        call waiting.messageId waiting.hook waiting.plugin

def setReadyState (state : Orchestrator) (connection : Nat) (readyState : ReadyState) :
    Orchestrator :=
  { state with
    connections := state.connections.modify connection fun current => { current with readyState } }

def opened (state : Orchestrator) (connection : Nat) : Orchestrator :=
  match state.connections[connection]? with
  | some ⟨plugin, .connecting⟩ =>
      { state.setReadyState connection .open with
        wsConnections := state.wsConnections.set plugin connection
        waiting := state.waiting.map fun waiting =>
          if waiting.connection = connection then { waiting with opened := true } else waiting }
  | _ => state

/-- The `error` event of a connection. Calls that still wait for it to open fail. -/
def failed (state : Orchestrator) (connection : Nat) : Orchestrator :=
  match state.connections[connection]? with
  | none | some ⟨_, .closed⟩ => state
  | some ⟨plugin, _⟩ =>
      let lost := state.waiting.filter fun waiting =>
        waiting.connection = connection && !waiting.opened
      { state.setReadyState connection .closing with
        wsConnections := state.wsConnections.erase plugin
        waiting := state.waiting.filter fun waiting =>
          !(waiting.connection = connection && !waiting.opened)
        settled := state.settled ++ lost.map fun waiting => (waiting.call, .connectionFailed) }

def closing (state : Orchestrator) (connection : Nat) : Orchestrator :=
  match state.connections[connection]? with
  | some ⟨_, .open⟩ => state.setReadyState connection .closing
  | _ => state

def closedEvent (state : Orchestrator) (connection : Nat) : Orchestrator :=
  match state.connections[connection]? with
  | some ⟨plugin, .closing⟩ =>
      { state.setReadyState connection .closed with
        wsConnections := state.wsConnections.erase plugin }
  | _ => state

/-- Settle the request that a message names, whoever the message is from. -/
def receive (state : Orchestrator) (plugin : String) (messageId : Nat) (type : MessageType) :
    Orchestrator :=
  match state.pendingRequests.get? messageId with
  | none => state
  | some pending =>
      { state with pendingRequests := state.pendingRequests.erase messageId }.settle pending.call
        (.message plugin messageId type)

def receiveLine (state : Orchestrator) (plugin : String) (messageId : Nat) (type : MessageType) :
    Orchestrator :=
  match type with
  | .result | .responseError => state.receive plugin messageId type
  | .error | .other => state

def timeout (state : Orchestrator) (messageId : Nat) : Orchestrator :=
  match state.pendingRequests.get? messageId with
  | none => state
  | some pending =>
      { state with pendingRequests := state.pendingRequests.erase messageId }.settle pending.call
        .timedOut

/-- The output of a plugin ends: its requests, by its name in the config file, are rejected. -/
def exited (state : Orchestrator) (configName : String) : Orchestrator :=
  let lost := state.pendingRequests.entries.filter fun entry => entry.2.plugin = configName
  { state with
    pendingRequests := state.pendingRequests.filter fun entry => entry.2.plugin ≠ configName
    settled := state.settled ++ lost.map fun entry => (entry.2.call, .exited) }

/-- `close`, up to the point where it waits for the plugins. -/
def close (state : Orchestrator) : Orchestrator :=
  let pooled := state.wsConnections.values
  { state with
    connections := state.connections.mapIdx fun index connection =>
      if index ∈ pooled ∧ connection.readyState = .open then
        { connection with readyState := .closing }
      else connection
    wsConnections := ∅
    stdioStdin := []
    pendingRequests := ∅
    settled := state.settled ++
      state.pendingRequests.entries.map fun entry => (entry.2.call, .closed)
    closed := true }

end Orchestrator

inductive Event where
  | invoke (plugin hook : String)
  | proceed (call : Nat)
  | opened (connection : Nat)
  | failed (connection : Nat)
  | closing (connection : Nat)
  | closedEvent (connection : Nat)
  | wsMessage (plugin : String) (messageId : Nat) (type : MessageType)
  | stdioLine (plugin : String) (messageId : Nat) (type : MessageType)
  | timeout (messageId : Nat)
  | exited (configName : String)
  | close
  deriving DecidableEq, Repr

namespace Orchestrator

def step (setup : Setup) (state : Orchestrator) : Event → Orchestrator
  | .invoke plugin hook => state.invokeHook setup plugin hook
  | .proceed call => state.proceed call
  | .opened connection => state.opened connection
  | .failed connection => state.failed connection
  | .closing connection => state.closing connection
  | .closedEvent connection => state.closedEvent connection
  | .wsMessage plugin messageId type => state.receive plugin messageId type
  | .stdioLine plugin messageId type => state.receiveLine plugin messageId type
  | .timeout messageId => state.timeout messageId
  | .exited configName => state.exited configName
  | .close => state.close

def run (setup : Setup) (events : List Event) : Orchestrator :=
  events.foldl (step setup) (start setup)

/-- What the orchestrator promises about its requests and connections. -/
structure Orderly (setup : Setup) (state : Orchestrator) : Prop where
  once : (state.settled.map Prod.fst).Nodup
  own : ∀ call plugin messageId type, (call, .message plugin messageId type) ∈ state.settled →
    ∃ hook, state.calls[call]? = some ⟨plugin, hook, some messageId⟩
  transport : ∀ request ∈ state.sent, ∀ plugin, setup.find? request.plugin = some plugin →
    request.transport = setup.transport plugin
  quiet : state.closed = true → state.pendingRequests.entries = [] ∧
    ∀ connection ∈ state.connections,
      connection.readyState ≠ .connecting ∧ connection.readyState ≠ .open

def Careful (setup : Setup) (state : Orchestrator) : Event → Prop
  | .invoke name _ => ∀ plugin, setup.find? name = some plugin →
      -- the plugin talks over what requests are sent over
      setup.transport plugin = setup.requestTransport ∧
      (setup.useStdio = false → state.closed = false ∧
        ∀ connection ∈ state.connections, connection.plugin = name →
          connection.readyState = .open ∨ connection.readyState = .closed)
  | .wsMessage plugin messageId _ | .stdioLine plugin messageId _ =>
      ∀ pending, state.pendingRequests.get? messageId = some pending → pending.plugin = plugin
  | .close => state.waiting = []
  | .proceed _ | .opened _ | .failed _ | .closing _ | .closedEvent _ | .timeout _ | .exited _ => True

def CarefulRun (setup : Setup) : Orchestrator → List Event → Prop
  | _, [] => True
  | state, event :: rest => state.Careful setup event ∧ CarefulRun setup (state.step setup event) rest

instance (setup : Setup) (state : Orchestrator) : (event : Event) →
    Decidable (state.Careful setup event)
  | .invoke name _ =>
      inferInstanceAs (Decidable (∀ plugin, plugin ∈ setup.find? name →
        setup.transport plugin = setup.requestTransport ∧
        (setup.useStdio = false → state.closed = false ∧
          ∀ connection ∈ state.connections, connection.plugin = name →
            connection.readyState = .open ∨ connection.readyState = .closed)))
  | .wsMessage plugin messageId _ | .stdioLine plugin messageId _ =>
      inferInstanceAs (Decidable (∀ pending, pending ∈ state.pendingRequests.get? messageId →
        pending.plugin = plugin))
  | .close => inferInstanceAs (Decidable (state.waiting = []))
  | .proceed _ | .opened _ | .failed _ | .closing _ | .closedEvent _ | .timeout _ | .exited _ =>
      inferInstanceAs (Decidable True)

instance (setup : Setup) : (events : List Event) → (state : Orchestrator) →
    Decidable (CarefulRun setup state events)
  | [], _ => inferInstanceAs (Decidable True)
  | _ :: rest, _ =>
      haveI := fun state => instDecidableCarefulRun setup rest state
      inferInstanceAs (Decidable (_ ∧ _))

end Orchestrator

end Houdini.Codegen
