import Houdini.Runtime.Json
import Mathlib.Data.List.Nodup

/-! The loop of a plugin that talks over its standard input and output where nothing runs in the
background: a handler that invokes other plugins reads the input itself until its result comes. -/

set_option autoImplicit false

namespace Houdini.Plugin

open Houdini.Runtime (Json)

abbrev Line := List UInt8

def maxTokenSize : Nat := 10 * 1024 * 1024

def tooLong (line : Line) : Bool := maxTokenSize ≤ line.length

structure StdioInbound where
  id : String
  type : String
  hook : String := ""
  payload : List (String × Json) := []
  taskId : String := ""
  pluginDirectory : String := ""
  result : Json := .null
  error : Json := .null

structure StdioInvokeMsg (Value : Type) where
  id : String
  hook : String
  payload : Value
  taskId : String
  parallel : Bool

inductive ResponseError (Value : Type) where
  | message (text : String)
  | items (values : List Value)
  | value (value : Value)

structure StdioResponse (Value : Type) where
  id : String
  result : Option Value := none
  error : Option (ResponseError Value) := none

inductive StdioOutbound (Value : Type) where
  | invoke (message : StdioInvokeMsg Value)
  | response (response : StdioResponse Value)

inductive InvokeError where
  /-- There is no JSON for the message. -/
  | unwritten
  | stdinClosed (hook : String)
  | remote (hook : String) (error : Json)

abbrev InvokeResult := Except InvokeError (List (String × Json))

inductive HandlerOutcome (Value : Type) where
  | result (value : Value)
  | errorList (items : List Value)
  | error (value : Value)
  | otherError (text : String)
  | panic (text : String)

/-- What a handler does: it may invoke other plugins, as often as it likes, before it ends. -/
inductive HandlerRun (World Value : Type) where
  | returns (outcome : HandlerOutcome Value) (world : World)
  | invokes (hook : String) (payload : Value) (parallel : Bool)
      (next : InvokeResult → HandlerRun World Value)

abbrev HookHandler (World Value : Type) :=
  (taskId pluginDirectory : String) → List (String × Json) → World → HandlerRun World Value

structure StdioPlugin (World Value : Type) where
  handlerMap : String → Option (HookHandler World Value)
  /-- What a line says, if it is a message at all. -/
  unmarshal : Line → Option StdioInbound
  /-- There is no JSON for some values. -/
  encode : StdioOutbound Value → Option Line

variable {World Value : Type}

/-- What happens, in this order. The messages that were not read before an invoke are kept for
it. -/
inductive StdioEvent (Value : Type) where
  | handles (request : StdioInbound)
  | invokes (message : StdioInvokeMsg Value) (unread : List StdioInbound) (returned : InvokeResult)
  | responds (response : StdioResponse Value)

structure StdioLoop (World Value : Type) where
  wasip1Queue : List StdioInbound := []
  stdin : List Line
  stdioIDCounter : Nat := 0
  world : World
  log : List (StdioEvent Value) := []

namespace StdioPlugin

variable (plugin : StdioPlugin World Value)

/-- The messages that the scanner finds. It stops at a line that is too long, for good. -/
def arrivals : List Line → List StdioInbound
  | [] => []
  | line :: rest =>
      if tooLong line then []
      else
        match plugin.unmarshal line with
        | none => arrivals rest
        | some message => message :: arrivals rest

def scanMsg : List Line → Option (StdioInbound × List Line)
  | [] => none
  | line :: rest =>
      if tooLong line then none
      else
        match plugin.unmarshal line with
        | none => scanMsg rest
        | some message => some (message, rest)

def nextMsg : List StdioInbound → List Line → Option (StdioInbound × List StdioInbound × List Line)
  | message :: queue, stdin => some (message, queue, stdin)
  | [], stdin => (plugin.scanMsg stdin).map fun read => (read.1, [], read.2)

end StdioPlugin

def isRequest (message : StdioInbound) : Bool := message.type = "request"

def carries (id : String) (message : StdioInbound) : Bool :=
  message.type = "invoke_result" && message.id = id

structure Waited where
  found : Option StdioInbound
  wasip1Queue : List StdioInbound
  stdin : List Line

namespace StdioPlugin

variable (plugin : StdioPlugin World Value)

def waitForLine (id : String) (deferred : List StdioInbound) : List Line → Waited
  | [] => ⟨none, deferred, []⟩
  | line :: rest =>
      if tooLong line then ⟨none, deferred, []⟩
      else
        match plugin.unmarshal line with
        | none => waitForLine id deferred rest
        | some message =>
            if carries id message then ⟨some message, deferred, rest⟩
            else waitForLine id (deferred ++ [message]) rest

/-- Other messages are put aside, and in front of what is left of the queue when the wait ends. -/
def waitForResult (id : String) (deferred : List StdioInbound) :
    List StdioInbound → List Line → Waited
  | [], stdin => plugin.waitForLine id deferred stdin
  | message :: queue, stdin =>
      if carries id message then ⟨some message, deferred ++ queue, stdin⟩
      else waitForResult id (deferred ++ [message]) queue stdin

end StdioPlugin

def invokeAnswer (hook : String) : Option StdioInbound → InvokeResult
  | none => .error (.stdinClosed hook)
  | some message =>
      match message.error with
      | .null =>
          match message.result with
          | .object fields => .ok fields
          | _ => .ok []
      | error => .error (.remote hook error)

def invokeID (count : Nat) : String := "go-invoke-" ++ toString count

def HandlerOutcome.response (id : String) : HandlerOutcome Value → StdioResponse Value
  | .result value => { id, result := some value }
  | .errorList items => { id, error := some (.items items) }
  | .error value => { id, error := some (.value value) }
  | .otherError text => { id, error := some (.message text) }
  | .panic text => { id, error := some (.message ("handler panic: " ++ text)) }

namespace StdioPlugin

variable (plugin : StdioPlugin World Value)

def unread (loop : StdioLoop World Value) : List StdioInbound :=
  loop.wasip1Queue ++ plugin.arrivals loop.stdin

def stdioInvoke (message : StdioInvokeMsg Value) (loop : StdioLoop World Value) :
    InvokeResult × StdioLoop World Value :=
  let record (returned : InvokeResult) (loop' : StdioLoop World Value) :=
    (returned, { loop' with
      stdioIDCounter := loop.stdioIDCounter + 1
      log := loop.log ++ [.invokes message (plugin.unread loop) returned] })
  match plugin.encode (.invoke message) with
  | none => record (.error .unwritten) loop
  | some _ =>
      let waited := plugin.waitForResult message.id [] loop.wasip1Queue loop.stdin
      record (invokeAnswer message.hook waited.found)
        { loop with wasip1Queue := waited.wasip1Queue, stdin := waited.stdin }

def runHandler (taskId : String) :
    HandlerRun World Value → StdioLoop World Value → HandlerOutcome Value × StdioLoop World Value
  | .returns outcome world, loop => (outcome, { loop with world })
  | .invokes hook payload parallel next, loop =>
      let message : StdioInvokeMsg Value :=
        { id := invokeID (loop.stdioIDCounter + 1), hook, payload, taskId, parallel }
      let invoked := plugin.stdioInvoke message loop
      runHandler taskId (next invoked.1) invoked.2

def respond (response : StdioResponse Value) (loop : StdioLoop World Value) :
    StdioLoop World Value :=
  { loop with log := loop.log ++ [.responds response] }

def handleRequest (request : StdioInbound) (loop : StdioLoop World Value) :
    StdioLoop World Value :=
  let loop := { loop with log := loop.log ++ [.handles request] }
  match plugin.handlerMap request.hook with
  | none =>
      respond { id := request.id, error := some (.message ("no handler for hook " ++ request.hook)) }
        loop
  | some handler =>
      let run := plugin.runHandler request.taskId
        (handler request.taskId request.pluginDirectory request.payload loop.world) loop
      respond (run.1.response request.id) run.2

def dispatch (message : StdioInbound) (loop : StdioLoop World Value) : StdioLoop World Value :=
  if isRequest message then plugin.handleRequest message loop else loop

def loopUpTo : Nat → StdioLoop World Value → Option (StdioLoop World Value)
  | 0, _ => none
  | fuel + 1, loop =>
      match plugin.nextMsg loop.wasip1Queue loop.stdin with
      | none => some loop
      | some (message, wasip1Queue, stdin) =>
          loopUpTo fuel (plugin.dispatch message { loop with wasip1Queue, stdin })

def runStdio (world : World) (stdin : List Line) : Option (StdioLoop World Value) :=
  plugin.loopUpTo (stdin.length + 1) { stdin, world }

end StdioPlugin

end Houdini.Plugin
