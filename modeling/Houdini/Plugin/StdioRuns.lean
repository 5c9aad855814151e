import Houdini.Plugin.Stdio
import Mathlib.Data.List.Range

/-! What was not read yet is one sequence for the loop and for every handler that waits: only results
leave it out of order, each for the invoke that it is for. So requests are handled in the order of
their arrival. -/

set_option autoImplicit false

namespace Houdini.Plugin

variable {World Value : Type}

namespace StdioPlugin

variable (plugin : StdioPlugin World Value)

theorem waitForLine_eq (id : String) (deferred : List StdioInbound) (stdin : List Line) :
    (plugin.waitForLine id deferred stdin).found = (plugin.arrivals stdin).find? (carries id) ∧
      (plugin.waitForLine id deferred stdin).wasip1Queue ++
          plugin.arrivals (plugin.waitForLine id deferred stdin).stdin =
        deferred ++ (plugin.arrivals stdin).eraseP (carries id) := by
  induction stdin generalizing deferred with
  | nil => exact ⟨rfl, rfl⟩
  | cons line rest ih =>
      rw [waitForLine, arrivals]
      cases long : tooLong line with
      | true => exact ⟨rfl, rfl⟩
      | false =>
          simp only [Bool.false_eq_true, if_false]
          cases plugin.unmarshal line with
          | none => exact ih deferred
          | some message =>
              dsimp only
              cases mine : carries id message with
              | true =>
                  rw [if_pos rfl, List.find?_cons_of_pos mine, List.eraseP_cons_of_pos mine]
                  exact ⟨rfl, rfl⟩
              | false =>
                  have other : ¬ carries id message = true := by rw [mine]; exact Bool.noConfusion
                  rw [if_neg Bool.noConfusion, List.find?_cons_of_neg other,
                    List.eraseP_cons_of_neg other, List.append_cons deferred message (List.eraseP _ _)]
                  exact ih (deferred ++ [message])

theorem waitForResult_eq (id : String) (deferred queue : List StdioInbound) (stdin : List Line) :
    (plugin.waitForResult id deferred queue stdin).found =
        (queue ++ plugin.arrivals stdin).find? (carries id) ∧
      (plugin.waitForResult id deferred queue stdin).wasip1Queue ++
          plugin.arrivals (plugin.waitForResult id deferred queue stdin).stdin =
        deferred ++ (queue ++ plugin.arrivals stdin).eraseP (carries id) := by
  induction queue generalizing deferred with
  | nil => exact plugin.waitForLine_eq id deferred stdin
  | cons message queue ih =>
      rw [waitForResult]
      rw [List.cons_append]
      cases mine : carries id message with
      | true =>
          rw [if_pos rfl, List.find?_cons_of_pos mine, List.eraseP_cons_of_pos mine]
          exact ⟨rfl, List.append_assoc ..⟩
      | false =>
          have other : ¬ carries id message = true := by rw [mine]; exact Bool.noConfusion
          rw [if_neg Bool.noConfusion, List.find?_cons_of_neg other,
            List.eraseP_cons_of_neg other, List.append_cons deferred message (List.eraseP _ _)]
          exact ih (deferred ++ [message])

theorem scanMsg_eq (stdin : List Line) :
    (plugin.scanMsg stdin = none ∧ plugin.arrivals stdin = []) ∨
      ∃ message rest, plugin.scanMsg stdin = some (message, rest) ∧
        plugin.arrivals stdin = message :: plugin.arrivals rest := by
  induction stdin with
  | nil => exact .inl ⟨rfl, rfl⟩
  | cons line rest ih =>
      rw [scanMsg, arrivals]
      cases long : tooLong line with
      | true => exact .inl ⟨rfl, rfl⟩
      | false =>
          simp only [Bool.false_eq_true, if_false]
          cases plugin.unmarshal line with
          | none => exact ih
          | some message => exact .inr ⟨message, rest, rfl, rfl⟩

theorem nextMsg_eq (queue : List StdioInbound) (stdin : List Line) :
    (plugin.nextMsg queue stdin = none ∧ queue ++ plugin.arrivals stdin = []) ∨
      ∃ message queue' stdin', plugin.nextMsg queue stdin = some (message, queue', stdin') ∧
        queue ++ plugin.arrivals stdin = message :: (queue' ++ plugin.arrivals stdin') := by
  cases queue with
  | cons message queue => exact .inr ⟨message, queue, stdin, rfl, rfl⟩
  | nil =>
      rcases plugin.scanMsg_eq stdin with ⟨ended, none⟩ | ⟨message, rest, read, arrived⟩
      · exact .inl ⟨by rw [nextMsg, ended]; rfl, none⟩
      · exact .inr ⟨message, [], rest, by rw [nextMsg, read]; rfl, arrived⟩

theorem length_arrivals_le (stdin : List Line) :
    (plugin.arrivals stdin).length ≤ stdin.length := by
  induction stdin with
  | nil => exact Nat.le_refl _
  | cons line rest ih =>
      rw [arrivals]
      split
      · exact Nat.zero_le _
      · cases plugin.unmarshal line with
        | none => exact ih.trans (Nat.le_succ _)
        | some message => exact Nat.succ_le_succ ih

/-- What an invoke returns: the answer in the first message that was not read yet and carries its
id. -/
def Answered : StdioEvent Value → Prop
  | .invokes message unread returned =>
      returned = match plugin.encode (.invoke message) with
        | none => .error .unwritten
        | some _ => invokeAnswer message.hook (unread.find? (carries message.id))
  | _ => False

end StdioPlugin

def StdioEvent.invokeID? : StdioEvent Value → Option String
  | .invokes message _ _ => some message.id
  | _ => none

def invokeIDs (first last : Nat) : List String :=
  (List.range' (first + 1) (last - first)).map invokeID

theorem invokeIDs_append {first middle last : Nat} (below : first ≤ middle) (above : middle ≤ last) :
    invokeIDs first middle ++ invokeIDs middle last = invokeIDs first last := by
  have next : first + 1 + 1 * (middle - first) = middle + 1 := by omega
  have total : middle - first + (last - middle) = last - first := by omega
  rw [invokeIDs, invokeIDs, invokeIDs, ← List.map_append, ← next, List.range'_append, total]

theorem invokeIDs_self (count : Nat) : invokeIDs count count = [] := by
  rw [invokeIDs, Nat.sub_self]
  rfl

namespace StdioPlugin

variable (plugin : StdioPlugin World Value)

/-- A handler only adds invokes to the log, each with an id of its own and with its answer, and
leaves the requests that were not read yet in their order. -/
structure Ran (before after : StdioLoop World Value) (invokes : List (StdioEvent Value)) : Prop where
  log : after.log = before.log ++ invokes
  answered : ∀ event ∈ invokes, plugin.Answered event
  counted : before.stdioIDCounter ≤ after.stdioIDCounter
  ids : invokes.filterMap StdioEvent.invokeID? =
    invokeIDs before.stdioIDCounter after.stdioIDCounter
  requests : (plugin.unread after).filter isRequest = (plugin.unread before).filter isRequest
  shorter : (plugin.unread after).length ≤ (plugin.unread before).length

variable {plugin} {before middle after : StdioLoop World Value}

theorem Ran.trans {first second : List (StdioEvent Value)} (early : plugin.Ran before middle first)
    (late : plugin.Ran middle after second) : plugin.Ran before after (first ++ second) where
  log := by rw [late.log, early.log, List.append_assoc]
  answered := List.forall_mem_append.mpr ⟨early.answered, late.answered⟩
  counted := early.counted.trans late.counted
  ids := by
    rw [List.filterMap_append, early.ids, late.ids, invokeIDs_append early.counted late.counted]
  requests := late.requests.trans early.requests
  shorter := late.shorter.trans early.shorter

theorem filter_isRequest_eraseP (id : String) (messages : List StdioInbound) :
    (messages.eraseP (carries id)).filter isRequest = messages.filter isRequest := by
  induction messages with
  | nil => rfl
  | cons message rest ih =>
      by_cases mine : carries id message = true
      · have other : ¬ isRequest message = true := by
          have result : message.type = "invoke_result" := by
            simp only [carries, Bool.and_eq_true, decide_eq_true_eq] at mine
            exact mine.1
          rw [isRequest, result]
          decide
        rw [List.eraseP_cons_of_pos mine, List.filter_cons_of_neg other]
      · rw [List.eraseP_cons_of_neg mine, List.filter_cons, List.filter_cons, ih]

theorem ran_stdioInvoke (loop : StdioLoop World Value) (message : StdioInvokeMsg Value)
    (named : message.id = invokeID (loop.stdioIDCounter + 1)) :
    ∃ returned, (plugin.stdioInvoke message loop).1 = returned ∧
      plugin.Ran loop (plugin.stdioInvoke message loop).2
        [.invokes message (plugin.unread loop) returned] := by
  have ids : [message.id] = invokeIDs loop.stdioIDCounter (loop.stdioIDCounter + 1) := by
    rw [invokeIDs, Nat.add_sub_cancel_left, named]
    rfl
  unfold stdioInvoke
  cases written : plugin.encode (.invoke message) with
  | none =>
      refine ⟨_, rfl, rfl, ?_, Nat.le_succ _, ids, rfl, Nat.le_refl _⟩
      rw [List.forall_mem_singleton, Answered, written]
  | some line =>
      obtain ⟨found, left⟩ :=
        plugin.waitForResult_eq message.id [] loop.wasip1Queue loop.stdin
      rw [List.nil_append] at left
      refine ⟨_, rfl, rfl, ?_, Nat.le_succ _, ids, ?_, ?_⟩
      · rw [List.forall_mem_singleton, Answered, written]
        exact congrArg (invokeAnswer message.hook) found
      · change List.filter isRequest (_ ++ plugin.arrivals _) = _
        rw [left, filter_isRequest_eraseP]
        rfl
      · change List.length (_ ++ plugin.arrivals _) ≤ _
        rw [left]
        exact List.eraseP_sublist.length_le

theorem ran_runHandler (taskId : String) (run : HandlerRun World Value)
    (loop : StdioLoop World Value) :
    ∃ invokes, plugin.Ran loop (plugin.runHandler taskId run loop).2 invokes := by
  induction run generalizing loop with
  | returns outcome world =>
      exact ⟨[], (List.append_nil _).symm, List.forall_mem_nil _, Nat.le_refl _,
        (invokeIDs_self _).symm, rfl, Nat.le_refl _⟩
  | invokes hook payload parallel next ih =>
      let message : StdioInvokeMsg Value :=
        { id := invokeID (loop.stdioIDCounter + 1), hook, payload, taskId, parallel }
      obtain ⟨returned, _, ran⟩ := ran_stdioInvoke loop message rfl
      obtain ⟨invokes, rest⟩ :=
        ih (plugin.stdioInvoke message loop).1 (plugin.stdioInvoke message loop).2
      exact ⟨_, ran.trans rest⟩

end StdioPlugin

/-- What the loop does for a request: the handler's invokes stand between its start and its
response. -/
structure HandledRequest (Value : Type) where
  request : StdioInbound
  invokes : List (StdioEvent Value)
  response : StdioResponse Value
  sameID : response.id = request.id

def HandledRequest.events (handled : HandledRequest Value) : List (StdioEvent Value) :=
  .handles handled.request :: (handled.invokes ++ [.responds handled.response])

theorem HandlerOutcome.response_id (outcome : HandlerOutcome Value) (id : String) :
    (outcome.response id).id = id := by
  cases outcome <;> rfl

namespace StdioPlugin

variable (plugin : StdioPlugin World Value)

structure Handles (before after : StdioLoop World Value) (handled : List (HandledRequest Value)) :
    Prop where
  log : after.log = before.log ++ handled.flatMap HandledRequest.events
  answered : ∀ event ∈ handled.flatMap HandledRequest.invokes, plugin.Answered event
  counted : before.stdioIDCounter ≤ after.stdioIDCounter
  ids : (handled.flatMap HandledRequest.invokes).filterMap StdioEvent.invokeID? =
    invokeIDs before.stdioIDCounter after.stdioIDCounter

variable {plugin} {before middle after : StdioLoop World Value}

theorem Handles.refl (loop : StdioLoop World Value) : plugin.Handles loop loop [] where
  log := (List.append_nil _).symm
  answered := List.forall_mem_nil _
  counted := Nat.le_refl _
  ids := (invokeIDs_self _).symm

theorem Handles.trans {first second : List (HandledRequest Value)}
    (early : plugin.Handles before middle first) (late : plugin.Handles middle after second) :
    plugin.Handles before after (first ++ second) where
  log := by rw [late.log, early.log, List.append_assoc, List.flatMap_append]
  answered := by
    rw [List.flatMap_append]
    exact List.forall_mem_append.mpr ⟨early.answered, late.answered⟩
  counted := early.counted.trans late.counted
  ids := by
    rw [List.flatMap_append, List.filterMap_append, early.ids, late.ids,
      invokeIDs_append early.counted late.counted]

theorem handles_handleRequest (request : StdioInbound) (loop : StdioLoop World Value) :
    ∃ handled : HandledRequest Value, handled.request = request ∧
      plugin.Handles loop (plugin.handleRequest request loop) [handled] ∧
      (plugin.unread (plugin.handleRequest request loop)).filter isRequest =
        (plugin.unread loop).filter isRequest ∧
      (plugin.unread (plugin.handleRequest request loop)).length ≤ (plugin.unread loop).length := by
  unfold handleRequest
  dsimp only
  cases plugin.handlerMap request.hook with
  | none =>
      refine ⟨⟨request, [], { id := request.id, error := some (.message ("no handler for hook " ++ request.hook)) },
        rfl⟩, rfl, ⟨?_, List.forall_mem_nil _, Nat.le_refl _, (invokeIDs_self _).symm⟩, rfl,
        Nat.le_refl _⟩
      simp [respond, HandledRequest.events]
  | some handler =>
      dsimp only
      obtain ⟨invokes, ran⟩ := plugin.ran_runHandler request.taskId
        (handler request.taskId request.pluginDirectory request.payload loop.world)
        { loop with log := loop.log ++ [.handles request] }
      let outcome := (plugin.runHandler request.taskId
        (handler request.taskId request.pluginDirectory request.payload loop.world)
        { loop with log := loop.log ++ [.handles request] }).1
      refine ⟨⟨request, invokes, outcome.response request.id, outcome.response_id request.id⟩, rfl,
        ⟨?_, ?_, ran.counted, ?_⟩, ran.requests, ran.shorter⟩
      · simp [respond, HandledRequest.events, ran.log, outcome]
      · rw [List.flatMap_singleton]
        exact ran.answered
      · rw [List.flatMap_singleton]
        exact ran.ids

theorem handles_loopUpTo (fuel : Nat) (loop : StdioLoop World Value)
    (enough : (plugin.unread loop).length < fuel) :
    ∃ final handled, plugin.loopUpTo fuel loop = some final ∧ plugin.Handles loop final handled ∧
      handled.map HandledRequest.request = (plugin.unread loop).filter isRequest := by
  induction fuel generalizing loop with
  | zero => exact absurd enough (Nat.not_lt_zero _)
  | succ fuel ih =>
      rw [loopUpTo]
      rcases plugin.nextMsg_eq loop.wasip1Queue loop.stdin with
        ⟨ended, none⟩ | ⟨message, queue, stdin, read, split⟩
      · rw [ended]
        refine ⟨loop, [], rfl, .refl loop, ?_⟩
        rw [unread, none]
        rfl
      · rw [read]
        dsimp only
        have unreadLoop : plugin.unread loop =
            message :: plugin.unread { loop with wasip1Queue := queue, stdin } := split
        rw [unreadLoop, List.length_cons] at enough
        rw [unreadLoop, dispatch]
        cases asked : isRequest message with
        | false =>
            obtain ⟨final, handled, ended, handles, requests⟩ :=
              ih { loop with wasip1Queue := queue, stdin } (Nat.lt_of_succ_lt_succ enough)
            have handles' : plugin.Handles loop final handled :=
              ⟨handles.log, handles.answered, handles.counted, handles.ids⟩
            rw [List.filter_cons_of_neg (by rw [asked]; exact Bool.noConfusion)]
            exact ⟨final, handled, ended, handles', requests⟩
        | true =>
            obtain ⟨first, named, handles, kept, shorter⟩ := plugin.handles_handleRequest message
              { loop with wasip1Queue := queue, stdin }
            obtain ⟨final, others, ended, rest, requests⟩ :=
              ih _ (shorter.trans_lt (Nat.lt_of_succ_lt_succ enough))
            have handles' : plugin.Handles loop _ [first] :=
              ⟨handles.log, handles.answered, handles.counted, handles.ids⟩
            rw [List.filter_cons_of_pos asked]
            refine ⟨final, first :: others, ended, handles'.trans rest, ?_⟩
            rw [List.map_cons, requests, kept, named]

theorem invokeID_injective : Function.Injective invokeID := by
  intro left right same
  have texts := congrArg String.toList same
  rw [invokeID, invokeID, String.toList_append, String.toList_append] at texts
  have digits : left.repr.toList = right.repr.toList := List.append_cancel_left texts
  rw [Nat.toList_repr, Nat.toList_repr] at digits
  calc left = Nat.ofDigitChars 10 (Nat.toDigits 10 left) 0 := Nat.ofDigitChars_ten_toDigits.symm
    _ = Nat.ofDigitChars 10 (Nat.toDigits 10 right) 0 := by rw [digits]
    _ = right := Nat.ofDigitChars_ten_toDigits

/-- The loop ends. Every request that arrives is handled once, in the order of arrival, and answered
under its id, and every invoke has an id of its own and gets the first result for it. -/
theorem runStdio_delivers (plugin : StdioPlugin World Value) (world : World) (stdin : List Line) :
    ∃ (final : StdioLoop World Value) (handled : List (HandledRequest Value)),
      plugin.runStdio world stdin = some final ∧
      final.log = handled.flatMap HandledRequest.events ∧
      handled.map HandledRequest.request = (plugin.arrivals stdin).filter isRequest ∧
      (∀ event ∈ handled.flatMap HandledRequest.invokes, plugin.Answered event) ∧
      ((handled.flatMap HandledRequest.invokes).filterMap StdioEvent.invokeID?).Nodup := by
  obtain ⟨final, handled, ended, handles, requests⟩ :=
    plugin.handles_loopUpTo (stdin.length + 1) { stdin, world }
      (Nat.lt_succ_of_le (plugin.length_arrivals_le stdin))
  refine ⟨final, handled, ended, handles.log, requests, handles.answered, ?_⟩
  rw [handles.ids]
  exact (List.nodup_range' 1 Nat.one_pos).map invokeID_injective

variable (plugin) in
def written : StdioEvent Value → Option Line
  | .handles _ => none
  | .invokes message _ _ => plugin.encode (.invoke message)
  | .responds response => plugin.encode (.response response)

variable (plugin) in
def stdout (loop : StdioLoop World Value) : List Line := loop.log.filterMap plugin.written

end StdioPlugin

def configRequest : StdioInbound where
  id := "1"
  type := "request"
  hook := "Config"

def configLine : Line :=
  "\x7b\"id\":\"1\",\"type\":\"request\",\"hook\":\"Config\"\x7d".toList.map fun char =>
    UInt8.ofNat char.toNat

/-- A plugin that answers with a value. There is no JSON for the value `false`, as there is none for
a number that is not finite. -/
def configPlugin (value : Bool) : StdioPlugin Unit Bool where
  handlerMap hook := if hook = "Config" then some fun _ _ _ world => .returns (.result value) world
    else none
  unmarshal line := if line = configLine then some configRequest else none
  encode
    | .response { result := some false, .. } => none
    | _ => some []

theorem runStdio_tooLong {line : Line} (long : tooLong line = true) (rest : List Line) :
    (configPlugin true).runStdio () (line :: rest) =
      some { stdin := line :: rest, world := () } := by
  rw [StdioPlugin.runStdio, StdioPlugin.loopUpTo, StdioPlugin.nextMsg, StdioPlugin.scanMsg,
    if_pos long]
  rfl

/-- Behind a line that is too long no request is handled, and what has no JSON is no response. -/
theorem runStdio_loses :
    (∃ final, (configPlugin true).runStdio () [List.replicate maxTokenSize 32, configLine] =
        some final ∧ final.log = []) ∧
      ∃ final, (configPlugin false).runStdio () [configLine] = some final ∧
        StdioEvent.handles configRequest ∈ final.log ∧ (configPlugin false).stdout final = [] := by
  have long : tooLong (List.replicate maxTokenSize 32) = true := by
    rw [tooLong, List.length_replicate]
    exact decide_eq_true (Nat.le_refl _)
  have short : tooLong configLine = false := by decide
  constructor
  · exact ⟨_, runStdio_tooLong long [configLine], rfl⟩
  · refine ⟨{ stdin := [], world := (), log :=
      [.handles configRequest, .responds { id := "1", result := some false }] }, ?_,
      List.mem_cons_self, rfl⟩
    have read : (configPlugin false).unmarshal configLine = some configRequest := by
      simp [configPlugin]
    rw [StdioPlugin.runStdio, StdioPlugin.loopUpTo, StdioPlugin.nextMsg, StdioPlugin.scanMsg, short,
      read]
    rfl

end Houdini.Plugin
