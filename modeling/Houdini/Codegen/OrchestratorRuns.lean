import Houdini.Codegen.Orchestrator

/-! Whatever happens to the orchestrator, one event after the other: requests are answered once and
by their own plugin, and nothing is left open. -/

set_option autoImplicit false

namespace Houdini.Codegen

namespace Orchestrator

def numberOf (state : Orchestrator) (call : Nat) : Option Nat :=
  (state.calls[call]?).bind Call.messageId

def HasConnection (state : Orchestrator) (index : Nat) (plugin : String)
    (readyState : ReadyState) : Prop :=
  state.connections[index]? = some ⟨plugin, readyState⟩

structure Open (state : Orchestrator) (call messageId : Nat) (plugin : String) : Prop where
  known : ∃ hook, state.calls[call]? = some ⟨plugin, hook, some messageId⟩
  unsettled : call ∉ state.settled.map Prod.fst

/-- What holds between two events. -/
structure Invariant (setup : Setup) (state : Orchestrator) : Prop where
  once : (state.settled.map Prod.fst).Nodup
  known : ∀ call ∈ state.settled.map Prod.fst, call < state.calls.length
  own : ∀ call plugin messageId type, (call, .message plugin messageId type) ∈ state.settled →
    ∃ hook, state.calls[call]? = some ⟨plugin, hook, some messageId⟩
  transport : ∀ request ∈ state.sent, ∀ plugin, setup.find? request.plugin = some plugin →
    request.transport = setup.transport plugin
  numbered : ∀ call other messageId, state.numberOf call = some messageId →
    state.numberOf other = some messageId → call = other
  counted : ∀ call messageId, state.numberOf call = some messageId →
    messageId ≤ state.messageCounter
  pending : ∀ messageId pending, state.pendingRequests.get? messageId = some pending →
    state.Open pending.call messageId pending.plugin
  waiting : ∀ waiting ∈ state.waiting, state.Open waiting.call waiting.messageId waiting.plugin ∧
    state.pendingRequests.get? waiting.messageId = none
  waitingOnce : (state.waiting.map WaitingCall.call).Nodup
  waitingTransport : ∀ waiting ∈ state.waiting, ∀ plugin, setup.find? waiting.plugin = some plugin →
    setup.transport plugin = .websocket
  pooled : ∀ index plugin, state.HasConnection index plugin .open →
    state.wsConnections.get? plugin = some index
  alone : ∀ index other plugin (first second : ReadyState), state.HasConnection index plugin first →
    state.HasConnection other plugin second → first ≠ .closed → second ≠ .closed → index = other
  opening : ∀ index plugin, state.HasConnection index plugin .connecting →
    ∃ waiting ∈ state.waiting, waiting.connection = index ∧ waiting.opened = false
  quiet : state.closed = true → (∀ messageId, state.pendingRequests.get? messageId = none) ∧
    state.waiting = [] ∧ state.stdioStdin = [] ∧
      ∀ index plugin, ¬ state.HasConnection index plugin .open

theorem Invariant.orderly {setup : Setup} {state : Orchestrator} (holds : Invariant setup state) :
    Orderly setup state where
  once := holds.once
  own := holds.own
  transport := holds.transport
  quiet := by
    intro closed
    obtain ⟨none, unwaiting, _, unopen⟩ := holds.quiet closed
    refine ⟨?_, fun connection member => ?_⟩
    · refine List.eq_nil_iff_forall_not_mem.mpr fun entry member => ?_
      have found := OrderedMap.mem_entries_iff.mp
        (show (entry.1, entry.2) ∈ state.pendingRequests.entries from member)
      rw [none] at found
      cases found
    · obtain ⟨index, found⟩ := List.mem_iff_getElem?.mp member
      obtain ⟨plugin, readyState⟩ := connection
      constructor
      · rintro rfl
        obtain ⟨waiting, waits, _⟩ := holds.opening index plugin found
        rw [unwaiting] at waits
        exact absurd waits List.not_mem_nil
      · rintro rfl
        exact unopen index plugin found

theorem invariant_start (setup : Setup) : Invariant setup (start setup) where
  once := List.nodup_nil
  known := fun _ member => absurd member List.not_mem_nil
  own := fun _ _ _ _ member => absurd member List.not_mem_nil
  transport := fun _ member => absurd member List.not_mem_nil
  numbered := fun _ _ _ found => by simp [numberOf, start] at found
  counted := fun _ _ found => by simp [numberOf, start] at found
  pending := fun _ _ found => by simp [start] at found
  waiting := fun _ member => absurd member List.not_mem_nil
  waitingOnce := List.nodup_nil
  waitingTransport := fun _ member => absurd member List.not_mem_nil
  pooled := fun _ _ found => by simp [HasConnection, start] at found
  alone := fun _ _ _ _ _ found => by simp [HasConnection, start] at found
  opening := fun _ _ found => by simp [HasConnection, start] at found
  quiet := fun closed => by simp [start] at closed

section Steps

variable {setup : Setup} {state : Orchestrator}

theorem Open.number {call messageId : Nat} {plugin : String} (isOpen : state.Open call messageId plugin) :
    state.numberOf call = some messageId := by
  obtain ⟨hook, found⟩ := isOpen.known
  rw [numberOf, found]
  rfl

theorem Open.lt {call messageId : Nat} {plugin : String} (isOpen : state.Open call messageId plugin) :
    call < state.calls.length := by
  obtain ⟨hook, found⟩ := isOpen.known
  exact (List.getElem?_eq_some_iff.mp found).1

theorem Invariant.settleAll (holds : Invariant setup state) {calls : List (Nat × Outcome)}
    {pendingRequests : OrderedMap Nat PendingRequest} {waiting : List WaitingCall}
    (fresh : (calls.map Prod.fst).Nodup)
    (unsettled : ∀ entry ∈ calls, entry.1 < state.calls.length ∧
      entry.1 ∉ state.settled.map Prod.fst)
    (own : ∀ call sender number type, (call, .message sender number type) ∈ calls →
      ∃ hook, state.calls[call]? = some ⟨sender, hook, some number⟩)
    (pendingLeft : ∀ messageId pending, pendingRequests.get? messageId = some pending →
      state.pendingRequests.get? messageId = some pending ∧ pending.call ∉ calls.map Prod.fst)
    (waitingLeft : waiting.Sublist state.waiting)
    (waitingOther : ∀ left ∈ waiting, left.call ∉ calls.map Prod.fst)
    (opening : ∀ index plugin, state.HasConnection index plugin .connecting →
      ∃ left ∈ waiting, left.connection = index ∧ left.opened = false) :
    Invariant setup { state with
      pendingRequests, waiting, settled := state.settled ++ calls } where
  once := by
    rw [List.map_append, List.nodup_append]
    refine ⟨holds.once, fresh, ?_⟩
    rintro call before other member rfl
    obtain ⟨entry, isEntry, rfl⟩ := List.mem_map.mp member
    exact (unsettled entry isEntry).2 before
  known := by
    intro call member
    rw [List.map_append] at member
    rcases List.mem_append.mp member with before | added
    · exact holds.known call before
    · obtain ⟨entry, isEntry, rfl⟩ := List.mem_map.mp added
      exact (unsettled entry isEntry).1
  own := by
    intro call plugin messageId type member
    rcases List.mem_append.mp member with before | added
    · exact holds.own call plugin messageId type before
    · exact own call plugin messageId type added
  transport := holds.transport
  numbered := holds.numbered
  counted := holds.counted
  pending := by
    intro messageId pending found
    obtain ⟨before, left⟩ := pendingLeft messageId pending found
    have entryOpen := holds.pending messageId pending before
    refine ⟨entryOpen.known, fun member => ?_⟩
    rw [List.map_append] at member
    exact (List.mem_append.mp member).elim entryOpen.unsettled left
  waiting := by
    intro left member
    obtain ⟨entryOpen, none⟩ := holds.waiting left (waitingLeft.subset member)
    refine ⟨⟨entryOpen.known, fun settled => ?_⟩, ?_⟩
    · rw [List.map_append] at settled
      exact (List.mem_append.mp settled).elim entryOpen.unsettled (waitingOther left member)
    · cases found : pendingRequests.get? left.messageId with
      | none => rfl
      | some pending =>
          have before := (pendingLeft _ _ found).1
          rw [none] at before
          cases before
  waitingOnce := holds.waitingOnce.sublist (waitingLeft.map _)
  waitingTransport := fun left member => holds.waitingTransport left (waitingLeft.subset member)
  pooled := holds.pooled
  alone := holds.alone
  opening := opening
  quiet := by
    intro closed
    obtain ⟨none, unwaiting, stdin, unopen⟩ := holds.quiet closed
    refine ⟨fun messageId => ?_, ?_, stdin, unopen⟩
    · cases found : pendingRequests.get? messageId with
      | none => rfl
      | some pending =>
          have before := (pendingLeft _ _ found).1
          rw [none] at before
          cases before
    · rw [unwaiting] at waitingLeft
      exact List.sublist_nil.mp waitingLeft

theorem Invariant.pending_unique (holds : Invariant setup state) {messageId other : Nat}
    {pending request : PendingRequest}
    (found : state.pendingRequests.get? messageId = some pending)
    (left : state.pendingRequests.get? other = some request)
    (same : request.call = pending.call) : messageId = other := by
  have number := (holds.pending other request left).number
  rw [same, (holds.pending messageId pending found).number] at number
  exact Option.some.inj number

theorem Invariant.waiting_ne (holds : Invariant setup state) {messageId : Nat}
    {pending : PendingRequest} (found : state.pendingRequests.get? messageId = some pending)
    {waiting : WaitingCall} (member : waiting ∈ state.waiting) : waiting.call ≠ pending.call := by
  intro same
  obtain ⟨waits, none⟩ := holds.waiting waiting member
  have number := waits.number
  rw [same, (holds.pending messageId pending found).number] at number
  rw [← Option.some.inj number, found] at none
  cases none

theorem Invariant.settlePending (holds : Invariant setup state)
    {lost : List (Nat × PendingRequest)} (distinct : lost.Nodup)
    (isPending : ∀ entry ∈ lost, state.pendingRequests.get? entry.1 = some entry.2)
    {pendingRequests : OrderedMap Nat PendingRequest}
    (kept : ∀ messageId pending, pendingRequests.get? messageId = some pending →
      state.pendingRequests.get? messageId = some pending ∧ (messageId, pending) ∉ lost)
    {outcome : Nat × PendingRequest → Outcome}
    (own : ∀ entry ∈ lost, ∀ sender number type, outcome entry = .message sender number type →
      entry.1 = number ∧ entry.2.plugin = sender) :
    Invariant setup { state with
      pendingRequests
      settled := state.settled ++ lost.map fun entry => (entry.2.call, outcome entry) } := by
  have calls : (lost.map fun entry => (entry.2.call, outcome entry)).map Prod.fst =
      lost.map fun entry => entry.2.call := by
    rw [List.map_map]
    rfl
  refine holds.settleAll ?_ ?_ ?_ ?_ (.refl _) ?_ holds.opening
  · rw [calls]
    refine List.Nodup.map_on (fun first isFirst second isSecond same => ?_) distinct
    have keys := holds.pending_unique (isPending second isSecond) (isPending first isFirst) same
    have values := isPending first isFirst
    rw [← keys, isPending second isSecond] at values
    exact Prod.ext keys.symm (Option.some.inj values).symm
  · intro entry member
    obtain ⟨request, isLost, rfl⟩ := List.mem_map.mp member
    have isOpen := holds.pending _ _ (isPending request isLost)
    exact ⟨isOpen.lt, isOpen.unsettled⟩
  · intro call sender number type member
    obtain ⟨request, isLost, same⟩ := List.mem_map.mp member
    obtain ⟨rfl, outcomes⟩ := Prod.mk.inj same
    obtain ⟨rfl, rfl⟩ := own request isLost sender number type outcomes
    exact (holds.pending _ _ (isPending request isLost)).known
  · intro messageId pending left
    obtain ⟨before, notLost⟩ := kept messageId pending left
    refine ⟨before, fun member => notLost ?_⟩
    rw [calls] at member
    obtain ⟨request, isLost, same⟩ := List.mem_map.mp member
    have found := isPending request isLost
    obtain rfl := holds.pending_unique before found same
    rw [before] at found
    rw [Option.some.inj found]
    exact isLost
  · intro left waits member
    rw [calls] at member
    obtain ⟨request, isLost, same⟩ := List.mem_map.mp member
    exact holds.waiting_ne (isPending request isLost) waits same.symm

theorem Invariant.settleOne (holds : Invariant setup state) {messageId : Nat}
    {pending : PendingRequest} (found : state.pendingRequests.get? messageId = some pending)
    {outcome : Outcome} (own : ∀ sender number type, outcome = .message sender number type →
      messageId = number ∧ pending.plugin = sender) :
    Invariant setup (({ state with
      pendingRequests := state.pendingRequests.erase messageId } : Orchestrator).settle
        pending.call outcome) := by
  refine @Invariant.settlePending _ _ holds [(messageId, pending)] (List.nodup_singleton _) ?_ _ ?_
    (fun _ => outcome) ?_
  · intro entry member
    obtain rfl := List.mem_singleton.mp member
    exact found
  · intro other request left
    rw [OrderedMap.get?_erase] at left
    split at left
    · cases left
    · next different =>
        refine ⟨left, fun member => different ?_⟩
        exact congrArg Prod.fst (List.mem_singleton.mp member)
  · intro entry member
    obtain rfl := List.mem_singleton.mp member
    exact own

theorem Invariant.exited (holds : Invariant setup state) (configName : String) :
    Invariant setup (state.exited configName) := by
  refine @Invariant.settlePending _ _ holds _ ?_ ?_ _ ?_ (fun _ => Outcome.exited) ?_
  · exact (List.Nodup.of_map _ state.pendingRequests.nodupKeys).filter _
  · intro entry member
    exact OrderedMap.mem_entries_iff.mp (List.mem_filter.mp member).1
  · intro messageId pending left
    rw [OrderedMap.get?_filter] at left
    obtain ⟨found, kept⟩ := Option.filter_eq_some_iff.mp left
    refine ⟨found, fun member => ?_⟩
    have lost := (List.mem_filter.mp member).2
    simp only [decide_eq_true_eq] at kept lost
    exact kept lost
  · intro entry _ sender number type same
    cases same

theorem Invariant.receive (holds : Invariant setup state) {plugin : String} {messageId : Nat}
    (own : ∀ pending, state.pendingRequests.get? messageId = some pending →
      pending.plugin = plugin) (type : MessageType) :
    Invariant setup (state.receive plugin messageId type) := by
  rw [Orchestrator.receive]
  split
  · exact holds
  · next pending found =>
      refine holds.settleOne found fun sender number kind same => ?_
      cases same
      exact ⟨rfl, own pending found⟩

theorem Invariant.timeout (holds : Invariant setup state) (messageId : Nat) :
    Invariant setup (state.timeout messageId) := by
  rw [Orchestrator.timeout]
  split
  · exact holds
  · next pending found =>
      refine holds.settleOne found fun sender number kind same => ?_
      cases same

theorem hasConnection_modify {index other : Nat} {plugin name : String}
    {before after current : ReadyState} (found : state.HasConnection index plugin before) :
    (state.setReadyState index after).HasConnection other name current ↔
      (other = index ∧ name = plugin ∧ current = after) ∨
        (other ≠ index ∧ state.HasConnection other name current) := by
  rw [HasConnection] at found
  rw [HasConnection, HasConnection, setReadyState, List.getElem?_modify]
  by_cases same : index = other
  · subst same
    rw [found]
    simp [Connection.mk.injEq, eq_comm]
  · have different : other ≠ index := fun equal => same equal.symm
    cases state.connections[other]? <;> simp [same, different]

theorem Invariant.down (holds : Invariant setup state) {index : Nat} {plugin : String}
    {before after : ReadyState} (found : state.HasConnection index plugin before)
    (up : before ≠ .closed) (isDown : after = .closing ∨ after = .closed)
    {wsConnections : OrderedMap String Nat}
    (pool : ∀ name, name ≠ plugin → wsConnections.get? name = state.wsConnections.get? name) :
    Invariant setup { state.setReadyState index after with wsConnections } where
  once := holds.once
  known := holds.known
  own := holds.own
  transport := holds.transport
  numbered := holds.numbered
  counted := holds.counted
  pending := fun messageId pending left =>
    ⟨(holds.pending messageId pending left).known, (holds.pending messageId pending left).unsettled⟩
  waiting := fun left member =>
    ⟨⟨(holds.waiting left member).1.known, (holds.waiting left member).1.unsettled⟩,
      (holds.waiting left member).2⟩
  waitingOnce := holds.waitingOnce
  waitingTransport := holds.waitingTransport
  pooled := by
    intro other name isOpen
    rcases (hasConnection_modify found).mp isOpen with ⟨_, _, rfl⟩ | ⟨different, isOpen⟩
    · rcases isDown with down | down <;> cases down
    · have names : name ≠ plugin := by
        rintro rfl
        exact different (holds.alone other index name .open before isOpen found ReadyState.noConfusion
          up)
      exact (pool name names).trans (holds.pooled other name isOpen)
  alone := by
    intro first second name firstState secondState isFirst isSecond firstUp secondUp
    rcases (hasConnection_modify found).mp isFirst with ⟨rfl, rfl, rfl⟩ | ⟨_, firstBefore⟩
    · rcases (hasConnection_modify found).mp isSecond with ⟨rfl, _, rfl⟩ | ⟨_, secondBefore⟩
      · rfl
      · exact holds.alone _ _ _ _ _ found secondBefore up secondUp
    · rcases (hasConnection_modify found).mp isSecond with ⟨rfl, rfl, rfl⟩ | ⟨_, secondBefore⟩
      · exact holds.alone _ _ _ _ _ firstBefore found firstUp up
      · exact holds.alone _ _ _ _ _ firstBefore secondBefore firstUp secondUp
  opening := by
    intro other name isOpening
    rcases (hasConnection_modify found).mp isOpening with ⟨_, _, rfl⟩ | ⟨_, isOpening⟩
    · rcases isDown with down | down <;> cases down
    · exact holds.opening other name isOpening
  quiet := by
    intro closed
    obtain ⟨none, unwaiting, stdin, unopen⟩ := holds.quiet closed
    refine ⟨none, unwaiting, stdin, fun other name isOpen => ?_⟩
    rcases (hasConnection_modify found).mp isOpen with ⟨_, _, rfl⟩ | ⟨_, isOpen⟩
    · rcases isDown with down | down <;> cases down
    · exact unopen other name isOpen

theorem Invariant.closing (holds : Invariant setup state) (index : Nat) :
    Invariant setup (state.closing index) := by
  rw [Orchestrator.closing]
  split
  · next plugin found =>
      exact @Invariant.down _ _ holds index plugin .open .closing found ReadyState.noConfusion
        (.inl rfl) state.wsConnections fun _ _ => rfl
  · exact holds

theorem Invariant.closedEvent (holds : Invariant setup state) (index : Nat) :
    Invariant setup (state.closedEvent index) := by
  rw [Orchestrator.closedEvent]
  split
  · next plugin found =>
      exact @Invariant.down _ _ holds index plugin .closing .closed found ReadyState.noConfusion
        (.inr rfl) _ fun name different =>
          OrderedMap.get?_erase_of_ne _ different
  · exact holds

theorem Invariant.failed (holds : Invariant setup state) (index : Nat) :
    Invariant setup (state.failed index) := by
  rw [Orchestrator.failed]
  split
  · exact holds
  · exact holds
  · next plugin before notClosed found =>
      have up : before ≠ .closed := by
        rintro rfl
        exact notClosed rfl
      have down := @Invariant.down _ _ holds index plugin before .closing found up (.inl rfl)
        (state.wsConnections.erase plugin) fun name different =>
          OrderedMap.get?_erase_of_ne _ different
      have calls : ∀ lost : List WaitingCall,
          (lost.map fun waiting => (waiting.call, Outcome.connectionFailed)).map Prod.fst =
            lost.map WaitingCall.call := by
        intro lost
        rw [List.map_map]
        rfl
      refine down.settleAll ?_ ?_ ?_ ?_ List.filter_sublist ?_ ?_
      · rw [calls]
        exact holds.waitingOnce.sublist (List.filter_sublist.map _)
      · intro entry member
        obtain ⟨waiting, isLost, rfl⟩ := List.mem_map.mp member
        have isOpen := (holds.waiting waiting (List.mem_filter.mp isLost).1).1
        exact ⟨isOpen.lt, isOpen.unsettled⟩
      · intro call sender number type member
        obtain ⟨waiting, _, same⟩ := List.mem_map.mp member
        cases (Prod.mk.inj same).2
      · intro messageId pending left
        refine ⟨left, fun member => ?_⟩
        rw [calls] at member
        obtain ⟨waiting, isLost, same⟩ := List.mem_map.mp member
        exact holds.waiting_ne left (List.mem_filter.mp isLost).1 same
      · intro left member lost
        rw [calls] at lost
        obtain ⟨waiting, isLost, same⟩ := List.mem_map.mp lost
        have waits := List.mem_filter.mp member
        have equal := List.inj_on_of_nodup_map holds.waitingOnce (List.mem_filter.mp isLost).1
          waits.1 same
        have stays := waits.2
        rw [← equal, (List.mem_filter.mp isLost).2] at stays
        cases stays
      · intro other name isOpening
        rcases (hasConnection_modify found).mp isOpening with ⟨_, _, same⟩ | ⟨different, isOpening⟩
        · cases same
        · obtain ⟨waiting, waits, same, unopened⟩ := holds.opening other name isOpening
          refine ⟨waiting, List.mem_filter.mpr ⟨waits, ?_⟩, same, unopened⟩
          rw [same, unopened]
          simp [different]

theorem Invariant.opened (holds : Invariant setup state) (index : Nat) :
    Invariant setup (state.opened index) := by
  rw [Orchestrator.opened]
  split
  swap
  · exact holds
  next plugin found =>
  obtain ⟨first, firstWaits, _⟩ := holds.opening index plugin found
  have calls : (state.waiting.map fun waiting =>
      if waiting.connection = index then { waiting with opened := true } else waiting).map
        WaitingCall.call = state.waiting.map WaitingCall.call := by
    rw [List.map_map]
    refine List.map_congr_left fun waiting _ => ?_
    simp only [Function.comp_apply]
    split <;> rfl
  have marked : ∀ waiting ∈ state.waiting.map fun waiting =>
      if waiting.connection = index then { waiting with opened := true } else waiting,
        ∃ before ∈ state.waiting, waiting.call = before.call ∧
          waiting.messageId = before.messageId ∧ waiting.plugin = before.plugin := by
    intro waiting member
    obtain ⟨before, waits, rfl⟩ := List.mem_map.mp member
    refine ⟨before, waits, ?_⟩
    split <;> exact ⟨rfl, rfl, rfl⟩
  exact {
    once := holds.once
    known := holds.known
    own := holds.own
    transport := holds.transport
    numbered := holds.numbered
    counted := holds.counted
    pending := fun messageId pending left => ⟨(holds.pending messageId pending left).known,
      (holds.pending messageId pending left).unsettled⟩
    waiting := by
      intro waiting member
      obtain ⟨before, waits, call, number, name⟩ := marked waiting member
      obtain ⟨isOpen, none⟩ := holds.waiting before waits
      rw [call, number, name]
      exact ⟨⟨isOpen.known, isOpen.unsettled⟩, none⟩
    waitingOnce := by
      rw [calls]
      exact holds.waitingOnce
    waitingTransport := by
      intro waiting member
      obtain ⟨before, waits, _, _, name⟩ := marked waiting member
      rw [name]
      exact holds.waitingTransport before waits
    pooled := by
      intro other name isOpen
      rcases (hasConnection_modify found).mp isOpen with ⟨rfl, rfl, _⟩ | ⟨different, openBefore⟩
      · exact OrderedMap.get?_set_self _ _ _
      · have names : name ≠ plugin := by
          rintro rfl
          exact different (holds.alone _ _ _ _ _ openBefore found ReadyState.noConfusion
            ReadyState.noConfusion)
        exact (OrderedMap.get?_set_of_ne _ _ names).trans (holds.pooled other name openBefore)
    alone := by
      intro first second name firstState secondState isFirst isSecond firstUp secondUp
      rcases (hasConnection_modify found).mp isFirst with ⟨rfl, rfl, rfl⟩ | ⟨_, firstBefore⟩
      · rcases (hasConnection_modify found).mp isSecond with ⟨rfl, _, rfl⟩ | ⟨_, secondBefore⟩
        · rfl
        · exact holds.alone _ _ _ _ _ found secondBefore ReadyState.noConfusion secondUp
      · rcases (hasConnection_modify found).mp isSecond with ⟨rfl, rfl, rfl⟩ | ⟨_, secondBefore⟩
        · exact holds.alone _ _ _ _ _ firstBefore found firstUp ReadyState.noConfusion
        · exact holds.alone _ _ _ _ _ firstBefore secondBefore firstUp secondUp
    opening := by
      intro other name isOpening
      rcases (hasConnection_modify found).mp isOpening with ⟨_, _, same⟩ | ⟨different, before⟩
      · cases same
      · obtain ⟨waiting, waits, same, unopened⟩ := holds.opening other name before
        refine ⟨waiting, List.mem_map.mpr ⟨waiting, waits, if_neg ?_⟩, same, unopened⟩
        rw [same]
        exact different
    quiet := by
      intro closed
      have unwaiting := (holds.quiet closed).2.1
      rw [unwaiting] at firstWaits
      exact absurd firstWaits List.not_mem_nil }

theorem Invariant.send (holds : Invariant setup state) {transport : Transport}
    {call messageId : Nat} {plugin hook : String} (isOpen : state.Open call messageId plugin)
    (fits : ∀ found, setup.find? plugin = some found → transport = setup.transport found)
    (running : state.closed = false) {waiting : List WaitingCall}
    (left : waiting.Sublist state.waiting) (others : ∀ other ∈ waiting, other.call ≠ call)
    (opening : ∀ index name, state.HasConnection index name .connecting →
      ∃ other ∈ waiting, other.connection = index ∧ other.opened = false) :
    Invariant setup
      (({ state with waiting } : Orchestrator).send transport call messageId hook plugin) where
  once := holds.once
  known := holds.known
  own := holds.own
  transport := by
    intro request member
    rcases List.mem_append.mp member with before | added
    · exact holds.transport request before
    · obtain rfl := List.mem_singleton.mp added
      exact fits
  numbered := holds.numbered
  counted := holds.counted
  pending := by
    intro other pending found
    rw [Orchestrator.send, OrderedMap.get?_set] at found
    split at found
    · next same =>
        obtain rfl := Option.some.inj found
        rw [same]
        exact ⟨isOpen.known, isOpen.unsettled⟩
    · exact ⟨(holds.pending other pending found).known, (holds.pending other pending found).unsettled⟩
  waiting := by
    intro other member
    obtain ⟨waits, none⟩ := holds.waiting other (left.subset member)
    refine ⟨⟨waits.known, waits.unsettled⟩, ?_⟩
    have different : other.messageId ≠ messageId := by
      intro same
      have number := isOpen.number
      rw [← same] at number
      exact others other member (holds.numbered _ _ _ waits.number number)
    exact (OrderedMap.get?_set_of_ne _ _ different).trans none
  waitingOnce := holds.waitingOnce.sublist (left.map _)
  waitingTransport := fun other member => holds.waitingTransport other (left.subset member)
  pooled := holds.pooled
  alone := holds.alone
  opening := opening
  quiet := by
    intro closed
    rw [show state.closed = true from closed] at running
    cases running

theorem Invariant.proceed (holds : Invariant setup state) (call : Nat) :
    Invariant setup (state.proceed call) := by
  rw [Orchestrator.proceed]
  split
  · exact holds
  next waiting found =>
  have waits := List.mem_of_find?_eq_some found
  have isCall := List.find?_some found
  simp only [Bool.and_eq_true, decide_eq_true_eq] at isCall
  obtain ⟨rfl, isOpened⟩ := isCall
  refine holds.send (holds.waiting waiting waits).1 ?_ ?_ List.filter_sublist ?_ ?_
  · intro plugin isPlugin
    exact (holds.waitingTransport waiting waits plugin isPlugin).symm
  · cases closed : state.closed with
    | false => rfl
    | true =>
        rw [(holds.quiet closed).2.1] at waits
        exact absurd waits List.not_mem_nil
  · intro other member
    exact of_decide_eq_true (List.mem_filter.mp member).2
  · intro index name isOpening
    obtain ⟨other, otherWaits, same, unopened⟩ := holds.opening index name isOpening
    refine ⟨other, List.mem_filter.mpr ⟨otherWaits, decide_eq_true fun calls => ?_⟩, same, unopened⟩
    have equal := List.inj_on_of_nodup_map holds.waitingOnce otherWaits waits calls
    rw [equal, isOpened] at unopened
    cases unopened

theorem Invariant.called (holds : Invariant setup state) (plugin hook : String)
    {number : Option Nat} {counter : Nat} (grows : state.messageCounter ≤ counter)
    (next : ∀ messageId, number = some messageId →
      state.messageCounter < messageId ∧ messageId ≤ counter) :
    Invariant setup { state with
      messageCounter := counter, calls := state.calls ++ [⟨plugin, hook, number⟩] } := by
  have stays : ∀ (call : Nat) (found : Call), state.calls[call]? = some found →
      (state.calls ++ [⟨plugin, hook, number⟩])[call]? = some found := by
    intro call found before
    rw [List.getElem?_append_left (List.getElem?_eq_some_iff.mp before).1]
    exact before
  have numbers : ∀ call messageId, Orchestrator.numberOf { state with
      messageCounter := counter, calls := state.calls ++ [⟨plugin, hook, number⟩] } call =
        some messageId → state.numberOf call = some messageId ∨
          (call = state.calls.length ∧ number = some messageId) := by
    intro call messageId isNumber
    rw [numberOf, List.getElem?_append] at isNumber
    split at isNumber
    · exact .inl isNumber
    · next notBefore =>
        cases Nat.eq_or_lt_of_le (Nat.le_of_not_lt notBefore) with
        | inl same =>
            rw [← same, Nat.sub_self] at isNumber
            exact .inr ⟨same.symm, isNumber⟩
        | inr after =>
            rw [List.getElem?_eq_none (by simp; omega)] at isNumber
            cases isNumber
  exact {
    once := holds.once
    known := by
      intro call member
      rw [List.length_append]
      exact Nat.lt_add_right _ (holds.known call member)
    own := by
      intro call sender messageId type member
      obtain ⟨ownHook, found⟩ := holds.own call sender messageId type member
      exact ⟨ownHook, stays _ _ found⟩
    transport := holds.transport
    numbered := by
      intro call other messageId isCall isOther
      rcases numbers _ _ isCall with callBefore | ⟨callNew, callNumber⟩
      · rcases numbers _ _ isOther with otherBefore | ⟨_, otherNumber⟩
        · exact holds.numbered _ _ _ callBefore otherBefore
        · have := holds.counted _ _ callBefore
          have := next _ otherNumber
          omega
      · rcases numbers _ _ isOther with otherBefore | ⟨otherNew, _⟩
        · have := holds.counted _ _ otherBefore
          have := next _ callNumber
          omega
        · rw [callNew, otherNew]
    counted := by
      intro call messageId isCall
      rcases numbers _ _ isCall with before | ⟨_, isNumber⟩
      · exact Nat.le_trans (holds.counted _ _ before) grows
      · exact (next _ isNumber).2
    pending := by
      intro messageId pending found
      obtain ⟨⟨ownHook, isCall⟩, unsettled⟩ := holds.pending messageId pending found
      exact ⟨⟨ownHook, stays _ _ isCall⟩, unsettled⟩
    waiting := by
      intro waiting member
      obtain ⟨⟨⟨ownHook, isCall⟩, unsettled⟩, none⟩ := holds.waiting waiting member
      exact ⟨⟨⟨ownHook, stays _ _ isCall⟩, unsettled⟩, none⟩
    waitingOnce := holds.waitingOnce
    waitingTransport := holds.waitingTransport
    pooled := holds.pooled
    alone := holds.alone
    opening := holds.opening
    quiet := holds.quiet }

theorem Invariant.new_unsettled (holds : Invariant setup state) :
    state.calls.length ∉ state.settled.map Prod.fst :=
  fun member => Nat.lt_irrefl _ (holds.known _ member)

theorem Invariant.new_ne (holds : Invariant setup state) {waiting : WaitingCall}
    (member : waiting ∈ state.waiting) : waiting.call ≠ state.calls.length :=
  Nat.ne_of_lt (holds.waiting waiting member).1.lt

theorem Invariant.reject (holds : Invariant setup state) {call : Nat}
    (known : call < state.calls.length) (unsettled : call ∉ state.settled.map Prod.fst)
    (unregistered : ∀ messageId pending, state.pendingRequests.get? messageId = some pending →
      pending.call ≠ call)
    (unwaiting : ∀ waiting ∈ state.waiting, waiting.call ≠ call) {outcome : Outcome}
    (own : ∀ sender number type, outcome ≠ .message sender number type) :
    Invariant setup (state.settle call outcome) := by
  refine @Invariant.settleAll _ _ holds [(call, outcome)] state.pendingRequests state.waiting
    (List.nodup_singleton _) ?_ ?_ ?_ (.refl _) ?_ holds.opening
  · intro entry member
    obtain rfl := List.mem_singleton.mp member
    exact ⟨known, unsettled⟩
  · intro other sender number type member
    exact absurd (congrArg Prod.snd (List.mem_singleton.mp member)).symm (own sender number type)
  · intro messageId pending found
    exact ⟨found, fun member => unregistered messageId pending found (List.mem_singleton.mp member)⟩
  · intro left waits member
    exact unwaiting left waits (List.mem_singleton.mp member)

theorem Invariant.awaitWS (holds : Invariant setup state) {call messageId : Nat}
    {hook plugin : String} (isOpen : state.Open call messageId plugin)
    (unregistered : state.pendingRequests.get? messageId = none)
    (unwaiting : ∀ waiting ∈ state.waiting, waiting.call ≠ call)
    (fits : ∀ found, setup.find? plugin = some found → setup.transport found = .websocket)
    (running : state.closed = false)
    (settledDown : ∀ connection ∈ state.connections, connection.plugin = plugin →
      connection.readyState = .open ∨ connection.readyState = .closed) :
    Invariant setup (state.awaitWS call messageId hook plugin) := by
  have waiting : ∀ (connection : Nat) (opened : Bool), ∀ other ∈ state.waiting ++
      [({ call, messageId, hook, plugin, connection, opened } : WaitingCall)],
        state.Open other.call other.messageId other.plugin ∧
          state.pendingRequests.get? other.messageId = none ∧
            ∀ found, setup.find? other.plugin = some found → setup.transport found = .websocket := by
    intro connection opened other member
    rcases List.mem_append.mp member with before | added
    · exact ⟨(holds.waiting other before).1, (holds.waiting other before).2,
        holds.waitingTransport other before⟩
    · obtain rfl := List.mem_singleton.mp added
      exact ⟨isOpen, unregistered, fits⟩
  have waitingOnce : ∀ (connection : Nat) (opened : Bool), ((state.waiting ++
      [({ call, messageId, hook, plugin, connection, opened } : WaitingCall)]).map
        WaitingCall.call).Nodup := by
    intro connection opened
    rw [List.map_append, List.nodup_append]
    refine ⟨holds.waitingOnce, List.nodup_singleton _, ?_⟩
    intro other member last isLast same
    obtain ⟨before, waits, rfl⟩ := List.mem_map.mp member
    exact unwaiting before waits (same.trans (List.mem_singleton.mp isLast))
  rw [Orchestrator.awaitWS]
  split
  · next connection _ =>
    exact { holds with
      pending := fun id pending found => ⟨(holds.pending id pending found).known,
        (holds.pending id pending found).unsettled⟩
      waiting := fun other member => ⟨⟨(waiting _ _ other member).1.known,
        (waiting _ _ other member).1.unsettled⟩, (waiting _ _ other member).2.1⟩
      waitingOnce := waitingOnce _ _
      waitingTransport := fun other member => (waiting _ _ other member).2.2
      opening := by
        intro index name isOpening
        obtain ⟨other, waits, rest⟩ := holds.opening index name isOpening
        exact ⟨other, List.mem_append_left _ waits, rest⟩
      quiet := by
        intro closed
        rw [show state.closed = true from closed] at running
        cases running }
  · next unpooled =>
    have down : ∀ index readyState, state.HasConnection index plugin readyState →
        readyState = .closed := by
      intro index readyState found
      rcases settledDown _ (List.mem_of_getElem? found) rfl with up | down
      · obtain rfl : readyState = .open := up
        rw [openConnection?, holds.pooled index plugin found, Option.filter_some] at unpooled
        rw [HasConnection] at found
        rw [found] at unpooled
        simp at unpooled
      · exact down
    have connections : ∀ index name readyState,
        Orchestrator.HasConnection { state with
          connections := state.connections ++ [{ plugin, readyState := .connecting }]
          waiting := state.waiting ++ [{ call, messageId, hook, plugin
                                         connection := state.connections.length, opened := false }] }
          index name readyState →
        state.HasConnection index name readyState ∨
          (index = state.connections.length ∧ name = plugin ∧ readyState = .connecting) := by
      intro index name readyState found
      rw [HasConnection, List.getElem?_append] at found
      split at found
      · exact .inl found
      · next notBefore =>
          have last := (List.getElem?_eq_some_iff.mp found).1
          simp only [List.length_singleton] at last
          have same : index = state.connections.length := by omega
          rw [same, Nat.sub_self] at found
          have equal := Option.some.inj found
          exact .inr ⟨same, (congrArg Connection.plugin equal).symm,
            (congrArg Connection.readyState equal).symm⟩
    exact { holds with
      pending := fun id pending found => ⟨(holds.pending id pending found).known,
        (holds.pending id pending found).unsettled⟩
      waiting := fun other member => ⟨⟨(waiting _ _ other member).1.known,
        (waiting _ _ other member).1.unsettled⟩, (waiting _ _ other member).2.1⟩
      waitingOnce := waitingOnce _ _
      waitingTransport := fun other member => (waiting _ _ other member).2.2
      pooled := by
        intro index name isUp
        rcases connections index name .open isUp with before | ⟨_, _, same⟩
        · exact holds.pooled index name before
        · cases same
      alone := by
        intro first second name firstState secondState isFirst isSecond firstUp secondUp
        rcases connections _ _ _ isFirst with firstBefore | ⟨firstLast, names, _⟩
        · rcases connections _ _ _ isSecond with secondBefore | ⟨_, names, _⟩
          · exact holds.alone _ _ _ _ _ firstBefore secondBefore firstUp secondUp
          · rw [names] at firstBefore
            exact absurd (down first firstState firstBefore) firstUp
        · rcases connections _ _ _ isSecond with secondBefore | ⟨secondLast, _, _⟩
          · rw [names] at secondBefore
            exact absurd (down second secondState secondBefore) secondUp
          · rw [firstLast, secondLast]
      opening := by
        intro index name isOpening
        rcases connections _ _ _ isOpening with before | ⟨last, _, _⟩
        · obtain ⟨other, waits, rest⟩ := holds.opening index name before
          exact ⟨other, List.mem_append_left _ waits, rest⟩
        · exact ⟨_, List.mem_append_right _ (List.mem_singleton.mpr rfl), last.symm, rfl⟩
      quiet := by
        intro closed
        rw [show state.closed = true from closed] at running
        cases running }

theorem Invariant.invokeHook (holds : Invariant setup state) {plugin : String} (hook : String)
    (careful : state.Careful setup (.invoke plugin hook)) :
    Invariant setup (state.invokeHook setup plugin hook) := by
  have pendingOther : ∀ messageId pending,
      state.pendingRequests.get? messageId = some pending → pending.call ≠ state.calls.length :=
    fun messageId pending found => Nat.ne_of_lt (holds.pending messageId pending found).lt
  rw [Orchestrator.invokeHook]
  split
  · have called := @Invariant.called _ _ holds plugin hook none state.messageCounter
      (Nat.le_refl _) (fun _ same => by cases same)
    exact called.reject (by simp) holds.new_unsettled pendingOther
      (fun _ member => holds.new_ne member) (fun _ _ _ => Outcome.noConfusion)
  · next registered found =>
    obtain ⟨fits, ready⟩ := careful registered found
    have called := @Invariant.called _ _ holds plugin hook (some (state.messageCounter + 1))
      (state.messageCounter + 1) (Nat.le_succ _) (fun messageId same => by
        cases same
        exact ⟨Nat.lt_succ_self _, Nat.le_refl _⟩)
    have isOpen : Open { state with
        messageCounter := state.messageCounter + 1
        calls := state.calls ++ [⟨plugin, hook, some (state.messageCounter + 1)⟩] }
          state.calls.length (state.messageCounter + 1) plugin :=
      ⟨⟨hook, List.getElem?_concat_length⟩, holds.new_unsettled⟩
    have same : ∀ other, setup.find? plugin = some other → other = registered := by
      intro other isOther
      rw [found] at isOther
      exact (Option.some.inj isOther).symm
    simp only
    split
    · next stdio =>
      split
      · next listening =>
        refine called.send isOpen ?_ ?_ (.refl _) (fun _ member => holds.new_ne member) holds.opening
        · intro other isOther
          rw [same other isOther, fits, Setup.requestTransport, if_pos stdio]
        · cases closed : state.closed with
          | false => rfl
          | true =>
              have listens : plugin ∈ state.stdioStdin := listening
              rw [(holds.quiet closed).2.2.1] at listens
              exact absurd listens List.not_mem_nil
      · exact called.reject (by simp) holds.new_unsettled pendingOther
          (fun _ member => holds.new_ne member) (fun _ _ _ => Outcome.noConfusion)
    · next websocket =>
      obtain ⟨running, settledDown⟩ := ready (by simpa using websocket)
      refine called.awaitWS isOpen ?_ (fun _ member => holds.new_ne member) ?_ running settledDown
      · cases registeredBefore : state.pendingRequests.get? (state.messageCounter + 1) with
        | none => rfl
        | some pending =>
            have := holds.counted _ _ (holds.pending _ _ registeredBefore).number
            omega
      · intro other isOther
        rw [same other isOther, fits, Setup.requestTransport, if_neg websocket]

theorem Invariant.close (holds : Invariant setup state) (unwaiting : state.waiting = []) :
    Invariant setup state.close := by
  have settled := @Invariant.settlePending _ _ holds state.pendingRequests.entries
    (List.Nodup.of_map _ state.pendingRequests.nodupKeys)
    (fun entry member => OrderedMap.mem_entries_iff.mp member) ∅
    (fun _ _ found => by cases found) (fun _ => .closed)
    (fun _ _ _ _ _ same => Outcome.noConfusion same)
  have before : ∀ index plugin readyState, state.close.HasConnection index plugin readyState →
      readyState ≠ .open ∧ (readyState = .connecting → state.HasConnection index plugin readyState) ∧
        (readyState ≠ .closed → ∃ up, up ≠ .closed ∧ state.HasConnection index plugin up) := by
    intro index plugin readyState found
    rw [HasConnection, Orchestrator.close, List.getElem?_mapIdx] at found
    obtain ⟨⟨name, old⟩, isOld, changed⟩ := Option.map_eq_some_iff.mp found
    split at changed
    · next pooled =>
        obtain ⟨rfl, rfl⟩ := Connection.mk.inj changed
        exact ⟨ReadyState.noConfusion, ReadyState.noConfusion,
          fun _ => ⟨.open, ReadyState.noConfusion, pooled.2 ▸ isOld⟩⟩
    · next stays =>
        obtain ⟨rfl, rfl⟩ := Connection.mk.inj changed
        refine ⟨?_, fun _ => isOld, fun up => ⟨old, up, isOld⟩⟩
        rintro rfl
        have pooled := OrderedMap.mem_entries_iff.mpr (holds.pooled index name isOld)
        exact stays ⟨List.mem_map.mpr ⟨_, pooled, rfl⟩, rfl⟩
  exact { settled with
    pending := fun _ _ found => by cases found
    waiting := by
      intro waiting member
      rw [show state.close.waiting = [] from unwaiting] at member
      exact absurd member List.not_mem_nil
    pooled := fun index plugin isOpen => absurd rfl (before index plugin .open isOpen).1
    alone := by
      intro first second name firstState secondState isFirst isSecond firstUp secondUp
      obtain ⟨firstBefore, firstOpen, wasFirst⟩ := (before _ _ _ isFirst).2.2 firstUp
      obtain ⟨secondBefore, secondOpen, wasSecond⟩ := (before _ _ _ isSecond).2.2 secondUp
      exact holds.alone _ _ _ _ _ wasFirst wasSecond firstOpen secondOpen
    opening := by
      intro index name isOpening
      exact holds.opening index name ((before index name _ isOpening).2.1 rfl)
    quiet := fun _ => ⟨fun _ => rfl, unwaiting, rfl,
      fun index plugin isOpen => (before index plugin .open isOpen).1 rfl⟩ }

theorem Invariant.step (holds : Invariant setup state) {event : Event}
    (careful : state.Careful setup event) : Invariant setup (state.step setup event) := by
  cases event with
  | invoke plugin hook => exact holds.invokeHook hook careful
  | proceed call => exact holds.proceed call
  | opened connection => exact holds.opened connection
  | failed connection => exact holds.failed connection
  | closing connection => exact holds.closing connection
  | closedEvent connection => exact holds.closedEvent connection
  | wsMessage plugin messageId type => exact holds.receive careful type
  | stdioLine plugin messageId type =>
      cases type with
      | result => exact holds.receive careful .result
      | responseError => exact holds.receive careful .responseError
      | error => exact holds
      | other => exact holds
  | timeout messageId => exact holds.timeout messageId
  | exited configName => exact holds.exited configName
  | close => exact holds.close careful

theorem Invariant.run (holds : Invariant setup state) {events : List Event}
    (careful : CarefulRun setup state events) : Invariant setup (events.foldl (Orchestrator.step setup) state) := by
  induction events generalizing state with
  | nil => exact holds
  | cons event rest ih => exact ih (holds.step careful.1) careful.2

end Steps

theorem carefulRun_before {setup : Setup} {before rest : List Event} {state : Orchestrator}
    (careful : CarefulRun setup state (before ++ rest)) : CarefulRun setup state before := by
  induction before generalizing state with
  | nil => trivial
  | cons event later ih => exact ⟨careful.1, ih careful.2⟩

/-- In a run whose every event the orchestrator copes with, all its promises are kept all the
time. -/
theorem orderly_of_carefulRun (setup : Setup) (events : List Event)
    (careful : CarefulRun setup (start setup) events) :
    ∀ before rest, events = before ++ rest → Orderly setup (run setup before) := by
  rintro before rest rfl
  exact ((invariant_start setup).run (carefulRun_before careful)).orderly

/-- Two plugins that talk over websockets, and one that talks over stdio. -/
def twoSockets : Setup where
  useStdio := false
  plugins := [
    ⟨"houdini-core", "houdini-core", "houdini-core", false⟩,
    ⟨"houdini-svelte", "houdini-svelte", "houdini-svelte", false⟩,
    ⟨"houdini-wasm", "houdini-wasm", "houdini-wasm", true⟩]

/-- Three requests to two plugins: one is answered, one fails, and one takes too long. -/
def threeRequests : List Event :=
  [.invoke "houdini-core" "Schema", .opened 0, .proceed 0, .invoke "houdini-svelte" "Config",
    .invoke "houdini-core" "Validate", .proceed 2, .wsMessage "houdini-core" 3 .result, .opened 1,
    .proceed 1, .timeout 2, .wsMessage "houdini-core" 1 .error]

theorem orderly_of_carefulRun_threeRequests :
    Orderly twoSockets (run twoSockets threeRequests) :=
  orderly_of_carefulRun twoSockets (threeRequests ++ [.close]) (by decide +kernel) threeRequests
    [.close] rfl

/-- Two requests that are made at once open two connections, and `close` only finds the second. -/
theorem not_orderly_parallel :
    ¬ ∀ (setup : Setup) (events : List Event), Orderly setup (run setup events) := by
  intro orderly
  have quiet := (orderly twoSockets
    [.invoke "houdini-core" "Schema", .invoke "houdini-core" "Config", .opened 0, .opened 1,
      .proceed 0, .proceed 1, .wsMessage "houdini-core" 1 .result,
      .wsMessage "houdini-core" 2 .result, .close]).quiet (by decide +kernel)
  exact (quiet.2 ⟨"houdini-core", .open⟩ (by decide +kernel)).2 rfl

end Orchestrator

end Houdini.Codegen
