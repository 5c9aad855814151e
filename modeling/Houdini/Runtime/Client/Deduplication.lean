import Houdini.Data.OrderedMap
import Houdini.Runtime.Cache.Stuff

/-! The requests of a document that are in flight, and which of them are cancelled. -/

set_option autoImplicit false

namespace Houdini.Runtime.Client

mutual

def sortObject : GraphQLValue → GraphQLValue
  | .array items => .array (sortItems items)
  | .object fields =>
      .object ((sortFields fields).mergeSort fun left right => decide (left.1 ≤ right.1))
  | value => value

def sortItems : List GraphQLValue → List GraphQLValue
  | [] => []
  | item :: rest => sortObject item :: sortItems rest

def sortFields : List (String × GraphQLValue) → List (String × GraphQLValue)
  | [] => []
  | (name, value) :: rest => (name, sortObject value) :: sortFields rest

end

/-- `stableStringify`. Without a text for the value, the template prints `undefined`. -/
def stableStringify (value : GraphQLValue) : String :=
  String.ofList ((sortObject value).stringify.getD "undefined".toList)

inductive DedupeMatchMode where
  | variables
  | operation
  | none
  deriving DecidableEq, Repr

structure Dedupe where
  /-- `cancel === 'first'` -/
  cancelFirst : Bool
  matchMode : DedupeMatchMode
  deriving DecidableEq, Repr

/-- What `send` reads of an artifact to de-duplicate its requests. -/
structure DedupedArtifact where
  name : String
  dedupe : Option Dedupe
  deriving DecidableEq, Repr

def controllerKey (artifact : DedupedArtifact) (vars : GraphQLValue) : String :=
  let usedVariables :=
    match artifact.dedupe with
    | some dedupe => if dedupe.matchMode = .variables then vars else .object []
    | none => vars
  artifact.name ++ "@" ++ stableStringify usedVariables

/-- One call of `send`, with an abort controller of its own. -/
structure Request where
  vars : GraphQLValue
  aborted : Bool := false
  settled : Bool := false
  deriving DecidableEq, Repr

/-- All requests of the stores that share an artifact, by the order in which they were
sent, and the module's table of the ones in flight. -/
structure Inflight where
  inflightRequests : OrderedMap String Nat := ∅
  requests : List Request := []

inductive RequestEvent where
  /-- A store sends variables. A caller can pass a controller that was aborted before. -/
  | send (vars : GraphQLValue) (aborted : Bool)
  /-- Whoever holds the controller of a request aborts it. -/
  | abort (request : Nat)
  /-- The promise of a request is resolved or rejected. The variables are what the object
  that was sent holds by then. -/
  | settle (request : Nat) (vars : GraphQLValue)

namespace Inflight

def isAborted (inflight : Inflight) (request : Nat) : Bool :=
  ((inflight.requests[request]?).map (·.aborted)).getD false

def abort (inflight : Inflight) (request : Nat) : Inflight :=
  { inflight with
    requests := inflight.requests.modify request fun sent => { sent with aborted := true } }

def add (inflight : Inflight) (request : Request) : Inflight :=
  { inflight with requests := inflight.requests ++ [request] }

def register (inflight : Inflight) (key : String) (request : Nat) : Inflight :=
  { inflight with inflightRequests := inflight.inflightRequests.set key request }

/-- The part of `send` that comes before the plugins run. -/
def send (inflight : Inflight) (artifact : DedupedArtifact) (vars : GraphQLValue)
    (aborted : Bool) : Inflight :=
  let request := inflight.requests.length
  let sent := inflight.add { vars, aborted }
  match artifact.dedupe with
  | none => sent
  | some dedupe =>
      if dedupe.matchMode = .none then sent
      else
        let key := controllerKey artifact vars
        match inflight.inflightRequests.get? key with
        | none => sent.register key request
        | some existing =>
            if inflight.isAborted existing then sent.register key request
            else if dedupe.cancelFirst then (sent.abort existing).register key request
            else sent.abort request

/-- The `finally` of `send`. -/
def settle (inflight : Inflight) (artifact : DedupedArtifact) (request : Nat)
    (vars : GraphQLValue) : Inflight where
  requests := inflight.requests.modify request fun sent => { sent with settled := true }
  inflightRequests := inflight.inflightRequests.erase (controllerKey artifact vars)

def apply (inflight : Inflight) (artifact : DedupedArtifact) : RequestEvent → Option Inflight
  | .send vars aborted => some (inflight.send artifact vars aborted)
  | .abort request =>
      if request < inflight.requests.length then some (inflight.abort request) else none
  | .settle request vars =>
      match inflight.requests[request]? with
      | none => none
      | some sent => if sent.settled then none else some (inflight.settle artifact request vars)

def HasKey (inflight : Inflight) (artifact : DedupedArtifact) (request : Nat) (key : String) :
    Prop :=
  ∃ sent, inflight.requests[request]? = some sent ∧ controllerKey artifact sent.vars = key

def Live (inflight : Inflight) (request : Nat) : Prop :=
  ∃ sent, inflight.requests[request]? = some sent ∧ sent.settled = false ∧ sent.aborted = false

def Open (inflight : Inflight) (request : Nat) : Prop :=
  ∃ sent, inflight.requests[request]? = some sent ∧ sent.settled = false

def OneLive (inflight : Inflight) (artifact : DedupedArtifact) : Prop :=
  ∀ request other key, inflight.Live request → inflight.Live other →
    inflight.HasKey artifact request key → inflight.HasKey artifact other key → request = other

def Sends (artifact : DedupedArtifact) (event : RequestEvent) (key : String) : Prop :=
  ∃ vars aborted, event = .send vars aborted ∧ controllerKey artifact vars = key

/-- A request that an event aborts is aborted by its caller, or by a send of its key while
another request of that key is open: it is the one that is open, or the one that is sent. -/
def AbortsConcurrent (inflight : Inflight) (artifact : DedupedArtifact) (event : RequestEvent)
    (next : Inflight) : Prop :=
  ∀ request, next.isAborted request = true → inflight.isAborted request = false →
    event = .abort request ∨ (∃ vars, event = .send vars true ∧ request = inflight.requests.length) ∨
      ∃ key other, next.HasKey artifact request key ∧ Sends artifact event key ∧
        inflight.HasKey artifact other key ∧ inflight.Open other ∧
        (request = other ∨ request = inflight.requests.length)

/-- Once all requests of a key have settled, a send of the key is not aborted. -/
def SendsAfresh (inflight : Inflight) (artifact : DedupedArtifact) : Prop :=
  ∀ vars, (∀ request, inflight.HasKey artifact request (controllerKey artifact vars) →
      ¬ inflight.Open request) →
    (inflight.send artifact vars false).isAborted inflight.requests.length = false

/-- A request leaves the table to the live request in it, and its key has not changed. -/
def Permitted (inflight : Inflight) (artifact : DedupedArtifact) : RequestEvent → Prop
  | .send .. | .abort _ => True
  | .settle request vars =>
      inflight.HasKey artifact request (controllerKey artifact vars) ∧
        ∀ other, inflight.inflightRequests.get? (controllerKey artifact vars) = some other →
          other = request ∨ ¬ inflight.Live other

/-- The states that permitted events lead to. -/
inductive Run (artifact : DedupedArtifact) : Inflight → Prop
  | start : Run artifact {}
  | step {inflight next : Inflight} {event : RequestEvent} (run : Run artifact inflight)
      (permitted : inflight.Permitted artifact event)
      (applied : inflight.apply artifact event = some next) : Run artifact next

section Lookups

variable {artifact : DedupedArtifact} {inflight : Inflight} {request other : Nat} {key : String}
  {added : Request}

theorem getElem?_abort :
    (inflight.abort other).requests[request]? =
      (inflight.requests[request]?).map fun sent =>
        if other = request then { sent with aborted := true } else sent := by
  unfold abort
  rw [List.getElem?_modify]
  cases inflight.requests[request]? <;> rfl

theorem getElem?_add :
    (inflight.add added).requests[request]? =
      if request = inflight.requests.length then some added else inflight.requests[request]? := by
  unfold add
  rw [List.getElem?_append]
  grind

theorem hasKey_abort :
    (inflight.abort other).HasKey artifact request key ↔ inflight.HasKey artifact request key := by
  unfold HasKey
  rw [getElem?_abort]
  grind

theorem hasKey_add :
    (inflight.add added).HasKey artifact request key ↔
      if request = inflight.requests.length then controllerKey artifact added.vars = key
      else inflight.HasKey artifact request key := by
  unfold HasKey
  rw [getElem?_add]
  split <;> simp

theorem open_abort : (inflight.abort other).Open request ↔ inflight.Open request := by
  unfold Open
  rw [getElem?_abort]
  grind

theorem open_add :
    (inflight.add added).Open request ↔
      if request = inflight.requests.length then added.settled = false
      else inflight.Open request := by
  unfold Open
  rw [getElem?_add]
  split <;> simp

theorem live_abort : (inflight.abort other).Live request ↔ inflight.Live request ∧ request ≠ other := by
  unfold Live
  rw [getElem?_abort]
  grind

theorem live_add :
    (inflight.add added).Live request ↔
      if request = inflight.requests.length then added.settled = false ∧ added.aborted = false
      else inflight.Live request := by
  unfold Live
  rw [getElem?_add]
  split <;> simp

theorem isAborted_abort :
    (inflight.abort other).isAborted request = true ↔
      inflight.isAborted request = true ∨ (request = other ∧ request < inflight.requests.length) := by
  unfold isAborted
  rw [getElem?_abort]
  grind

theorem isAborted_add :
    (inflight.add added).isAborted request =
      if request = inflight.requests.length then added.aborted else inflight.isAborted request := by
  unfold isAborted
  rw [getElem?_add]
  split <;> simp

end Lookups

/-- The table holds the live request of every key, and only requests that are open. -/
structure Tracked (inflight : Inflight) (artifact : DedupedArtifact) : Prop where
  hasKey : ∀ key request, inflight.inflightRequests.get? key = some request →
    inflight.HasKey artifact request key
  isOpen : ∀ key request, inflight.inflightRequests.get? key = some request → inflight.Open request
  live : ∀ key request, inflight.Live request → inflight.HasKey artifact request key →
    inflight.inflightRequests.get? key = some request

section Runs

variable {artifact : DedupedArtifact} {dedupe : Dedupe} {inflight next : Inflight}

theorem HasKey.lt_length {request : Nat} {key : String}
    (hasKey : inflight.HasKey artifact request key) : request < inflight.requests.length := by
  obtain ⟨sent, found, _⟩ := hasKey
  exact (List.getElem?_eq_some_iff.mp found).1

theorem HasKey.unique {request : Nat} {key other : String}
    (hasKey : inflight.HasKey artifact request key)
    (otherKey : inflight.HasKey artifact request other) : key = other := by
  obtain ⟨sent, found, rfl⟩ := hasKey
  obtain ⟨again, same, rfl⟩ := otherKey
  rw [found] at same
  cases same
  rfl

theorem not_live_of_isAborted {request : Nat} (aborted : inflight.isAborted request = true) :
    ¬ inflight.Live request := by
  intro live
  obtain ⟨sent, found, _, running⟩ := live
  unfold isAborted at aborted
  rw [found, Option.map_some, Option.getD_some, running] at aborted
  cases aborted

theorem Tracked.oneLive (tracked : inflight.Tracked artifact) : inflight.OneLive artifact := by
  intro request other key live otherLive hasKey otherKey
  have entry := tracked.live key request live hasKey
  rw [tracked.live key other otherLive otherKey] at entry
  exact (Option.some.inj entry).symm

/-- Registering the request that was just sent keeps the table true, when no other
request of its key is live. -/
theorem Tracked.register_add (tracked : inflight.Tracked artifact) (vars : GraphQLValue)
    (aborted : Bool)
    (replaced : ∀ request, inflight.inflightRequests.get? (controllerKey artifact vars) =
      some request → ¬ inflight.Live request) :
    ((inflight.add { vars, aborted }).register (controllerKey artifact vars)
      inflight.requests.length).Tracked artifact where
  hasKey := by
    intro key request found
    change OrderedMap.get? (OrderedMap.set _ _ _) _ = _ at found
    change (inflight.add _).HasKey artifact request key
    rw [OrderedMap.get?_set] at found
    rw [hasKey_add]
    split at found
    · rename_i same
      cases found
      rw [if_pos rfl, same]
    · have old := tracked.hasKey key request found
      rw [if_neg (Nat.ne_of_lt old.lt_length)]
      exact old
  isOpen := by
    intro key request found
    change OrderedMap.get? (OrderedMap.set _ _ _) _ = _ at found
    change (inflight.add _).Open request
    rw [OrderedMap.get?_set] at found
    rw [open_add]
    split at found
    · cases found
      rw [if_pos rfl]
    · have old := (tracked.hasKey key request found).lt_length
      rw [if_neg (Nat.ne_of_lt old)]
      exact tracked.isOpen key request found
  live := by
    intro key request live hasKey
    change (inflight.add _).Live request at live
    change (inflight.add _).HasKey artifact request key at hasKey
    change OrderedMap.get? (OrderedMap.set _ _ _) _ = _
    rw [live_add] at live
    rw [hasKey_add] at hasKey
    rw [OrderedMap.get?_set]
    split at live
    · rename_i added
      rw [if_pos added] at hasKey
      rw [if_pos hasKey.symm, added]
    · rename_i old
      rw [if_neg old] at hasKey
      have entry := tracked.live key request live hasKey
      split
      · rename_i same
        rw [same] at entry
        exact absurd live (replaced request entry)
      · exact entry

theorem Tracked.abort (tracked : inflight.Tracked artifact) (request : Nat) :
    (inflight.abort request).Tracked artifact where
  hasKey := fun key entry found => hasKey_abort.mpr (tracked.hasKey key entry found)
  isOpen := fun key entry found => open_abort.mpr (tracked.isOpen key entry found)
  live := fun key entry live hasKey =>
    tracked.live key entry (live_abort.mp live).1 (hasKey_abort.mp hasKey)

theorem Tracked.add_abort (tracked : inflight.Tracked artifact) (added : Request) :
    ((inflight.add added).abort inflight.requests.length).Tracked artifact where
  hasKey := by
    intro key request found
    have old := tracked.hasKey key request found
    rw [hasKey_abort, hasKey_add, if_neg (Nat.ne_of_lt old.lt_length)]
    exact old
  isOpen := by
    intro key request found
    have old := tracked.hasKey key request found
    rw [open_abort, open_add, if_neg (Nat.ne_of_lt old.lt_length)]
    exact tracked.isOpen key request found
  live := by
    intro key request live hasKey
    rw [live_abort, live_add] at live
    rw [hasKey_abort, hasKey_add, if_neg live.2] at hasKey
    rw [if_neg live.2] at live
    exact tracked.live key request live.1 hasKey

theorem send_cases (configured : artifact.dedupe = some dedupe) (matched : dedupe.matchMode ≠ .none)
    (vars : GraphQLValue) (aborted : Bool) :
    let key := controllerKey artifact vars
    let request := inflight.requests.length
    let sent := inflight.add { vars, aborted }
    ((∀ existing, inflight.inflightRequests.get? key = some existing →
        inflight.isAborted existing = true) ∧
      inflight.send artifact vars aborted = sent.register key request) ∨
    ∃ existing, inflight.inflightRequests.get? key = some existing ∧
      inflight.isAborted existing = false ∧
      (inflight.send artifact vars aborted = (sent.abort existing).register key request ∨
        inflight.send artifact vars aborted = sent.abort request) := by
  dsimp only
  unfold send
  rw [configured]
  simp only [matched, if_false]
  cases found : inflight.inflightRequests.get? (controllerKey artifact vars) with
  | none => exact .inl ⟨nofun, rfl⟩
  | some existing =>
      dsimp only
      cases running : inflight.isAborted existing with
      | true =>
          refine .inl ⟨?_, rfl⟩
          intro other same
          cases same
          exact running
      | false =>
          refine .inr ⟨existing, rfl, running, ?_⟩
          simp only [Bool.false_eq_true, if_false]
          cases dedupe.cancelFirst with
          | true => exact .inl rfl
          | false => exact .inr rfl

private theorem add_abort_comm {existing : Nat} (known : existing < inflight.requests.length)
    (added : Request) : (inflight.add added).abort existing = (inflight.abort existing).add added := by
  unfold add abort
  refine congrArg _ (List.ext_getElem? fun index => ?_)
  simp only [List.getElem?_modify, List.getElem?_append, List.length_modify]
  grind

theorem Tracked.send (configured : artifact.dedupe = some dedupe)
    (matched : dedupe.matchMode ≠ .none) (tracked : inflight.Tracked artifact)
    (vars : GraphQLValue) (aborted : Bool) :
    (inflight.send artifact vars aborted).Tracked artifact := by
  obtain ⟨replaced, sent⟩ | ⟨existing, found, _, sent | sent⟩ :=
    @send_cases _ _ inflight configured matched vars aborted
  · rw [sent]
    exact tracked.register_add vars aborted fun request entry =>
      not_live_of_isAborted (replaced request entry)
  · rw [sent, add_abort_comm (tracked.hasKey _ _ found).lt_length]
    have length : inflight.requests.length = (inflight.abort existing).requests.length :=
      (List.length_modify ..).symm
    rw [length]
    refine (tracked.abort existing).register_add vars aborted fun request entry live => ?_
    have same : request = existing := Option.some.inj (entry.symm.trans found)
    exact (live_abort.mp live).2 same
  · rw [sent]
    exact tracked.add_abort _

private theorem getElem?_settle {request other : Nat} {vars : GraphQLValue} :
    (inflight.settle artifact other vars).requests[request]? =
      (inflight.requests[request]?).map fun sent =>
        if other = request then { sent with settled := true } else sent := by
  unfold settle
  rw [List.getElem?_modify]
  cases inflight.requests[request]? <;> rfl

private theorem hasKey_settle {request other : Nat} {vars : GraphQLValue} {key : String} :
    (inflight.settle artifact other vars).HasKey artifact request key ↔
      inflight.HasKey artifact request key := by
  unfold HasKey
  rw [getElem?_settle]
  grind

theorem Tracked.settle (tracked : inflight.Tracked artifact) {request : Nat} {vars : GraphQLValue}
    (permitted : inflight.Permitted artifact (.settle request vars)) :
    (inflight.settle artifact request vars).Tracked artifact where
  hasKey := by
    intro key entry found
    change OrderedMap.get? (OrderedMap.erase _ _) _ = _ at found
    rw [OrderedMap.get?_erase] at found
    split at found
    · cases found
    · exact hasKey_settle.mpr (tracked.hasKey key entry found)
  isOpen := by
    intro key entry found
    change OrderedMap.get? (OrderedMap.erase _ _) _ = _ at found
    rw [OrderedMap.get?_erase] at found
    split at found
    · cases found
    · rename_i kept
      have different : request ≠ entry := by
        rintro rfl
        exact kept ((tracked.hasKey key request found).unique permitted.1)
      obtain ⟨sent, present, running⟩ := tracked.isOpen key entry found
      refine ⟨sent, ?_, running⟩
      rw [getElem?_settle, present, Option.map_some, if_neg different]
  live := by
    intro key entry live hasKey
    rw [hasKey_settle] at hasKey
    obtain ⟨sent, present, running, kept⟩ := live
    rw [getElem?_settle] at present
    obtain ⟨before, sentBefore, same⟩ := Option.map_eq_some_iff.mp present
    have different : request ≠ entry := by
      rintro rfl
      rw [if_pos rfl] at same
      rw [← same] at running
      cases running
    rw [if_neg different] at same
    subst same
    have wasLive : inflight.Live entry := ⟨before, sentBefore, running, kept⟩
    have found := tracked.live key entry wasLive hasKey
    change OrderedMap.get? (OrderedMap.erase _ _) _ = _
    rw [OrderedMap.get?_erase]
    split
    · rename_i erased
      rw [erased] at found
      obtain same | dead := permitted.2 entry found
      · exact absurd same.symm different
      · exact absurd wasLive dead
    · exact found

theorem Tracked.step (configured : artifact.dedupe = some dedupe)
    (matched : dedupe.matchMode ≠ .none) (tracked : inflight.Tracked artifact)
    {event : RequestEvent} (permitted : inflight.Permitted artifact event)
    (applied : inflight.apply artifact event = some next) : next.Tracked artifact := by
  unfold apply at applied
  cases event with
  | send vars aborted =>
      cases applied
      exact tracked.send configured matched vars aborted
  | abort request =>
      dsimp only at applied
      split at applied
      · cases applied
        exact tracked.abort request
      · cases applied
  | settle request vars =>
      dsimp only at applied
      split at applied
      · cases applied
      · split at applied
        · cases applied
        · cases applied
          exact tracked.settle permitted

theorem Run.tracked (configured : artifact.dedupe = some dedupe)
    (matched : dedupe.matchMode ≠ .none) (run : Run artifact inflight) :
    inflight.Tracked artifact := by
  induction run with
  | start => exact ⟨nofun, nofun, fun _ _ live => nomatch live⟩
  | step _ permitted applied ih => exact ih.step configured matched permitted applied

theorem Tracked.abortsConcurrent (configured : artifact.dedupe = some dedupe)
    (matched : dedupe.matchMode ≠ .none) (tracked : inflight.Tracked artifact)
    {event : RequestEvent} (applied : inflight.apply artifact event = some next) :
    inflight.AbortsConcurrent artifact event next := by
  intro request aborted kept
  unfold apply at applied
  cases event with
  | abort other =>
      dsimp only at applied
      split at applied
      · cases applied
        obtain before | ⟨rfl, _⟩ := isAborted_abort.mp aborted
        · rw [kept] at before
          cases before
        · exact .inl rfl
      · cases applied
  | settle other vars =>
      dsimp only at applied
      have unchanged : (inflight.settle artifact other vars).isAborted request =
          inflight.isAborted request := by
        unfold isAborted
        rw [getElem?_settle]
        grind
      split at applied
      · cases applied
      · split at applied
        · cases applied
        · cases applied
          rw [unchanged, kept] at aborted
          cases aborted
  | send vars passed =>
      cases applied
      have sentAborted (was : (inflight.add { vars, aborted := passed }).isAborted request = true) :
          passed = true ∧ request = inflight.requests.length := by
        rw [isAborted_add] at was
        split at was
        · rename_i same
          exact ⟨was, same⟩
        · rw [kept] at was
          cases was
      obtain ⟨_, sent⟩ | ⟨existing, found, _, sent | sent⟩ :=
        @send_cases _ _ inflight configured matched vars passed
      · rw [sent] at aborted
        obtain ⟨rfl, same⟩ := sentAborted aborted
        exact .inr (.inl ⟨vars, rfl, same⟩)
      · rw [sent] at aborted
        obtain was | ⟨rfl, _⟩ := isAborted_abort.mp aborted
        · obtain ⟨rfl, same⟩ := sentAborted was
          exact .inr (.inl ⟨vars, rfl, same⟩)
        · have hasKey := tracked.hasKey _ _ found
          refine .inr (.inr ⟨_, request, ?_, ⟨vars, passed, rfl, rfl⟩, hasKey,
            tracked.isOpen _ _ found, .inl rfl⟩)
          rw [sent]
          change ((inflight.add _).abort request).HasKey artifact request _
          rw [hasKey_abort, hasKey_add, if_neg (Nat.ne_of_lt hasKey.lt_length)]
          exact hasKey
      · rw [sent] at aborted
        obtain was | ⟨rfl, _⟩ := isAborted_abort.mp aborted
        · obtain ⟨rfl, same⟩ := sentAborted was
          exact .inr (.inl ⟨vars, rfl, same⟩)
        · refine .inr (.inr ⟨_, existing, ?_, ⟨vars, passed, rfl, rfl⟩, tracked.hasKey _ _ found,
            tracked.isOpen _ _ found, .inr rfl⟩)
          rw [sent, hasKey_abort, hasKey_add, if_pos rfl]

theorem Tracked.sendsAfresh (configured : artifact.dedupe = some dedupe)
    (matched : dedupe.matchMode ≠ .none) (tracked : inflight.Tracked artifact) :
    inflight.SendsAfresh artifact := by
  intro vars settled
  obtain ⟨_, sent⟩ | ⟨existing, found, _⟩ :=
    @send_cases _ _ inflight configured matched vars false
  · rw [sent]
    change (inflight.add _).isAborted _ = false
    rw [isAborted_add, if_pos rfl]
  · exact absurd (tracked.isOpen _ _ found) (settled existing (tracked.hasKey _ _ found))

private def search : DedupedArtifact := ⟨"Search", some ⟨true, .variables⟩⟩

private def searches : Inflight :=
  (({} : Inflight).send search .null false).send search .null false

private theorem searches_run : Run search searches := by
  have first : Run search _ := @Run.step search {} _ (.send .null false) .start trivial rfl
  exact @Run.step search _ _ (.send .null false) first trivial rfl

end Runs

end Inflight

end Houdini.Runtime.Client
