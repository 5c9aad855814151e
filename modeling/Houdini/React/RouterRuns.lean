import Houdini.React.Router

/-! When the router shows the data that it asked for. A document that is loaded again while one of
its sends is pending gets a second one, whose result and signal the first one then takes over. -/

set_option autoImplicit false

namespace Houdini.React

variable {Value : Type}

namespace RouterState

/-- What holds while no document has two sends. -/
structure Consistent (state : RouterState Value) : Prop where
  numbered : ∀ send ∈ state.pending, send.id < state.started
  ids : ∀ send ∈ state.pending, ∀ other ∈ state.pending, send.id = other.id → send = other
  single : ∀ send ∈ state.pending, ∀ other ∈ state.pending,
    send.document = other.document → send = other
  observed : ∀ observer sent, state.observers observer = some sent → observer < state.observed
  sent : ∀ send ∈ state.pending, state.observers send.observer = some send.toSent
  signals : ∀ document id, state.ssrSignals.find? document = some id →
    ∃ send ∈ state.pending, send.id = id ∧ send.document = document ∧
      send.generation = state.generation
  recorded : ∀ send ∈ state.pending, send.generation = state.generation → ∀ last,
    state.lastVariables.find? send.document = some last → last = send.variables
  current : ∀ send ∈ state.pending, send.generation = state.generation → ∀ observer,
    state.dataCache.find? send.document = some observer → observer = send.observer
  shown : ∀ document observer, state.dataCache.find? document = some observer →
    ∃ sent, state.observers observer = some sent ∧ sent.document = document ∧
      sent.generation = state.generation ∧
        ∀ last, state.lastVariables.find? document = some last → last = sent.variables

theorem start_consistent (artifactCache : LruCache String Unit) :
    (start artifactCache : RouterState Value).Consistent where
  numbered := nofun
  ids := nofun
  single := nofun
  observed := nofun
  sent := nofun
  signals := nofun
  recorded := nofun
  current := nofun
  shown := nofun

/-- Only how recently entries were used, the artifacts and the requests for them differ, or some
entries are gone. -/
structure Forgets (state next : RouterState Value) : Prop where
  generation : next.generation = state.generation
  pending : next.pending = state.pending
  observers : next.observers = state.observers
  observed : next.observed = state.observed
  started : next.started = state.started
  dataCache : ∀ document observer, next.dataCache.find? document = some observer →
    state.dataCache.find? document = some observer
  ssrSignals : ∀ document id, next.ssrSignals.find? document = some id →
    state.ssrSignals.find? document = some id
  lastVariables : ∀ document last, next.lastVariables.find? document = some last →
    state.lastVariables.find? document = some last

theorem Forgets.refl (state : RouterState Value) : Forgets state state where
  generation := rfl
  pending := rfl
  observers := rfl
  observed := rfl
  started := rfl
  dataCache := fun _ _ => id
  ssrSignals := fun _ _ => id
  lastVariables := fun _ _ => id

theorem Forgets.trans {state middle next : RouterState Value} (first : Forgets state middle)
    (second : Forgets middle next) : Forgets state next where
  generation := second.generation.trans first.generation
  pending := second.pending.trans first.pending
  observers := second.observers.trans first.observers
  observed := second.observed.trans first.observed
  started := second.started.trans first.started
  dataCache := fun _ _ found => first.dataCache _ _ (second.dataCache _ _ found)
  ssrSignals := fun _ _ found => first.ssrSignals _ _ (second.ssrSignals _ _ found)
  lastVariables := fun _ _ found => first.lastVariables _ _ (second.lastVariables _ _ found)

theorem Consistent.forget {state next : RouterState Value} (consistent : state.Consistent)
    (forgets : Forgets state next) : next.Consistent where
  numbered := by
    rw [forgets.pending, forgets.started]
    exact consistent.numbered
  ids := by
    rw [forgets.pending]
    exact consistent.ids
  single := by
    rw [forgets.pending]
    exact consistent.single
  observed := by
    rw [forgets.observers, forgets.observed]
    exact consistent.observed
  sent := by
    rw [forgets.pending, forgets.observers]
    exact consistent.sent
  signals := by
    intro document id found
    rw [forgets.pending, forgets.generation]
    exact consistent.signals document id (forgets.ssrSignals _ _ found)
  recorded := by
    rw [forgets.pending, forgets.generation]
    intro send member same last found
    exact consistent.recorded send member same last (forgets.lastVariables _ _ found)
  current := by
    rw [forgets.pending, forgets.generation]
    intro send member same observer found
    exact consistent.current send member same observer (forgets.dataCache _ _ found)
  shown := by
    intro document observer found
    rw [forgets.observers, forgets.generation]
    obtain ⟨sent, isSent, own, same, last⟩ :=
      consistent.shown document observer (forgets.dataCache _ _ found)
    exact ⟨sent, isSent, own, same, fun given recorded =>
      last given (forgets.lastVariables _ _ recorded)⟩

def FitsLoad (state : RouterState Value) (id : String) («variables» : GraphQLVariables Value) :
    Prop :=
  ∀ send ∈ state.pending, send.document = id →
    state.ssrSignals.find? id = some send.id ∧ send.variables = «variables»

theorem Consistent.loadPending {state : RouterState Value} (consistent : state.Consistent)
    {id : String} {«variables» : GraphQLVariables Value} {signal : Nat}
    (found : state.ssrSignals.find? id = some signal) (fits : state.FitsLoad id «variables») :
    (state.loadQuery id «variables»).Consistent := by
  obtain ⟨send, member, _, own, generation⟩ := consistent.signals id signal found
  have same : send.variables = «variables» := (fits send member own).2
  have loaded : state.loadQuery id «variables» =
      { state with
        lastVariables := state.lastVariables.set id «variables»
        ssrSignals := state.ssrSignals.touch id } := by
    unfold loadQuery
    rw [if_pos (by rw [LruCache.has, found]; rfl)]
  rw [loaded]
  refine ⟨consistent.numbered, consistent.ids, consistent.single, consistent.observed,
    consistent.sent, ?_, ?_, consistent.current, ?_⟩
  · intro document other kept
    rw [LruCache.find?_touch] at kept
    exact consistent.signals document other kept
  · intro other isPending sameGeneration last recorded
    rcases LruCache.find?_of_set recorded with ⟨ownDocument, rfl⟩ | ⟨_, old⟩
    · rw [consistent.single other isPending send member (ownDocument.trans own.symm)]
      exact same.symm
    · exact consistent.recorded other isPending sameGeneration last old
  · intro document observer shown
    obtain ⟨sent, isSent, ownSent, sameGeneration, last⟩ :=
      consistent.shown document observer shown
    refine ⟨sent, isSent, ownSent, sameGeneration, fun given recorded => ?_⟩
    rcases LruCache.find?_of_set recorded with ⟨rfl, rfl⟩ | ⟨_, old⟩
    · -- the store that is shown is the one that is being sent
      have current := consistent.current send member generation observer (own ▸ shown)
      rw [current, consistent.sent send member] at isSent
      rw [← Option.some.inj isSent]
      exact same.symm
    · exact last given old

theorem Consistent.observer_le {state : RouterState Value} (consistent : state.Consistent)
    (id : String) : (state.dataCache.find? id).getD state.observed ≤ state.observed := by
  cases shown : state.dataCache.find? id with
  | none => exact Nat.le_refl _
  | some reused =>
      obtain ⟨last, isLast, _⟩ := consistent.shown id reused shown
      exact Nat.le_of_lt (consistent.observed reused last isLast)

theorem Consistent.loadIdle {state : RouterState Value} (consistent : state.Consistent)
    {id : String} {«variables» : GraphQLVariables Value}
    (unsignalled : state.ssrSignals.find? id = none)
    (idle : ∀ send ∈ state.pending, send.document ≠ id) :
    (state.loadQuery id «variables»).Consistent := by
  let observer := (state.dataCache.find? id).getD state.observed
  let sent : Sent Value := { document := id, «variables», generation := state.generation }
  let send : Send Value := { sent with id := state.started, observer }
  have loaded : state.loadQuery id «variables» =
      { state with
        lastVariables := state.lastVariables.set id «variables»
        dataCache := state.dataCache.touch id
        ssrSignals := state.ssrSignals.set id state.started
        pending := state.pending ++ [send]
        observers := Function.update state.observers observer (some sent)
        observed := state.observed + 1
        started := state.started + 1 } := by
    unfold loadQuery
    rw [if_neg (by rw [LruCache.has, unsignalled]; exact nofun)]
  -- a store that was sent for another document is not the one that is sent now
  have apart {other : Nat} {given : Sent Value} (isSent : state.observers other = some given)
      (otherDocument : given.document ≠ id) : other ≠ observer := by
    rintro rfl
    cases shown : state.dataCache.find? id with
    | none =>
        have fresh : observer = state.observed := by
          change (state.dataCache.find? id).getD _ = _
          rw [shown]
          rfl
        have old := consistent.observed observer given isSent
        omega
    | some reused =>
        have same : observer = reused := by
          change (state.dataCache.find? id).getD _ = _
          rw [shown]
          rfl
        obtain ⟨last, isLast, own, _⟩ := consistent.shown id reused shown
        rw [same, isLast] at isSent
        rw [← Option.some.inj isSent] at otherDocument
        exact otherDocument own
  have kept {other : Nat} {given : Sent Value} (isSent : state.observers other = some given)
      (otherDocument : given.document ≠ id) :
      Function.update state.observers observer (some sent) other = some given := by
    rw [Function.update_of_ne (apart isSent otherDocument), isSent]
  rw [loaded]
  refine ⟨?_, ?_, ?_, ?_, ?_, ?_, ?_, ?_, ?_⟩
  · intro given member
    rcases List.mem_append.mp member with old | new
    · exact Nat.lt_succ_of_lt (consistent.numbered given old)
    · rw [List.mem_singleton.mp new]
      exact Nat.lt_succ_self _
  · intro given member other otherMember sameId
    rcases List.mem_append.mp member with old | new <;>
      rcases List.mem_append.mp otherMember with otherOld | otherNew
    · exact consistent.ids given old other otherOld sameId
    · rw [List.mem_singleton.mp otherNew] at sameId
      exact absurd sameId (Nat.ne_of_lt (consistent.numbered given old))
    · rw [List.mem_singleton.mp new] at sameId
      exact absurd sameId.symm (Nat.ne_of_lt (consistent.numbered other otherOld))
    · rw [List.mem_singleton.mp new, List.mem_singleton.mp otherNew]
  · intro given member other otherMember sameDocument
    rcases List.mem_append.mp member with old | new <;>
      rcases List.mem_append.mp otherMember with otherOld | otherNew
    · exact consistent.single given old other otherOld sameDocument
    · rw [List.mem_singleton.mp otherNew] at sameDocument
      exact absurd sameDocument (idle given old)
    · rw [List.mem_singleton.mp new] at sameDocument
      exact absurd sameDocument.symm (idle other otherOld)
    · rw [List.mem_singleton.mp new, List.mem_singleton.mp otherNew]
  · intro other given isSent
    by_cases own : other = observer
    · rw [own]
      exact Nat.lt_succ_of_le (consistent.observer_le id)
    · have old : state.observers other = some given := by
        rw [← isSent]
        exact (Function.update_of_ne own _ _).symm
      exact Nat.lt_succ_of_lt (consistent.observed other given old)
  · intro given member
    rcases List.mem_append.mp member with old | new
    · exact kept (consistent.sent given old) (idle given old)
    · rw [List.mem_singleton.mp new]
      exact Function.update_self observer (some sent) state.observers
  · intro document signal found
    rcases LruCache.find?_of_set found with ⟨rfl, rfl⟩ | ⟨_, old⟩
    · exact ⟨send, List.mem_append_right _ List.mem_cons_self, rfl, rfl, rfl⟩
    · obtain ⟨given, member, facts⟩ := consistent.signals document signal old
      exact ⟨given, List.mem_append_left _ member, facts⟩
  · intro given member sameGeneration last recorded
    rcases List.mem_append.mp member with old | new
    · rcases LruCache.find?_of_set recorded with ⟨own, _⟩ | ⟨_, before⟩
      · exact absurd own (idle given old)
      · exact consistent.recorded given old sameGeneration last before
    · rw [List.mem_singleton.mp new] at recorded ⊢
      rcases LruCache.find?_of_set recorded with ⟨_, same⟩ | ⟨other, _⟩
      · exact same
      · exact absurd rfl other
  · intro given member sameGeneration shownObserver shown
    rw [LruCache.find?_touch] at shown
    rcases List.mem_append.mp member with old | new
    · exact consistent.current given old sameGeneration shownObserver shown
    · rw [List.mem_singleton.mp new] at shown ⊢
      change shownObserver = (state.dataCache.find? id).getD _
      have own : state.dataCache.find? id = some shownObserver := shown
      rw [own]
      rfl
  · intro document shownObserver shown
    rw [LruCache.find?_touch] at shown
    obtain ⟨given, isSent, own, sameGeneration, last⟩ :=
      consistent.shown document shownObserver shown
    by_cases same : document = id
    · subst same
      have reused : observer = shownObserver := by
        change (state.dataCache.find? document).getD _ = _
        rw [shown]
        rfl
      refine ⟨sent, ?_, rfl, rfl, fun recordedLast recorded => ?_⟩
      · rw [← reused]
        exact Function.update_self observer (some sent) state.observers
      · rcases LruCache.find?_of_set recorded with ⟨_, sameLast⟩ | ⟨other, _⟩
        · exact sameLast
        · exact absurd rfl other
    · refine ⟨given, kept isSent (own ▸ same), own, sameGeneration, fun recordedLast recorded => ?_⟩
      rcases LruCache.find?_of_set recorded with ⟨other, _⟩ | ⟨_, before⟩
      · exact absurd other same
      · exact last recordedLast before

theorem Consistent.loadQuery {state : RouterState Value} (consistent : state.Consistent)
    {id : String} {«variables» : GraphQLVariables Value} (fits : state.FitsLoad id «variables») :
    (state.loadQuery id «variables»).Consistent := by
  cases found : state.ssrSignals.find? id with
  | some signal => exact consistent.loadPending found fits
  | none =>
      refine consistent.loadIdle found fun send member own => ?_
      have signalled := (fits send member own).1
      rw [found] at signalled
      cases signalled

theorem findArtifact_forgets («variables» : GraphQLVariables Value)
    (state : RouterState Value) (document : PageDocument) :
    Forgets state (findArtifact «variables» state document) := by
  unfold findArtifact
  split <;> exact ⟨rfl, rfl, rfl, rfl, rfl, fun _ _ => id, fun _ _ => id, fun _ _ => id⟩

theorem foldl_forgets {prepareOne : RouterState Value → PageDocument → RouterState Value}
    (forgets : ∀ state document, Forgets state (prepareOne state document))
    (page : List PageDocument) (state : RouterState Value) :
    Forgets state (page.foldl prepareOne state) := by
  induction page generalizing state with
  | nil => exact .refl state
  | cons document rest ih => exact (forgets state document).trans (ih _)

def FitsMissing («variables» : GraphQLVariables Value) :
    List String → RouterState Value → Prop
  | [], _ => True
  | artifact :: rest, state =>
      if state.dataCache.has artifact then FitsMissing «variables» rest state
      else state.FitsLoad artifact «variables» ∧
        FitsMissing «variables» rest (state.loadQuery artifact «variables»)

theorem Consistent.loadMissing {state : RouterState Value} (consistent : state.Consistent)
    {«variables» : GraphQLVariables Value} {artifacts : List String}
    (fits : FitsMissing «variables» artifacts state) :
    (loadMissing «variables» artifacts state).Consistent := by
  induction artifacts generalizing state with
  | nil => exact consistent
  | cons artifact rest ih =>
      unfold FitsMissing at fits
      unfold RouterState.loadMissing
      split
      · next has =>
          rw [if_pos has] at fits
          exact ih consistent fits
      · next missing =>
          rw [if_neg missing] at fits
          exact ih (consistent.loadQuery fits.1) fits.2

theorem Consistent.settle {state : RouterState Value} (consistent : state.Consistent) (id : Nat)
    (outcome : SendOutcome) : (state.settle id outcome).Consistent := by
  unfold RouterState.settle
  cases found : state.pending.find? (·.id = id) with
  | none => exact consistent
  | some send =>
      have member := List.mem_of_find?_eq_some found
      have own : send.id = id := by simpa using List.find?_some found
      have others {given : Send Value} (kept : given ∈ state.pending.filter (·.id ≠ id)) :
          given ∈ state.pending ∧ given.document ≠ send.document := by
        obtain ⟨isPending, apart⟩ := List.mem_filter.mp kept
        refine ⟨isPending, fun same => ?_⟩
        rw [consistent.single given isPending send member same, own] at apart
        simp at apart
      have shows {document : String} {observer : Nat}
          (shown : (if outcome = .aborted ∨ state.generation ≠ send.generation then state.dataCache
            else state.dataCache.set send.document send.observer).find? document = some observer) :
          (document = send.document ∧ observer = send.observer ∧
            send.generation = state.generation) ∨
              state.dataCache.find? document = some observer := by
        split at shown
        · exact Or.inr shown
        · next fresh =>
            rcases LruCache.find?_of_set shown with ⟨same, value⟩ | ⟨_, old⟩
            · have generation : state.generation = send.generation := by
                by_contra other
                exact fresh (Or.inr other)
              exact Or.inl ⟨same, value, generation.symm⟩
            · exact Or.inr old
      constructor
      · exact fun given kept => consistent.numbered given (others kept).1
      · exact fun given kept other otherKept =>
          consistent.ids given (others kept).1 other (others otherKept).1
      · exact fun given kept other otherKept =>
          consistent.single given (others kept).1 other (others otherKept).1
      · exact consistent.observed
      · exact fun given kept => consistent.sent given (others kept).1
      · intro document signal signalled
        obtain ⟨apart, old⟩ := LruCache.find?_of_delete signalled
        obtain ⟨given, isPending, isSignal, ownDocument, generation⟩ :=
          consistent.signals document signal old
        refine ⟨given, List.mem_filter.mpr ⟨isPending, ?_⟩, isSignal, ownDocument, generation⟩
        rw [decide_eq_true_eq]
        intro same
        rw [consistent.ids given isPending send member (same.trans own.symm)] at ownDocument
        exact apart ownDocument.symm
      · exact fun given kept => consistent.recorded given (others kept).1
      · intro given kept sameGeneration observer shown
        rcases shows shown with ⟨same, _, _⟩ | old
        · exact absurd same (others kept).2
        · exact consistent.current given (others kept).1 sameGeneration observer old
      · intro document observer shown
        rcases shows shown with ⟨rfl, rfl, generation⟩ | old
        · exact ⟨send.toSent, consistent.sent send member, rfl, generation,
            consistent.recorded send member generation⟩
        · exact consistent.shown document observer old

theorem Consistent.invalidate {state : RouterState Value} (consistent : state.Consistent) :
    state.invalidateSessionCaches.Consistent where
  numbered := consistent.numbered
  ids := consistent.ids
  single := consistent.single
  observed := consistent.observed
  sent := consistent.sent
  signals := nofun
  recorded := nofun
  current := nofun
  shown := nofun

def KeepsSignals (state : RouterState Value) (id : Nat) (outcome : SendOutcome) :
    Prop :=
  ∀ send ∈ state.pending, send.id ≠ id → ∀ document,
    state.ssrSignals.find? document = some send.id →
      (state.settle id outcome).ssrSignals.find? document = some send.id

theorem Consistent.keepsSignals {state : RouterState Value}
    (consistent : state.Consistent) (id : Nat) (outcome : SendOutcome) :
    state.KeepsSignals id outcome := by
  intro send member other document signalled
  unfold RouterState.settle
  cases found : state.pending.find? (·.id = id) with
  | none => exact signalled
  | some ending =>
      have endingMember := List.mem_of_find?_eq_some found
      have own : ending.id = id := by simpa using List.find?_some found
      obtain ⟨given, isPending, isSignal, ownDocument, _⟩ :=
        consistent.signals document send.id signalled
      have apart : document ≠ ending.document := by
        rintro rfl
        rw [consistent.ids given isPending send member isSignal] at ownDocument
        rw [consistent.single send member ending endingMember ownDocument] at other
        exact other own
      exact (LruCache.find?_delete_of_ne _ apart).trans signalled

variable [DecidableEq Value]

theorem compareVariables_forgets («variables» : GraphQLVariables Value)
    (state : RouterState Value) (document : PageDocument) :
    Forgets state (compareVariables «variables» state document) := by
  unfold compareVariables
  cases state.lastVariables.find? document.artifact with
  | none => exact .refl state
  | some last =>
      dsimp only
      split
      · exact .refl state
      · split
        · constructor <;> try rfl
          · exact fun _ _ => id
          · exact fun _ _ => id
          · intro other given found
            rwa [LruCache.find?_touch] at found
        · constructor <;> try rfl
          · exact fun _ _ found => (LruCache.find?_of_delete found).2
          · exact fun _ _ found => (LruCache.find?_of_delete found).2
          · intro other given found
            rwa [LruCache.find?_touch] at found

theorem prepare_forgets (state : RouterState Value) (page : List PageDocument)
    («variables» : GraphQLVariables Value) : Forgets state (state.prepare page «variables») :=
  (foldl_forgets (compareVariables_forgets «variables») page state).trans
    (foldl_forgets (findArtifact_forgets «variables») page _)

end RouterState

variable [DecidableEq Value]

/-- A query is only loaded while none of its sends is pending, or with the variables of the one
that its signal is of. -/
def RouterEvent.Fits (state : RouterState Value) : RouterEvent Value → Prop
  | .loadData page «variables» =>
      RouterState.FitsMissing «variables» (state.foundArtifacts page)
        (state.prepare page «variables»)
  | .artifactLoaded artifact «variables» =>
      (artifact, «variables») ∈ state.requested → state.FitsLoad artifact «variables»
  | _ => True

def FitRun : RouterState Value → List (RouterEvent Value) → Prop
  | _, [] => True
  | state, event :: rest => event.Fits state ∧ FitRun (state.step event) rest

theorem RouterState.Consistent.step {state : RouterState Value} (consistent : state.Consistent)
    {event : RouterEvent Value} (fits : event.Fits state) : (state.step event).Consistent := by
  cases event with
  | loadData page «variables» =>
      exact (consistent.forget (RouterState.prepare_forgets state page «variables»)).loadMissing fits
  | artifactLoaded artifact «variables» =>
      change (state.artifactLoaded artifact «variables»).Consistent
      unfold RouterState.artifactLoaded
      split
      · next requested =>
          have arrived : RouterState.Forgets state
              { state with
                requested := state.requested.erase (artifact, «variables»)
                artifactCache := state.artifactCache.set artifact () } :=
            ⟨rfl, rfl, rfl, rfl, rfl, fun _ _ => id, fun _ _ => id, fun _ _ => id⟩
          exact (consistent.forget arrived).loadQuery fun send member => fits requested send member
      · exact consistent
  | settle id outcome => exact consistent.settle id outcome
  | invalidate => exact consistent.invalidate
  | read document =>
      refine consistent.forget ⟨rfl, rfl, rfl, rfl, rfl, fun other observer found => ?_,
        fun _ _ => id, fun _ _ => id⟩
      have touched : (state.dataCache.touch document).find? other = some observer := found
      rwa [LruCache.find?_touch] at touched

theorem run_consistent {state : RouterState Value} (consistent : state.Consistent)
    {events : List (RouterEvent Value)} (fits : FitRun state events) :
    (state.run events).Consistent := by
  induction events generalizing state with
  | nil => exact consistent
  | cons event rest ih => exact ih (consistent.step fits.1) fits.2

theorem fitRun_append {state : RouterState Value} (before after : List (RouterEvent Value)) :
    FitRun state (before ++ after) ↔ FitRun state before ∧ FitRun (state.run before) after := by
  induction before generalizing state with
  | nil => exact (and_iff_right trivial).symm
  | cons event rest ih =>
      rw [List.cons_append, FitRun, FitRun, ih, and_assoc]
      rfl

/-- The store that is shown for a document was last sent with the variables that were recorded, in
this generation. -/
def RouterState.ShowsRecorded (state : RouterState Value) : Prop :=
  ∀ document observer, state.dataCache.find? document = some observer →
    ∃ sent, state.observers observer = some sent ∧ sent.document = document ∧
      sent.generation = state.generation ∧
        ∀ last, state.lastVariables.find? document = some last → last = sent.variables

/-- What the router promises of a run: once every send has ended, it shows what was recorded, and on
the way no send took the signal of another one. -/
def KeepsPromises (state : RouterState Value) (events : List (RouterEvent Value)) : Prop :=
  ((state.run events).pending = [] → (state.run events).ShowsRecorded) ∧
    ∀ before id outcome after, events = before ++ .settle id outcome :: after →
      (state.run before).KeepsSignals id outcome

/-- A router keeps its promises in each run that loads no document in another way while one of its
sends is pending. -/
theorem run_keepsPromises (artifactCache : LruCache String Unit)
    {events : List (RouterEvent Value)}
    (fits : FitRun (RouterState.start artifactCache) events) :
    KeepsPromises (RouterState.start artifactCache) events := by
  have started := @RouterState.start_consistent Value artifactCache
  constructor
  · exact fun _ => (run_consistent started fits).shown
  · rintro before id outcome after rfl
    have fitsBefore := ((fitRun_append before _).mp fits).1
    exact (run_consistent started fitsBefore).keepsSignals id outcome

instance (state : RouterState Value) (id : String) («variables» : GraphQLVariables Value) :
    Decidable (state.FitsLoad id «variables») :=
  inferInstanceAs (Decidable (∀ send ∈ state.pending, send.document = id →
    state.ssrSignals.find? id = some send.id ∧ send.variables = «variables»))

instance decideMissing («variables» : GraphQLVariables Value) :
    (artifacts : List String) → (state : RouterState Value) →
      Decidable (RouterState.FitsMissing «variables» artifacts state)
  | [], _ => inferInstanceAs (Decidable True)
  | artifact :: rest, state =>
      have := decideMissing «variables» rest state
      have := decideMissing «variables» rest (state.loadQuery artifact «variables»)
      inferInstanceAs (Decidable (if state.dataCache.has artifact then
        RouterState.FitsMissing «variables» rest state
      else state.FitsLoad artifact «variables» ∧
        RouterState.FitsMissing «variables» rest (state.loadQuery artifact «variables»)))

instance (state : RouterState Value) : (event : RouterEvent Value) → Decidable (event.Fits state)
  | .loadData page «variables» =>
      inferInstanceAs (Decidable (RouterState.FitsMissing «variables» (state.foundArtifacts page)
        (state.prepare page «variables»)))
  | .artifactLoaded artifact «variables» =>
      inferInstanceAs (Decidable ((artifact, «variables») ∈ state.requested →
        state.FitsLoad artifact «variables»))
  | .settle _ _ => inferInstanceAs (Decidable True)
  | .invalidate => inferInstanceAs (Decidable True)
  | .read _ => inferInstanceAs (Decidable True)

instance decideFitRun : (state : RouterState Value) → (events : List (RouterEvent Value)) →
    Decidable (FitRun state events)
  | _, [] => inferInstanceAs (Decidable True)
  | state, event :: rest =>
      have := decideFitRun (state.step event) rest
      inferInstanceAs (Decidable (event.Fits state ∧ FitRun (state.step event) rest))

def userPage : List PageDocument := [{ artifact := "User", variableNames := ["id"] }]

def userArtifacts : LruCache String Unit := LruCache.set (.empty 1000) "User" ()

/-- The page is left for another user once its request was answered, and the session ends. -/
def userVisits : List (RouterEvent Nat) :=
  [.loadData userPage [("id", 1)], .settle 0 .resolved, .read "User",
    .loadData userPage [("id", 2)], .settle 1 .failed, .invalidate,
    .loadData userPage [("id", 2)], .settle 2 .resolved]

theorem run_keepsPromises_visits :
    FitRun (RouterState.start userArtifacts) userVisits ∧
      KeepsPromises (RouterState.start userArtifacts) userVisits := by
  have fits : FitRun (RouterState.start userArtifacts) userVisits := by decide +kernel
  exact ⟨fits, run_keepsPromises userArtifacts fits⟩

/-- The page is left for another user before its request was answered, which happens last. -/
def userOvertaken : List (RouterEvent Nat) :=
  [.loadData userPage [("id", 1)], .loadData userPage [("id", 2)], .settle 1 .resolved,
    .settle 0 .resolved]

/-- The former user is shown. -/
theorem run_shows_former :
    ¬ KeepsPromises (RouterState.start userArtifacts) userOvertaken := by
  intro promises
  let final := (RouterState.start userArtifacts).run userOvertaken
  have settled : final.pending = [] := by decide +kernel
  have shown : final.dataCache.find? "User" = some 0 := by decide +kernel
  have former : final.observers 0 =
      some { document := "User", «variables» := [("id", 1)], generation := 0 } := by decide +kernel
  have recorded : final.lastVariables.find? "User" = some [("id", 2)] := by decide +kernel
  obtain ⟨sent, isSent, _, _, last⟩ := promises.1 settled "User" 0 shown
  have same := last _ recorded
  have isFormer : sent = { document := "User", «variables» := [("id", 1)], generation := 0 } :=
    Option.some.inj (isSent.symm.trans former)
  rw [isFormer] at same
  exact absurd same (by decide)

end Houdini.React
