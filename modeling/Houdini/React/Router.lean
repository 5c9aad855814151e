import Houdini.Data.LruCache

/-! The queries that the router loads: which store is shown for a document, which sends are pending
and which variables were asked for. -/

set_option autoImplicit false

namespace Houdini.React

abbrev GraphQLVariables (Value : Type) := List (String × Value)

structure Sent (Value : Type) where
  document : String
  «variables» : GraphQLVariables Value
  generation : Nat
  deriving DecidableEq, Repr

/-- A request that was not answered yet. Stores and sends are numbered. -/
structure Send (Value : Type) extends Sent Value where
  id : Nat
  observer : Nat
  deriving DecidableEq, Repr

structure PageDocument where
  artifact : String
  variableNames : List String
  deriving DecidableEq, Repr

/-- How a send ends. An error that is no abort is shown like data. -/
inductive SendOutcome where
  | resolved
  | failed
  | aborted
  deriving DecidableEq, Repr

structure RouterState (Value : Type) where
  dataCache : LruCache String Nat
  generation : Nat := 0
  ssrSignals : LruCache String Nat
  lastVariables : LruCache String (GraphQLVariables Value)
  artifactCache : LruCache String Unit
  /-- The artifacts that are being loaded, with the variables of their pages. -/
  requested : List (String × GraphQLVariables Value) := []
  pending : List (Send Value) := []
  observers : Nat → Option (Sent Value) := fun _ => none
  observed : Nat := 0
  started : Nat := 0

namespace RouterState

variable {Value : Type} [DecidableEq Value]

def start (artifactCache : LruCache String Unit) : RouterState Value where
  dataCache := .empty 1000
  ssrSignals := .empty 1000
  lastVariables := .empty 1000
  artifactCache := artifactCache

/-- A pending request is not sent again. A store that is shown is sent once more. -/
def loadQuery (state : RouterState Value) (id : String) («variables» : GraphQLVariables Value) :
    RouterState Value :=
  let lastVariables := state.lastVariables.set id «variables»
  if state.ssrSignals.has id then
    { state with lastVariables, ssrSignals := state.ssrSignals.touch id }
  else
    let observer := (state.dataCache.find? id).getD state.observed
    let sent : Sent Value := { document := id, «variables», generation := state.generation }
    { state with
      lastVariables
      dataCache := state.dataCache.touch id
      ssrSignals := state.ssrSignals.set id state.started
      pending := state.pending ++ [{ sent with id := state.started, observer }]
      observers := Function.update state.observers observer (some sent)
      observed := state.observed + 1
      started := state.started + 1 }

def pick (names : List String) («variables» : GraphQLVariables Value) : List (Option Value) :=
  names.map («variables».lookup ·)

def compareVariables («variables» : GraphQLVariables Value) (state : RouterState Value)
    (document : PageDocument) : RouterState Value :=
  match state.lastVariables.find? document.artifact with
  | none => state
  | some last =>
      if document.variableNames.isEmpty then state
      else
        let lastVariables := state.lastVariables.touch document.artifact
        if pick document.variableNames last = pick document.variableNames «variables» then
          { state with lastVariables }
        else
          { state with
            lastVariables
            dataCache := state.dataCache.delete document.artifact
            ssrSignals := state.ssrSignals.delete document.artifact }

def findArtifact («variables» : GraphQLVariables Value) (state : RouterState Value)
    (document : PageDocument) : RouterState Value :=
  if state.artifactCache.has document.artifact then
    { state with artifactCache := state.artifactCache.touch document.artifact }
  else { state with requested := state.requested ++ [(document.artifact, «variables»)] }

def loadMissing («variables» : GraphQLVariables Value) :
    List String → RouterState Value → RouterState Value
  | [], state => state
  | artifact :: rest, state =>
      if state.dataCache.has artifact then loadMissing «variables» rest state
      else loadMissing «variables» rest (state.loadQuery artifact «variables»)

def foundArtifacts (state : RouterState Value) (page : List PageDocument) : List String :=
  (page.map (·.artifact)).filter state.artifactCache.has

/-- The caches once the documents of a page were compared and their artifacts looked up. -/
def prepare (state : RouterState Value) (page : List PageDocument)
    («variables» : GraphQLVariables Value) : RouterState Value :=
  page.foldl (findArtifact «variables») (page.foldl (compareVariables «variables») state)

def loadData (state : RouterState Value) (page : List PageDocument)
    («variables» : GraphQLVariables Value) : RouterState Value :=
  loadMissing «variables» (state.foundArtifacts page) (state.prepare page «variables»)

def artifactLoaded (state : RouterState Value) (artifact : String)
    («variables» : GraphQLVariables Value) : RouterState Value :=
  if (artifact, «variables») ∈ state.requested then
    { state with
      requested := state.requested.erase (artifact, «variables»)
      artifactCache := state.artifactCache.set artifact () }.loadQuery artifact «variables»
  else state

/-- A send ends. One of an earlier generation, or an aborted one, shows nothing. -/
def settle (state : RouterState Value) (id : Nat) (outcome : SendOutcome) : RouterState Value :=
  match state.pending.find? (·.id = id) with
  | none => state
  | some send =>
      { state with
        pending := state.pending.filter (·.id ≠ id)
        ssrSignals := state.ssrSignals.delete send.document
        dataCache :=
          if outcome = .aborted ∨ state.generation ≠ send.generation then state.dataCache
          else state.dataCache.set send.document send.observer }

def invalidateSessionCaches (state : RouterState Value) : RouterState Value :=
  { state with
    dataCache := state.dataCache.clear
    generation := state.generation + 1
    ssrSignals := state.ssrSignals.clear
    lastVariables := state.lastVariables.clear }

end RouterState

/-- What happens to a router. Components that are rendered read the stores. -/
inductive RouterEvent (Value : Type) where
  | loadData (page : List PageDocument) («variables» : GraphQLVariables Value)
  | artifactLoaded (artifact : String) («variables» : GraphQLVariables Value)
  | settle (id : Nat) (outcome : SendOutcome)
  | invalidate
  | read (document : String)

variable {Value : Type} [DecidableEq Value]

def RouterState.step (state : RouterState Value) : RouterEvent Value → RouterState Value
  | .loadData page «variables» => state.loadData page «variables»
  | .artifactLoaded artifact «variables» => state.artifactLoaded artifact «variables»
  | .settle id outcome => state.settle id outcome
  | .invalidate => state.invalidateSessionCaches
  | .read document => { state with dataCache := state.dataCache.touch document }

def RouterState.run (state : RouterState Value) (events : List (RouterEvent Value)) :
    RouterState Value := events.foldl step state

end Houdini.React
