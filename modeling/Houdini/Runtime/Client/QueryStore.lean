import Houdini.Runtime.DeepEquals

/-! A query store is kept up to date by a subscription of its query plugin to the cache. The plugin
resubscribes when a send ends whose variables are not the ones the store had when it began. -/

set_option autoImplicit false

namespace Houdini.Runtime

def GraphQLObject.spread (base entries : GraphQLObject) : GraphQLObject :=
  entries.foldl (fun object entry => object.setProperty entry.1 entry.2) base

def SameVariables (left right : GraphQLObject) : Prop :=
  GraphQLValue.deepEquals (.object left) (.object right) = true

instance (left right : GraphQLObject) : Decidable (SameVariables left right) :=
  inferInstanceAs (Decidable (_ = true))

theorem SameVariables.refl (vars : GraphQLObject) : SameVariables vars vars :=
  GraphQLValue.deepEquals_refl _

theorem SameVariables.trans {left middle right : GraphQLObject} (first : SameVariables left middle)
    (second : SameVariables middle right) : SameVariables left right :=
  GraphQLValue.deepEquals_trans _ _ _ first second

namespace Client

structure Inputs where
  changed : Bool
  init : Bool
  marshaled : GraphQLObject

structure SendContext where
  vars : Option GraphQLObject
  inputs : Inputs
  /-- The variables that the store had last when the send began. -/
  lastVariables : Option GraphQLObject

section Document

-- what `marshalInputs` makes of variables of the document
variable (marshalInputs : GraphQLObject → GraphQLObject)

def differs (marshaled : GraphQLObject) (lastVariables : Option GraphQLObject) : Bool :=
  match lastVariables with
  | none => true
  | some last => !GraphQLValue.deepEquals (.object marshaled) (.object last)

def applyVariables (source : SendContext) (vars : Option GraphQLObject) : SendContext :=
  let changed := (vars.getD []).filter fun entry =>
    entry.2 ≠ GraphQLObject.property (source.vars.getD []) entry.1
  -- only what has changed is marshaled
  let marshaled :=
    if changed ≠ [] ∨ source.inputs.init = false then
      source.inputs.marshaled.spread (marshalInputs changed)
    else source.inputs.marshaled
  { source with
    vars
    inputs := { changed := differs marshaled source.lastVariables, init := true, marshaled } }

structure SubscriptionSpec where
  id : Nat
  vars : GraphQLObject
  deriving DecidableEq

structure StoreSend where
  context : SendContext
  settled : Bool
  running : Bool
  /-- The store has been torn down since. -/
  torn : Bool

structure QueryStore where
  lastVariables : Option GraphQLObject := none
  /-- The marshaled variables of the send whose result is displayed. -/
  displayed : Option GraphQLObject := none
  /-- The variables that the plugin was called with last. -/
  pluginVariables : Option GraphQLObject := none
  subscriptionSpec : Option SubscriptionSpec := none
  specs : Nat := 0
  /-- The subscriptions of the plugin in the cache. -/
  registered : List SubscriptionSpec := []
  sends : List StoreSend := []
  /-- There was a send since the store was torn down. -/
  current : Bool := false
  /-- No send that began since the store was torn down has reached its end. -/
  dormant : Bool := true

namespace QueryStore

/-- Begin a send, up to the end of the plugin's `start` hook. -/
def send (store : QueryStore) (vars : Option GraphQLObject)
    (runtimeScalars : GraphQLObject) : QueryStore :=
  let initial : SendContext :=
    { vars := none
      inputs := { changed := false, init := false, marshaled := [] }
      lastVariables := store.lastVariables }
  let context := applyVariables marshalInputs initial vars
  let started := applyVariables marshalInputs context
    (some (((store.pluginVariables.getD []).spread runtimeScalars).spread
      (context.vars.getD [])))
  { store with
    sends := store.sends ++ [{ context := started, settled := false, running := true, torn := false }]
    current := true }

def edit (store : QueryStore) (index : Nat) (vars : GraphQLObject) : QueryStore :=
  { store with
    sends := store.sends.modify index fun send =>
      { send with context := applyVariables marshalInputs send.context (some vars) } }

def unsubscribed (store : QueryStore) : List SubscriptionSpec :=
  match store.subscriptionSpec with
  | none => store.registered
  | some spec => store.registered.filter fun other => other.id ≠ spec.id

def endHook (store : QueryStore) (context : SendContext) : QueryStore :=
  if context.inputs.changed then
    let spec : SubscriptionSpec := { id := store.specs, vars := context.inputs.marshaled }
    { store with
      registered := store.unsubscribed ++ [spec]
      pluginVariables := some context.inputs.marshaled
      subscriptionSpec := some spec
      specs := store.specs + 1 }
  else store

def display (store : QueryStore) (marshaled : GraphQLObject) : QueryStore :=
  { store with displayed := some marshaled, lastVariables := some marshaled }

/-- A send has a result, its last one or one that came from the cache. -/
def deliver (store : QueryStore) (index : Nat) : QueryStore :=
  match store.sends[index]? with
  | none => store
  | some send =>
      if send.running then
        { (store.endHook send.context).display send.context.inputs.marshaled with
          sends := store.sends.modify index fun send => { send with settled := true }
          dormant := store.dormant && send.torn }
      else store

/-- A result is thrown after it has gone through the plugin's `end` hook. -/
def throwOnError (store : QueryStore) (index : Nat) : QueryStore :=
  match store.sends[index]? with
  | none => store
  | some send =>
      if send.running then
        { store.endHook send.context with
          sends := store.sends.modify index fun send =>
            { send with settled := true, running := false }
          dormant := store.dormant && send.torn }
      else store

def finish (store : QueryStore) (index : Nat) : QueryStore :=
  { store with
    sends := store.sends.modify index fun send => { send with settled := true, running := false } }

def message (store : QueryStore) (id : Nat) : QueryStore :=
  match store.registered.find? fun spec => spec.id = id with
  | none => store
  | some spec => store.display spec.vars

def cleanup (store : QueryStore) : QueryStore :=
  { store with
    registered := store.unsubscribed
    pluginVariables := if store.subscriptionSpec.isSome then none else store.pluginVariables
    sends := store.sends.map fun send => { send with torn := true }
    current := false
    dormant := true }

def unsubscribe (store : QueryStore) : QueryStore :=
  ({ store with lastVariables := none } : QueryStore).cleanup

end QueryStore

inductive StoreEvent where
  | send (vars : Option GraphQLObject) (runtimeScalars : GraphQLObject)
  | edit (send : Nat) (vars : GraphQLObject)
  | deliver (send : Nat)
  | throwOnError (send : Nat)
  | finish (send : Nat)
  | message (subscription : Nat)
  | cleanup
  | unsubscribe

namespace QueryStore

def step (store : QueryStore) : StoreEvent → QueryStore
  | .send vars runtimeScalars => store.send marshalInputs vars runtimeScalars
  | .edit send vars => store.edit marshalInputs send vars
  | .deliver send => store.deliver send
  | .throwOnError send => store.throwOnError send
  | .finish send => store.finish send
  | .message subscription => store.message subscription
  | .cleanup => store.cleanup
  | .unsubscribe => store.unsubscribe

def run (events : List StoreEvent) : QueryStore :=
  events.foldl (step marshalInputs) {}

/-- There is one subscription, with the variables of what is displayed. -/
def Matches (store : QueryStore) : Prop :=
  match store.displayed with
  | none => store.registered = []
  | some vars => ∃ spec, store.registered = [spec] ∧ SameVariables vars spec.vars

structure Subscribed (store : QueryStore) : Prop where
  /-- No send is pending, and there was one since the store was torn down. -/
  whileCurrent : (∀ send ∈ store.sends, send.settled = true) → store.current = true → store.Matches
  /-- The store has been torn down, and what was sent before that is settled. -/
  onceTorn : store.dormant = true →
    (∀ send ∈ store.sends, send.torn = true → send.settled = true) → store.registered = []

def OtherPending (store : QueryStore) (index : Nat) : Prop :=
  ∃ other ∈ store.sends.eraseIdx index, other.settled = false

/-- When a send leaves the plugin without subscribing, and it is the last one that was pending, what
is displayed already has a subscription. -/
def LeavesCovered (store : QueryStore) (index : Nat) : Prop :=
  store.current = true → store.registered = [] → store.OtherPending index

/-- A send that subscribes began since the store was torn down, or another such send has reached its
end before it. -/
def Resubscribes (store : QueryStore) (send : StoreSend) : Prop :=
  send.torn = true → store.dormant = false

def Careful (store : QueryStore) : StoreEvent → Prop
  | .deliver index => ∀ send, store.sends[index]? = some send → send.running = true →
      if send.context.inputs.changed then store.Resubscribes send
      else store.LeavesCovered index ∧
        -- nothing else was displayed since the send began
        (store.registered ≠ [] → store.lastVariables = send.context.lastVariables)
  | .throwOnError index => ∀ send, store.sends[index]? = some send → send.running = true →
      if send.context.inputs.changed then
        store.Resubscribes send ∧ ∃ vars, store.displayed = some vars ∧
          SameVariables vars send.context.inputs.marshaled
      else store.displayed ≠ none → store.LeavesCovered index
  | .finish index => store.displayed ≠ none → store.LeavesCovered index
  | .send .. | .edit .. | .message _ | .cleanup | .unsubscribe => True

def CarefulRun : QueryStore → List StoreEvent → Prop
  | _, [] => True
  | store, event :: rest => store.Careful event ∧ CarefulRun (store.step marshalInputs event) rest

instance (store : QueryStore) (index : Nat) : Decidable (store.LeavesCovered index) :=
  inferInstanceAs (Decidable (store.current = true → store.registered = [] →
    ∃ other ∈ store.sends.eraseIdx index, other.settled = false))

instance (store : QueryStore) (send : StoreSend) : Decidable (store.Resubscribes send) :=
  inferInstanceAs (Decidable (send.torn = true → store.dormant = false))

instance (store : QueryStore) : (event : StoreEvent) → Decidable (store.Careful event)
  | .deliver index =>
      inferInstanceAs (Decidable (∀ send, send ∈ store.sends[index]? → send.running = true →
        if send.context.inputs.changed then store.Resubscribes send
        else store.LeavesCovered index ∧
          (store.registered ≠ [] → store.lastVariables = send.context.lastVariables)))
  | .throwOnError index =>
      inferInstanceAs (Decidable (∀ send, send ∈ store.sends[index]? → send.running = true →
        if send.context.inputs.changed then
          store.Resubscribes send ∧ ∃ vars, vars ∈ store.displayed ∧
            SameVariables vars send.context.inputs.marshaled
        else store.displayed ≠ none → store.LeavesCovered index))
  | .finish index => inferInstanceAs (Decidable (store.displayed ≠ none → store.LeavesCovered index))
  | .send .. | .edit .. | .message _ | .cleanup | .unsubscribe => inferInstanceAs (Decidable True)

instance : (events : List StoreEvent) → (store : QueryStore) →
    Decidable (CarefulRun marshalInputs store events)
  | [], _ => inferInstanceAs (Decidable True)
  | _ :: rest, _ =>
      haveI := fun store => instDecidableCarefulRun rest store
      inferInstanceAs (Decidable (_ ∧ _))

end QueryStore

end Document

end Client

end Houdini.Runtime
