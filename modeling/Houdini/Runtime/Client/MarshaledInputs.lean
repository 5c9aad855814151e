import Houdini.Runtime.Client.QueryStore
import Houdini.Runtime.Scalars

/-! The context of a send holds its variables twice: as they were given, and marshaled. A hook
changes the variables on a draft, or hands on a context with other variables, and only what is not
the very same value is marshaled again. -/

set_option autoImplicit false

namespace Houdini.Runtime.Client

/-- A value of a variable. Two lists or objects are only the same if they have the same identity. -/
structure Held where
  identity : Nat
  value : GraphQLValue
  deriving DecidableEq

def isReference : GraphQLValue → Bool
  | .array _ | .object _ | .component .. => true
  | .undefined | .null | .boolean _ | .number _ | .string _ => false

/-- `===` -/
def Held.identical (left right : Held) : Bool :=
  decide (left.value = right.value) &&
    (!isReference left.value || decide (left.identity = right.identity))

abbrev Variables := OrderedMap String Held

abbrev Marshaled := OrderedMap String GraphQLValue

structure MarshaledInputs where
  changed : Bool := false
  init : Bool := false
  marshaled : Marshaled := ∅

structure VariablesContext where
  vars : Option Variables := none
  inputs : MarshaledInputs := {}

def VariablesContext.variables (context : VariablesContext) : Variables :=
  context.vars.getD ∅

def VariablesContext.variable (context : VariablesContext) (name : String) : Held :=
  (context.variables.get? name).getD { identity := 0, value := .undefined }

structure ClientPluginContextWrapper where
  context : VariablesContext := {}
  lastVariables : Option Marshaled

section Document

variable (scalars : Scalars) (input : Option InputObject)

def changedVariables (source : VariablesContext) (vars : Option Variables) : Variables :=
  (vars.getD ∅).filter fun entry => !entry.2.identical (source.variable entry.1)

def properties : GraphQLValue → GraphQLObject
  | .object fields => fields
  | _ => []

namespace ClientPluginContextWrapper

def applyVariables (wrapper : ClientPluginContextWrapper) (source values : VariablesContext) :
    Except JSError VariablesContext :=
  let changed := changedVariables source values.vars
  let inputs (marshaled : Marshaled) : MarshaledInputs :=
    { changed := differs marshaled.entries (wrapper.lastVariables.map OrderedMap.entries)
      init := true
      marshaled }
  if !changed.isEmpty || !values.inputs.init then do
    let fields ← marshalInputs scalars input
      (.object (changed.entries.map fun entry => (entry.1, entry.2.value)))
    return { values with inputs := inputs (source.inputs.marshaled.setAll (properties fields)) }
  else return { values with inputs := inputs values.inputs.marshaled }

def setVariables (wrapper : ClientPluginContextWrapper) (draft : VariablesContext)
    (vars : Option Variables) : Except JSError VariablesContext :=
  wrapper.applyVariables scalars input draft { draft with vars }

def apply (wrapper : ClientPluginContextWrapper) (draft : VariablesContext)
    (vars : Option Variables) : Except JSError VariablesContext :=
  wrapper.applyVariables scalars input wrapper.context { draft with vars }

end ClientPluginContextWrapper

/-- The value of each variable that the caller or a plugin supplied most recently: the ones that
are passed along were supplied before. -/
def suppliedBy (source : VariablesContext) (supplied : Marshaled) (vars : Option Variables) :
    Marshaled :=
  (vars.getD ∅).mapValues fun name held =>
    if held.identical (source.variable name) then (supplied.get? name).getD held.value
    else held.value

/-- A send, at the hook that is running. `supplied` and `draftSupplied` are the values that the
variables of the context and of the draft were supplied with. -/
structure VariablesSend where
  wrapper : ClientPluginContextWrapper
  draft : VariablesContext
  supplied : Marshaled
  draftSupplied : Marshaled
  /-- The send before this one. -/
  previous : Option Nat

structure VariablesStore where
  lastVariables : Option Marshaled := none
  /-- What the query plugin remembers. -/
  pluginVariables : Option Marshaled := none
  sends : List VariablesSend := []
  latest : Option Nat := none

inductive VariablesEvent where
  | send (vars : Option Variables)
  /-- A hook assigns the variables of its draft. -/
  | assign (send : Nat) (vars : Option Variables)
  /-- A hook calls `next` or `resolve` with its draft, or with other variables. -/
  | handOn (send : Nat) (replaced : Option (Option Variables))
  /-- The query plugin fills in what it remembers, under the identities that it has it. -/
  | start (send : Nat) (identity : String → Nat) (resolved : String → Option Held)
  /-- The query plugin remembers the variables of the send. -/
  | «end» (send : Nat) (disableSubscriptions : Bool)
  /-- The send has come back to the store. -/
  | settle (send : Nat)
  /-- A hook throws, and its draft is dropped. -/
  | throw (send : Nat)
  /-- The last reader of the store leaves. -/
  | unsubscribe

namespace VariablesSend

def assign (send : VariablesSend) (vars : Option Variables) : VariablesSend :=
  match send.wrapper.setVariables scalars input send.draft vars with
  | .error _ => send
  | .ok draft =>
      { send with draft, draftSupplied := suppliedBy send.draft send.draftSupplied vars }

def next (send : VariablesSend) : VariablesSend :=
  { send with
    wrapper := { send.wrapper with context := send.draft }
    supplied := send.draftSupplied }

def replace (send : VariablesSend) (vars : Option Variables) : VariablesSend :=
  match send.wrapper.apply scalars input send.draft vars with
  | .error _ => send
  | .ok context =>
      let supplied := suppliedBy send.wrapper.context send.supplied vars
      { send with
        wrapper := { send.wrapper with context }
        draft := context
        supplied
        draftSupplied := supplied }

def throw (send : VariablesSend) : VariablesSend :=
  { send with draft := send.wrapper.context, draftSupplied := send.supplied }

/-- The runtime scalars of the document. One that is not configured is its type's name. -/
def runtimeScalars (resolved : String → Option Held) : List (String × Held) :=
  ((input.map InputObject.runtimeScalars).getD []).map fun (field, type) =>
    (field, (resolved type).getD { identity := 0, value := .string type })

/-- What the query plugin's `start` hook assigns. -/
def startVariables (send : VariablesSend) (remembered : Marshaled) (identity : String → Nat)
    (resolved : String → Option Held) : Variables :=
  ((remembered.mapValues fun name value => { identity := identity name, value }).setAll
    (runtimeScalars input resolved)).setAll send.draft.variables.entries

def startSupplied (send : VariablesSend) (previous : Marshaled)
    (resolved : String → Option Held) : Marshaled :=
  (previous.setAll ((runtimeScalars input resolved).map fun entry =>
    (entry.1, entry.2.value))).setAll send.draftSupplied.entries

def start (send : VariablesSend) (remembered previous : Marshaled) (identity : String → Nat)
    (resolved : String → Option Held) : VariablesSend :=
  match send.wrapper.setVariables scalars input send.draft
      (some (send.startVariables input remembered identity resolved)) with
  | .error _ => send.throw
  | .ok draft =>
      next { send with draft, draftSupplied := send.startSupplied input previous resolved }

end VariablesSend

namespace VariablesStore

def send (store : VariablesStore) (vars : Option Variables) : VariablesStore :=
  let wrapper : ClientPluginContextWrapper := { lastVariables := store.lastVariables }
  match wrapper.setVariables scalars input {} vars with
  | .error _ => store
  | .ok context =>
      let supplied := suppliedBy {} ∅ vars
      { store with
        sends := store.sends ++ [{
          wrapper := { wrapper with context }
          draft := context
          supplied
          draftSupplied := supplied
          previous := store.latest }]
        latest := some store.sends.length }

def previousSupplied (store : VariablesStore) (send : VariablesSend) : Marshaled :=
  match send.previous.bind (store.sends[·]?) with
  | none => ∅
  | some previous => previous.supplied

def endHook (store : VariablesStore) (send : Nat) (disableSubscriptions : Bool) : VariablesStore :=
  match store.sends[send]? with
  | none => store
  | some current =>
      { store with
        pluginVariables :=
          if current.draft.inputs.changed && !disableSubscriptions then
            some current.draft.inputs.marshaled
          else store.pluginVariables
        sends := store.sends.modify send VariablesSend.next }

def step (store : VariablesStore) : VariablesEvent → VariablesStore
  | .send vars => store.send scalars input vars
  | .assign send vars =>
      { store with sends := store.sends.modify send fun send => send.assign scalars input vars }
  | .handOn send none => { store with sends := store.sends.modify send VariablesSend.next }
  | .handOn send (some vars) =>
      { store with sends := store.sends.modify send fun send => send.replace scalars input vars }
  | .start send identity resolved =>
      { store with
        sends := store.sends.modify send fun send =>
          send.start scalars input (store.pluginVariables.getD ∅) (store.previousSupplied send)
            identity resolved }
  | .end send disableSubscriptions => store.endHook send disableSubscriptions
  | .settle send =>
      { store with
        lastVariables :=
          match store.sends[send]? with
          | none => store.lastVariables
          | some send => some send.wrapper.context.inputs.marshaled }
  | .throw send => { store with sends := store.sends.modify send VariablesSend.throw }
  | .unsubscribe => { store with lastVariables := none, pluginVariables := none, latest := none }

def run (events : List VariablesEvent) : VariablesStore :=
  events.foldl (step scalars input) {}

end VariablesStore

/-- What the marshaled inputs should hold: for exactly the variables of the context, the value that
was supplied most recently, marshaled once. -/
structure Tracks (context : VariablesContext) (supplied : Marshaled) : Prop where
  names : ∀ name, (supplied.get? name).isSome = (context.variables.get? name).isSome
  marshaled : ∀ name, (context.inputs.marshaled.get? name).map Except.ok =
    (supplied.get? name).map (marshalVariable scalars input name)

def Keeps (source : VariablesContext) (vars : Option Variables) : Prop :=
  (∀ name ∈ source.variables.keys, ((vars.getD ∅).get? name).isSome = true) ∧
    ∀ entry ∈ (vars.getD ∅).entries, entry.2.value = .undefined →
      (source.variables.get? entry.1).isSome = true

def AgreeOn (names : List String) (left right : Marshaled) : Prop :=
  ∀ name ∈ names, (left.get? name).map (marshalVariable scalars input name) =
    (right.get? name).map (marshalVariable scalars input name)

/-- The variables that replace the draft's keep those of the context, or are all of them and the
same, and the draft's were not given other values meanwhile. -/
def VariablesSend.Replaces (send : VariablesSend) (vars : Option Variables) : Prop :=
  if (changedVariables send.wrapper.context vars).isEmpty then
    let supplied := suppliedBy send.wrapper.context send.supplied vars
    AgreeOn scalars input (supplied.keys ++ send.draftSupplied.keys) send.draftSupplied supplied
  else Keeps send.wrapper.context vars

/-- What the query plugin remembers stands for what the previous send was supplied with: marshaling
it once more makes no difference. -/
def VariablesSend.Fills (send : VariablesSend) (remembered previous : Marshaled)
    (identity : String → Nat) (resolved : String → Option Held) : Prop :=
  Keeps send.draft (some (send.startVariables input remembered identity resolved)) ∧
    AgreeOn scalars input
      ((remembered.keys ++ previous.keys).filter fun name =>
        (send.draft.variables.get? name).isNone &&
          !((VariablesSend.runtimeScalars input resolved).map Prod.fst).contains name)
      remembered previous

def VariablesStore.Careful (store : VariablesStore) : VariablesEvent → Prop
  | .send vars => Keeps {} vars
  | .assign index vars => ∀ send ∈ store.sends[index]?, Keeps send.draft vars
  | .handOn index (some vars) =>
      ∀ send ∈ store.sends[index]?, send.Replaces scalars input vars
  | .start index identity resolved => ∀ send ∈ store.sends[index]?,
      send.Fills scalars input (store.pluginVariables.getD ∅) (store.previousSupplied send)
        identity resolved
  | .handOn _ none | .end .. | .settle _ | .throw _ | .unsubscribe => True

def VariablesStore.CarefulRun : VariablesStore → List VariablesEvent → Prop
  | _, [] => True
  | store, event :: rest =>
      store.Careful scalars input event ∧ CarefulRun (store.step scalars input event) rest

instance (source : VariablesContext) (vars : Option Variables) : Decidable (Keeps source vars) :=
  inferInstanceAs (Decidable (_ ∧ _))

instance (names : List String) (left right : Marshaled) :
    Decidable (AgreeOn scalars input names left right) :=
  inferInstanceAs (Decidable (∀ name ∈ names, _ = _))

instance (send : VariablesSend) (vars : Option Variables) :
    Decidable (send.Replaces scalars input vars) :=
  inferInstanceAs (Decidable
    (if (changedVariables send.wrapper.context vars).isEmpty then
      let supplied := suppliedBy send.wrapper.context send.supplied vars
      AgreeOn scalars input (supplied.keys ++ send.draftSupplied.keys) send.draftSupplied supplied
    else Keeps send.wrapper.context vars))

instance (send : VariablesSend) (remembered previous : Marshaled) (identity : String → Nat)
    (resolved : String → Option Held) :
    Decidable (send.Fills scalars input remembered previous identity resolved) :=
  inferInstanceAs (Decidable (Keeps _ _ ∧ AgreeOn scalars input _ _ _))

instance (store : VariablesStore) :
    (event : VariablesEvent) → Decidable (store.Careful scalars input event)
  | .send _ => inferInstanceAs (Decidable (Keeps _ _))
  | .assign index _ =>
      inferInstanceAs (Decidable (∀ send ∈ store.sends[index]?, Keeps send.draft _))
  | .handOn index (some _) =>
      inferInstanceAs (Decidable (∀ send ∈ store.sends[index]?, send.Replaces scalars input _))
  | .start index _ _ =>
      inferInstanceAs (Decidable (∀ send ∈ store.sends[index]?,
        send.Fills scalars input _ _ _ _))
  | .handOn _ none | .end .. | .settle _ | .throw _ | .unsubscribe =>
      inferInstanceAs (Decidable True)

instance decidableCarefulRun : (events : List VariablesEvent) → (store : VariablesStore) →
    Decidable (store.CarefulRun scalars input events)
  | [], _ => inferInstanceAs (Decidable True)
  | _ :: rest, _ =>
      haveI := fun store => decidableCarefulRun rest store
      inferInstanceAs (Decidable (_ ∧ _))

end Document

end Houdini.Runtime.Client
