import Houdini.Runtime.Cache.Layer
import Houdini.Runtime.Config
import Houdini.Runtime.Selection

/-! Optimistic keys: requests whose variables hold a generated key wait for the real value.
What is told to the cache about the records is left out. -/

set_option autoImplicit false

namespace Houdini.Runtime

namespace GraphQLValue

def flattenLevels : Nat → List GraphQLValue → List GraphQLValue
  | 0, _ => []
  | levels + 1, source =>
      source.filter (!·.isArray) ++ flattenLevels levels (source.flatMap GraphQLValue.items)

mutual

def nesting : GraphQLValue → Nat
  | .array items => nestingItems items + 1
  | _ => 0

def nestingItems : List GraphQLValue → Nat
  | [] => 0
  | item :: rest => max (nesting item) (nestingItems rest)

end

def flattenList (source : List GraphQLValue) : List GraphQLValue :=
  flattenLevels (nestingItems source + 1) source

mutual

def distinctNames : GraphQLValue → Bool
  | .array items => distinctNamesItems items
  | .object fields => decide (fields.map Prod.fst).Nodup && distinctNamesFields fields
  | _ => true

def distinctNamesItems : List GraphQLValue → Bool
  | [] => true
  | item :: rest => distinctNames item && distinctNamesItems rest

def distinctNamesFields : List (String × GraphQLValue) → Bool
  | [] => true
  | (_, value) :: rest => distinctNames value && distinctNamesFields rest

end

mutual

def keyTexts : GraphQLValue → List String
  | .string text | .number text => [text]
  | .array items => keyTextsItems items
  | .object fields => keyTextsFields fields
  | _ => []

def keyTextsItems : List GraphQLValue → List String
  | [] => []
  | item :: rest => keyTexts item ++ keyTextsItems rest

def keyTextsFields : List (String × GraphQLValue) → List String
  | [] => []
  | (_, value) :: rest => keyTexts value ++ keyTextsFields rest

end

mutual

def substitute (real : String → Option GraphQLValue) : GraphQLValue → GraphQLValue
  | .string text => (real text).getD (.string text)
  | .number text => (real text).getD (.number text)
  | .array items => .array (substituteItems real items)
  | .object fields => .object (substituteFields real fields)
  | value => value

def substituteItems (real : String → Option GraphQLValue) :
    List GraphQLValue → List GraphQLValue
  | [] => []
  | item :: rest => substitute real item :: substituteItems real rest

def substituteFields (real : String → Option GraphQLValue) :
    List (String × GraphQLValue) → List (String × GraphQLValue)
  | [] => []
  | (name, value) :: rest => (name, substitute real value) :: substituteFields real rest

end

end GraphQLValue

namespace Client

section Variables

open GraphQLValue

mutual

/-- `extractInputKeys` for the value of a property. Only a string that is itself the value of
a property is looked at, and of a list only the objects. -/
def extractInputKeys (store : String → Bool) : GraphQLValue → List String
  | .string text => if store text then [text] else []
  | .array items => extractInputKeysItems store items
  | .object fields => extractInputKeysFields store fields
  | _ => []

def extractInputKeysItems (store : String → Bool) : List GraphQLValue → List String
  | [] => []
  | .array items :: rest =>
      extractInputKeysItems store items ++ extractInputKeysItems store rest
  | .object fields :: rest =>
      extractInputKeysFields store fields ++ extractInputKeysItems store rest
  | _ :: rest => extractInputKeysItems store rest

def extractInputKeysFields (store : String → Bool) : List (String × GraphQLValue) → List String
  | [] => []
  | (_, value) :: rest => extractInputKeys store value ++ extractInputKeysFields store rest

end

mutual

/-- `replaceKeyWithVariable` for the value of a property. A falsy value replaces nothing. -/
def replaceKey (keys : String → GraphQLValue) : GraphQLValue → GraphQLValue
  | .string text => if (keys text).truthy then keys text else .string text
  | .array items => .array (replaceKeyItems keys items)
  | .object fields => .object (replaceKeyWithVariable keys fields)
  | value => value

def replaceKeyItems (keys : String → GraphQLValue) : List GraphQLValue → List GraphQLValue
  | [] => []
  | .array items :: rest => .array (replaceKeyItems keys items) :: replaceKeyItems keys rest
  | .object fields :: rest =>
      .object (replaceKeyWithVariable keys fields) :: replaceKeyItems keys rest
  | item :: rest => item :: replaceKeyItems keys rest

def replaceKeyWithVariable (keys : String → GraphQLValue) :
    List (String × GraphQLValue) → List (String × GraphQLValue)
  | [] => []
  | (name, value) :: rest => (name, replaceKey keys value) :: replaceKeyWithVariable keys rest

end

end Variables

/-- A step into a response. The text of a path is `.field` and `[index]` for its steps. -/
inductive PathSegment where
  | field (name : String)
  | index (position : Nat)
  deriving DecidableEq, Repr

abbrev ResponsePath := List PathSegment

structure GeneratedKey where
  mutationID : Nat
  path : ResponsePath
  /-- A string, or a number. -/
  key : GraphQLValue

/-- The maps that all documents share, and what was generated so far. -/
structure KeyStores where
  /-- The requests that wait for a key. -/
  callbacks : OrderedMap String (List Nat) := ∅
  keys : OrderedMap Nat (OrderedMap ResponsePath GraphQLValue) := ∅
  objectIDs : OrderedMap Nat (OrderedMap String String) := ∅
  /-- How often the clock was read. -/
  readings : Nat := 0
  generated : List GeneratedKey := []

/-- What every object has: looking one of these up finds a function. Assigning `__proto__`
adds no property, so that it is never found. -/
def inheritedNames : List String :=
  ["constructor", "hasOwnProperty", "isPrototypeOf", "propertyIsEnumerable", "toLocaleString",
    "toString", "valueOf", "__defineGetter__", "__defineSetter__", "__lookupGetter__",
    "__lookupSetter__"]

structure KeyEnvironment where
  configFile : ConfigFile := {}
  /-- What the clock says the nth time it is read. -/
  dateNow : Nat → Nat

abbrev Generating := EStateM JSError KeyStores

def generateKey (environment : KeyEnvironment) (type : String) : Generating GraphQLValue := do
  let stores ← get
  let now := Nat.repr (environment.dateNow stores.readings)
  if type = "Int" then
    set { stores with readings := stores.readings + 1 }
    return .number now
  else if type = "String" ∨ type = "ID" then
    set { stores with readings := stores.readings + 1 }
    return .string now
  else
    throw (.error ("unsupported type for optimistic key: " ++ type ++
      ". Please provide a value in your mutation arguments."))

/-- Register a key. The paths of the mutation are assigned, not added to. -/
def KeyStores.register (stores : KeyStores) (generated : GeneratedKey) : KeyStores :=
  { stores with
    callbacks := stores.callbacks.set generated.key.propertyKey []
    keys := stores.keys.set generated.mutationID (.singleton generated.path generated.key)
    generated := stores.generated ++ [generated] }

def KeyStores.trackObject (stores : KeyStores) (mutationID : Nat) (key objectID : String) :
    KeyStores :=
  { stores with
    objectIDs := stores.objectIDs.set mutationID
      (((stores.objectIDs.get? mutationID).getD ∅).set key objectID) }

/-- A key in an optimistic response. A value that is already there is marshaled with a
selection that does not have it. -/
def addKey (environment : KeyEnvironment) (mutationID : Nat) (path : ResponsePath)
    (type : String) (value : GraphQLValue) : Generating GraphQLValue := do
  if value.truthy then throw .typeError
  let key ← generateKey environment type
  modify (·.register { mutationID, path, key })
  return key

/-- The response and its new keys after a field that is marked as an optimistic key. -/
def addOwnKey (environment : KeyEnvironment) (mutationID : Nat) (path : ResponsePath)
    (found : GraphQLObject × List GraphQLValue) (name : String) (field : SelectionField) :
    Generating (GraphQLObject × List GraphQLValue) :=
  if field.optimisticKey then do
    let key ← addKey environment mutationID path field.type (found.1.property name)
    return (found.1.setProperty name key, found.2 ++ [key])
  else return found

def addNestedKeys (walk : SubscriptionSelection → GraphQLObject → ResponsePath → Generating Unit)
    (path : ResponsePath) : Option SubscriptionSelection → GraphQLValue → Generating Unit
  | some selection, .array items =>
      (GraphQLValue.flattenList items).zipIdx.forM fun (item, index) =>
        match item with
        | .object fields => walk selection fields (path ++ [.index index])
        | _ => return
  | some selection, .object fields => walk selection fields path
  | _, _ => return

def addFieldKeys (environment : KeyEnvironment) (mutationID : Nat)
    (walk : Option String → SubscriptionSelection → GraphQLObject → ResponsePath → Generating Unit)
    (path : ResponsePath) (found : GraphQLObject × List GraphQLValue)
    (entry : String × SelectionField) : Generating (GraphQLObject × List GraphQLValue) := do
  let pathSoFar := path ++ [.field entry.1]
  let added ← addOwnKey environment mutationID pathSoFar found entry.1 entry.2
  addNestedKeys (walk (some entry.2.type)) pathSoFar entry.2.selection (found.1.property entry.1)
  return added

def trackObjects (mutationID : Nat) (objectID : String) (newKeys : List GraphQLValue) :
    Generating Unit :=
  newKeys.forM fun key => modify (·.trackObject mutationID key.propertyKey objectID)

/-- `addKeysToResponse`, with enough fuel for the selection. The root object has no type. -/
def addKeysToResponse (environment : KeyEnvironment) (mutationID : Nat) :
    (fuel : Nat) → (type : Option String) → SubscriptionSelection → GraphQLObject →
      ResponsePath → Generating Unit
  | 0, _, _, _, _ => return
  | fuel + 1, type, selection, response, path => do
      match getFieldsForType selection (response.property "__typename").text? with
      | none => throw .typeError
      | some targetSelection =>
          let (response, newKeys) ← targetSelection.foldlM
            (addFieldKeys environment mutationID
              (addKeysToResponse environment mutationID fuel) path) (response, [])
          let objectID := type.getD "undefined" ++ ":" ++
            computeID environment.configFile (type.getD "") response
          trackObjects mutationID objectID newKeys

/-- What `extractResponseKeys` comes across: a string, or a type without a selection. -/
inductive ResponseVisit where
  | text (path : ResponsePath) (value : String)
  | malformed

def itemVisits {Visit : Type} (walk : GraphQLObject → ResponsePath → List Visit)
    (path : ResponsePath) (entry : GraphQLValue × Nat) : List Visit :=
  match entry.1 with
  | .object fields => walk fields (path ++ [.index entry.2])
  | _ => []

def nestedVisits {Visit : Type}
    (walk : SubscriptionSelection → GraphQLObject → ResponsePath → List Visit)
    (path : ResponsePath) : Option SubscriptionSelection → GraphQLValue → List Visit
  | some selection, .array items =>
      (GraphQLValue.flattenList items).zipIdx.flatMap (itemVisits (walk selection) path)
  | some selection, .object fields => walk selection fields path
  | _, _ => []

def textVisits (path : ResponsePath) : GraphQLValue → List ResponseVisit
  | .string value => [.text path value]
  | _ => []

def propertyVisits
    (walk : SubscriptionSelection → GraphQLObject → ResponsePath → List ResponseVisit)
    (path : ResponsePath) (targetSelection : Option FieldSelections)
    (property : String × GraphQLValue) : List ResponseVisit :=
  let pathSoFar := path ++ [.field property.1]
  textVisits pathSoFar property.2 ++
    match targetSelection with
    | none => [.malformed]
    | some targetSelection =>
        nestedVisits walk pathSoFar ((targetSelection.lookup property.1).bind (·.selection))
          property.2

def responseVisits : (fuel : Nat) → SubscriptionSelection → GraphQLObject → ResponsePath →
    List ResponseVisit
  | 0, _, _, _ => []
  | fuel + 1, selection, response, path =>
      response.flatMap (propertyVisits (responseVisits fuel) path
        (getFieldsForType selection (response.property "__typename").text?))

/-- A request that was stopped before the network, with what it knows of its keys. -/
structure BlockedRequest where
  vars : GraphQLObject
  pending : OrderedMap String (Option GraphQLValue)

def BlockedRequest.value (request : BlockedRequest) (key : String) : GraphQLValue :=
  ((request.pending.get? key).getD none).getD .undefined

/-- A request that went on to the network. It remembers the variables it came with, and the
keys that were pending and the values that were known when it did. -/
structure SentRequest where
  original : GraphQLObject
  vars : GraphQLObject
  pendingKeys : List String
  returned : OrderedMap String GraphQLValue

structure FiredCallback where
  request : Nat
  key : String
  value : GraphQLValue

/-- A mutation that got an id, and how far it came. -/
structure OptimisticMutation where
  selection : SubscriptionSelection
  responded : Bool := false
  ended : Bool := false

structure OptimisticKeys extends KeyStores where
  mutations : List OptimisticMutation := []
  blocked : List BlockedRequest := []
  sent : List SentRequest := []
  fired : List FiredCallback := []
  /-- The real values that came back. -/
  returned : OrderedMap String GraphQLValue := ∅

namespace OptimisticKeys

def send (plugin : OptimisticKeys) (original vars : GraphQLObject) : OptimisticKeys :=
  { plugin with
    sent := plugin.sent ++
      [{ original, vars, pendingKeys := plugin.callbacks.keys, returned := plugin.returned }] }

/-- Looking up a key finds a list of callbacks, or something inherited. -/
def isStored (plugin : OptimisticKeys) (text : String) : Bool :=
  (plugin.callbacks.get? text).isSome || decide (text ∈ inheritedNames)

/-- Add a callback for each key. Something inherited cannot be added to, which fails the
request but keeps what was registered before. -/
def addCallbacks (plugin : OptimisticKeys) (request : Nat) : List String → OptimisticKeys
  | [] => plugin
  | key :: rest =>
      match plugin.callbacks.get? key with
      | none => plugin
      | some waiting =>
          addCallbacks { plugin with callbacks := plugin.callbacks.set key (waiting ++ [request]) }
            request rest

def beforeNetwork (plugin : OptimisticKeys) (vars : GraphQLObject) : OptimisticKeys :=
  if plugin.keys.isEmpty then plugin.send vars vars
  else
    let found := extractInputKeysFields plugin.isStored vars
    if found = [] then plugin.send vars vars
    else
      let pending := OrderedMap.ofList (found.map fun key => (key, none))
      let request : BlockedRequest := { vars, pending }
      addCallbacks { plugin with blocked := plugin.blocked ++ [request] } plugin.blocked.length
        pending.keys

def fireCallback (plugin : OptimisticKeys) (request : Nat) (key : String)
    (value : GraphQLValue) : OptimisticKeys :=
  match plugin.blocked[request]? with
  | none => plugin
  | some waiting =>
      let known := { waiting with pending := waiting.pending.set key (some value) }
      let plugin :=
        { plugin with
          blocked := plugin.blocked.set request known
          fired := plugin.fired ++ [{ request := request, key := key, value := value }] }
      if known.pending.values.all Option.isSome then
        plugin.send known.vars (replaceKeyWithVariable known.value known.vars)
      else plugin

def onNewKey (plugin : OptimisticKeys) (key : String) (value : GraphQLValue) :
    Except JSError OptimisticKeys :=
  match plugin.callbacks.get? key with
  | none => .error .typeError
  | some waiting =>
      let known := { plugin with returned := plugin.returned.set key value }
      let notified := waiting.foldl (fun plugin request => plugin.fireCallback request key value) known
      .ok { notified with callbacks := notified.callbacks.erase key }

/-- `extractResponseKeys` along its walk. What was done before it failed stays. -/
def drain (plugin : OptimisticKeys) (mutationID : Nat) :
    List ResponseVisit → OptimisticKeys × Option JSError
  | [] => (plugin, none)
  | .malformed :: _ => (plugin, some .typeError)
  | .text path value :: rest =>
      match plugin.keys.get? mutationID with
      | none => (plugin, some .typeError)
      | some paths =>
          match paths.get? path with
          | none => plugin.drain mutationID rest
          | some newKey =>
              match plugin.onNewKey newKey.propertyKey (.string value) with
              | .error error => (plugin, some error)
              | .ok notified =>
                  match notified.objectIDs.get? mutationID with
                  | none => (notified, some .typeError)
                  | some _ => notified.drain mutationID rest

def setMutation (plugin : OptimisticKeys) (mutationID : Nat) (mutation : OptimisticMutation) :
    OptimisticKeys :=
  { plugin with mutations := plugin.mutations.set (mutationID - 1) mutation }

/-- What can happen to documents that go through the plugin. -/
inductive Event where
  /-- A mutation with optimistic keys starts with an optimistic response. -/
  | start (selection : SubscriptionSelection) (optimisticResponse : GraphQLObject)
  | beforeNetwork (vars : GraphQLObject)
  /-- The answer to a mutation, parsed. Without data there is an empty object. -/
  | afterNetwork (mutationID : Nat) (data : GraphQLObject)
  | end (mutationID : Nat)
  /-- A mutation ends with an exception, which no hook of the plugin sees. -/
  | fail (mutationID : Nat)

def running? (plugin : OptimisticKeys) (mutationID : Nat) : Option OptimisticMutation :=
  if mutationID = 0 then none
  else plugin.mutations[mutationID - 1]?.filter (!·.ended)

def invocationCounter (plugin : OptimisticKeys) : Nat := plugin.mutations.length + 1

def apply (environment : KeyEnvironment) (plugin : OptimisticKeys) : Event → Option OptimisticKeys
  | .start selection optimisticResponse =>
      match addKeysToResponse environment plugin.invocationCounter selection.depth none selection
          optimisticResponse [] plugin.toKeyStores with
      | .ok _ stores =>
          some { plugin with
            toKeyStores := stores
            mutations := plugin.mutations ++ [{ selection }] }
      | .error _ stores =>
          some { plugin with
            toKeyStores := stores
            mutations := plugin.mutations ++ [{ selection, ended := true }] }
  | .beforeNetwork vars => some (plugin.beforeNetwork vars)
  | .afterNetwork mutationID data =>
      match plugin.running? mutationID with
      | none => none
      | some mutation =>
          if mutation.responded || !(GraphQLValue.object data).distinctNames then none
          else
            match plugin.drain mutationID
                (responseVisits mutation.selection.depth mutation.selection data []) with
            | (drained, none) =>
                some (drained.setMutation mutationID { mutation with responded := true })
            | (drained, some _) =>
                some (drained.setMutation mutationID { mutation with ended := true })
  | .end mutationID =>
      match plugin.running? mutationID with
      | none => none
      | some mutation =>
          let cleaned :=
            { plugin with
              keys := plugin.keys.erase mutationID
              objectIDs := plugin.objectIDs.erase mutationID }
          some (cleaned.setMutation mutationID { mutation with ended := true })
  | .fail mutationID =>
      match plugin.running? mutationID with
      | none => none
      | some mutation => some (plugin.setMutation mutationID { mutation with ended := true })

/-- The states that the plugin goes through. -/
inductive Run (environment : KeyEnvironment) (permitted : OptimisticKeys → Event → Prop) :
    OptimisticKeys → Prop where
  | start : Run environment permitted {}
  | step {plugin next : OptimisticKeys} {event : Event} (run : Run environment permitted plugin)
      (condition : permitted plugin event) (applied : plugin.apply environment event = some next) :
      Run environment permitted next

end OptimisticKeys

end Client

end Houdini.Runtime
