import Houdini.Runtime.Cache.Layer

/-! The layered in-memory store. Reads walk the layers from the top and apply
the list operations they meet to the first list they find. -/

set_option autoImplicit false

namespace Houdini.Runtime.Cache

/-- `data` is ordered from the base layer to the topmost one. -/
structure InMemoryStorage where
  data : List Layer := []
  idCount : LayerID := 1
  rank : Nat := 0
  idMaps : OrderedMap String String := ∅
  typenames : OrderedMap String String := ∅

structure FieldResult where
  value : GraphQLValue
  kind : FieldKind
  displayLayers : List LayerID
  deriving DecidableEq, Repr

namespace FieldResult

/-- What `get` answers when no layer holds the field. -/
def missing : FieldResult := ⟨.undefined, .unknown, []⟩

end FieldResult

structure PendingOperations where
  insertStart : List String := []
  insertEnd : List String := []
  removeSet : List String := []
  layerIDs : List LayerID := []
  deriving DecidableEq, Repr

namespace PendingOperations

def isEmpty (pending : PendingOperations) : Bool :=
  pending.removeSet.isEmpty && pending.insertStart.isEmpty && pending.insertEnd.isEmpty

def addLayer (pending : PendingOperations) (id : LayerID) : PendingOperations :=
  { pending with layerIDs := pending.layerIDs ++ [id] }

def applyOperations (pending : PendingOperations) :
    List Operation → Option PendingOperations
  | [] => some pending
  | .list (.remove id) :: rest =>
      applyOperations { pending with removeSet := pending.removeSet ++ [id] } rest
  | .list (.insert .end id) :: rest =>
      applyOperations { pending with insertEnd := id :: pending.insertEnd } rest
  | .list (.insert .start id) :: rest =>
      applyOperations { pending with insertStart := pending.insertStart ++ [id] } rest
  | .delete _ :: _ => none

def isRemoved (pending : PendingOperations) : GraphQLValue → Bool
  | .string id => pending.removeSet.contains id
  | _ => false

def display (pending : PendingOperations) (entries : List GraphQLValue) : List GraphQLValue :=
  (pending.insertStart.map GraphQLValue.string ++ entries ++
      pending.insertEnd.map GraphQLValue.string).filter fun value => !pending.isRemoved value

end PendingOperations

namespace Layer

def undoesDelete (layer : Layer) (id field : String) : Bool :=
  (((layer.operations.get? id).bind (·.undoDeletesInList)).getD []).contains field

/-- The ids that the layer's deletes hide from a list: every deleted id whose
delete is not undone for the field, together with the id it is mapped to. -/
def hiddenIDs (layer : Layer) (idMaps : OrderedMap String String) (field : String) :
    List String :=
  layer.deletedIDs.flatMap fun id =>
    if layer.undoesDelete id field then []
    else id :: (idMaps.get? id).toList.filter (· != "")

end Layer

namespace InMemoryStorage

def nextRank (storage : InMemoryStorage) : Nat × InMemoryStorage :=
  (storage.rank, { storage with rank := storage.rank + 1 })

def recordIDs (storage : InMemoryStorage) (targetID : String) : List String :=
  match storage.idMaps.get? targetID with
  | some mapped => if mapped = "" then [targetID] else [mapped, targetID]
  | none => [targetID]

/-- The loop of `get` over the layers, topmost first, and the ids of the record. -/
def getFrom (idMaps : OrderedMap String String) (field : String) :
    PendingOperations → List (Layer × String) → FieldResult
  | _, [] => .missing
  | pending, (layer, id) :: rest =>
      let (layerValue, kind) := layer.get id field
      let layerOperations := (layer.getOperations id field).getD []
      let pending :=
        { pending with removeSet := pending.removeSet ++ layer.hiddenIDs idMaps field }
      if !layerValue.isDefined && layerOperations.isEmpty then
        -- a layer with deletes contributes even when it does not hold the field
        getFrom idMaps field
          (if layer.deletedIDs.isEmpty then pending else pending.addLayer layer.id) rest
      else if layerValue.isDefined && !layerValue.isArray then
        ⟨layerValue, kind, [layer.id]⟩
      else
        match (pending.addLayer layer.id).applyOperations layerOperations with
        | none => .missing
        | some pending =>
            if !layerValue.isDefined then getFrom idMaps field pending rest
            else if pending.isEmpty then ⟨layerValue, .link, pending.layerIDs⟩
            else ⟨.array (pending.display layerValue.items), kind, pending.layerIDs⟩

/-- `get` without a default value. -/
def get (storage : InMemoryStorage) (targetID field : String) : FieldResult :=
  getFrom storage.idMaps field {}
    (storage.data.reverse.flatMap fun layer =>
      (storage.recordIDs targetID).map fun id => (layer, id))

def createLayer (storage : InMemoryStorage) (optimistic : Bool := false) :
    Layer × InMemoryStorage :=
  let layer : Layer := { id := storage.idCount, optimistic }
  (layer, { storage with idCount := storage.idCount + 1, data := storage.data ++ [layer] })

def getLayer (storage : InMemoryStorage) (id : LayerID) : Except JSError Layer :=
  match storage.data.find? (·.id == id) with
  | some layer => .ok layer
  | none => .error (.error s!"Could not find layer with id: {id}")

def setLayer (storage : InMemoryStorage) (layer : Layer) : InMemoryStorage :=
  { storage with
    data := storage.data.map fun current => if current.id = layer.id then layer else current }

/-- The layer that is safe to write to: a new one when the stack is empty or
its last layer is optimistic. -/
def topLayer (storage : InMemoryStorage) : Layer × InMemoryStorage :=
  match storage.data.getLast? with
  | none => storage.createLayer
  | some layer => if layer.optimistic then storage.createLayer else (layer, storage)

/-- `get` with a default value: a field that the topmost layer does not hold is
written to the top layer. -/
def getOrWrite (storage : InMemoryStorage) (targetID field : String)
    (defaultValue : GraphQLValue) : FieldResult × InMemoryStorage :=
  match storage.data.getLast?, storage.recordIDs targetID with
  | some layer, id :: _ =>
      let (layerValue, kind) := layer.get id field
      if !layerValue.isDefined && defaultValue.truthy then
        let (target, storage) := storage.topLayer
        (⟨defaultValue, kind, [layer.id]⟩,
          storage.setLayer (target.writeField id field defaultValue))
      else (storage.get targetID field, storage)
  | _, _ => (storage.get targetID field, storage)

def registerIDMapping (storage : InMemoryStorage) (source target : String) : InMemoryStorage :=
  { storage with idMaps := (storage.idMaps.set source target).set target source }

/-- `removeEmbeddedRecord`: optimistic layers keep their own copy. -/
def removeEmbeddedRecord (storage : InMemoryStorage) (id : String) : InMemoryStorage :=
  { storage with
    data := storage.data.map fun layer =>
      if layer.optimistic then layer
      else { layer with fields := layer.fields.erase id, links := layer.links.erase id }
    typenames := storage.typenames.erase id }

def writeField (storage : InMemoryStorage) (id field : String) (value : GraphQLValue) :
    InMemoryStorage :=
  let (layer, storage) := storage.topLayer
  storage.setLayer (layer.writeField id field value)

def deleteField (storage : InMemoryStorage) (id field : String) : InMemoryStorage :=
  let (layer, storage) := storage.topLayer
  storage.setLayer (layer.deleteField id field)

/-- Merge the leading non-optimistic layers into the base layer. The layers that
are left start with the first optimistic one. -/
def mergeUp (base : Layer) : List Layer → EStateM.Result JSError Layer (List Layer)
  | [] => .ok [] base
  | layer :: rest =>
      if layer.optimistic then .ok (layer :: rest) base
      else
        match base.writeLayer layer with
        | .error error base => .error error base
        | .ok _ base => mergeUp base rest

def startingIndex (data : List Layer) (index : Nat) : Nat :=
  let below := index - 1
  if ((data[below]?).map (·.optimistic)).getD false then below + 1 else below

def resolveLayer (storage : InMemoryStorage) (id : LayerID) :
    EStateM.Result JSError InMemoryStorage Unit :=
  match storage.data.findIdx? (·.id == id) with
  | none => .error (.error s!"could not find layer with id: {id}") storage
  | some index =>
      -- it is not optimistic any more
      let data := storage.data.modify index fun layer => { layer with optimistic := false }
      let start := startingIndex data index
      match data.drop start with
      | [] => .error .typeError { storage with data }
      | base :: above =>
          match mergeUp base above with
          | .error error base =>
              .error error { storage with data := data.take start ++ base :: above }
          | .ok remaining base =>
              let data := data.take start ++ base :: remaining
              let idMaps := if data.length = 1 then ∅ else storage.idMaps
              .ok () { storage with data, idMaps }

def hydrate (storage : InMemoryStorage) (rank : Nat) (fields links : EntityMap GraphQLValue)
    (layer? : Option LayerID) : Layer × InMemoryStorage :=
  let storage := { storage with rank }
  let (layer, storage) :=
    match layer?.bind fun id => storage.data.find? (·.id == id) with
    | some layer => (layer, storage)
    | none => storage.createLayer true
  let layer := { layer with fields, links }
  (layer, storage.setLayer layer)

/-- `getTypename`, which remembers what it looks up. -/
def getTypename (storage : InMemoryStorage) (id : String) :
    Option String × InMemoryStorage :=
  match storage.typenames.get? id with
  | some typename => (some typename, storage)
  | none =>
      match (storage.get id "__typename").value with
      | .string typename =>
          (some typename, { storage with typenames := storage.typenames.set id typename })
      | _ => (none, storage)

def reset (storage : InMemoryStorage) : InMemoryStorage :=
  { storage with data := [], typenames := ∅ }

end InMemoryStorage

end Houdini.Runtime.Cache
