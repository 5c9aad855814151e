import Houdini.Runtime.Cache.RecordDetachment

/-! A record can be known by two ids for a while: reads look at both in every layer, and both have
one table of subscribers. -/

set_option autoImplicit false

namespace Houdini.Runtime.Cache

inductive LayerWrite where
  | writeField (id field : String) (value : GraphQLValue)
  | writeLink (id field : String) (value : GraphQLValue)
  | deleteField (id field : String)
  | insert (id field : String) (location : OperationLocation) (target : String)
  | remove (id field target : String)

def Layer.write (layer : Layer) : LayerWrite → Layer
  | .writeField id field value => layer.writeField id field value
  | .writeLink id field value => resultState (layer.writeLink id field value)
  | .deleteField id field => layer.deleteField id field
  | .insert id field location target => (layer.insert id field location target).toOption.getD layer
  | .remove id field target => (layer.remove id field target).toOption.getD layer

def InMemoryStorage.write (storage : InMemoryStorage) (layer? : Option LayerID)
    (write : LayerWrite) : InMemoryStorage :=
  match layer? with
  | none =>
      let (layer, storage) := storage.topLayer
      storage.setLayer (layer.write write)
  | some id =>
      match storage.getLayer id with
      | .error _ => storage
      | .ok layer => storage.setLayer (layer.write write)

namespace CacheInternal

def registerKeyMap (cache : CacheInternal) (source mapped : String) : CacheInternal :=
  { cache with
    storage := cache.storage.registerIDMapping source mapped
    subscriptions := cache.subscriptions.copySubscribers source mapped }

inductive KeyMapEvent where
  | write (layer? : Option LayerID) (write : LayerWrite)
  | subscribe (spec : SubscriptionSpec) (vars : GraphQLObject)
  | unsubscribe (spec : SubscriptionSpec) (vars : GraphQLObject)

def apply (cache : CacheInternal) : KeyMapEvent → CacheInternal
  | .write layer? write => { cache with storage := cache.storage.write layer? write }
  | .subscribe spec vars => cache.subscribe spec vars
  | .unsubscribe spec vars => cache.unsubscribe spec vars

def run (cache : CacheInternal) (events : List KeyMapEvent) : CacheInternal :=
  events.foldl apply cache

end CacheInternal

namespace Layer

def HoldsNothing (layer : Layer) (id field : String) : Prop :=
  layer.value id field = .undefined ∧ layer.deletes id = false ∧ layer.listOperations id field = []

/-- The layer holds a field under one of the ids only, or the same under both. -/
def Undivided (layer : Layer) (source mapped field : String) : Prop :=
  layer.HoldsNothing source field ∨ layer.HoldsNothing mapped field ∨
    layer.value source field = layer.value mapped field ∧
      layer.deletes source = layer.deletes mapped ∧
      layer.listOperations source field = layer.listOperations mapped field

def Decides (layer : Layer) (id field : String) : Prop :=
  layer.value id field ≠ .undefined ∨ layer.deletes id = true

instance (layer : Layer) (id field : String) : Decidable (layer.HoldsNothing id field) :=
  inferInstanceAs (Decidable (_ ∧ _ ∧ _))

instance (layer : Layer) (source mapped field : String) :
    Decidable (layer.Undivided source mapped field) :=
  inferInstanceAs (Decidable (_ ∨ _ ∨ _ ∧ _ ∧ _))

instance (layer : Layer) (id field : String) : Decidable (layer.Decides id field) :=
  inferInstanceAs (Decidable (_ ∨ _))

end Layer

/-- From the top down to the layer that decides, no layer is divided about the field. -/
def undividedAbove (source mapped field : String) : List Layer → Prop
  | [] => True
  | layer :: below =>
      layer.Undivided source mapped field ∧
        (layer.Decides source field ∨ layer.Decides mapped field ∨
          undividedAbove source mapped field below)

instance decidableUndividedAbove (source mapped field : String) :
    (layers : List Layer) → Decidable (undividedAbove source mapped field layers)
  | [] => inferInstanceAs (Decidable True)
  | _ :: below =>
      haveI := decidableUndividedAbove source mapped field below
      inferInstanceAs (Decidable (_ ∧ (_ ∨ _ ∨ _)))

def InMemoryStorage.Undivided (storage : InMemoryStorage) (source mapped field : String) : Prop :=
  undividedAbove source mapped field storage.data.reverse

instance (storage : InMemoryStorage) (source mapped field : String) :
    Decidable (storage.Undivided source mapped field) :=
  inferInstanceAs (Decidable (undividedAbove ..))

end Houdini.Runtime.Cache
