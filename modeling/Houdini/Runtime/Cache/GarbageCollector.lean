import Houdini.Runtime.Cache.Lists
import Houdini.Runtime.Cache.StaleManager
import Houdini.Runtime.Cache.Storage
import Houdini.Runtime.Cache.Subscriptions
import Houdini.Runtime.Config

/-! Collecting the fields that nobody has looked at for a while. -/

set_option autoImplicit false

namespace Houdini.Runtime.Cache

/-- How many ticks ago a field was last in use. -/
structure GarbageCollector where
  lifetimes : EntityMap Nat := ∅

namespace GarbageCollector

def resetLifetime (collector : GarbageCollector) (id field : String) : GarbageCollector :=
  { lifetimes := collector.lifetimes.setIn id field 0 }

def deleteField (collector : GarbageCollector) (id field : String) : GarbageCollector :=
  let left := ((collector.lifetimes.get? id).getD ∅).erase field
  { lifetimes :=
      if left.isEmpty then collector.lifetimes.erase id else collector.lifetimes.set id left }

end GarbageCollector

structure CacheInternal where
  configFile : ConfigFile := {}
  storage : InMemoryStorage := {}
  subscriptions : InMemorySubscriptions := {}
  lists : ListManager := {}
  lifetimes : GarbageCollector := {}
  staleManager : StaleManager := {}

namespace CacheInternal

def inUse (cache : CacheInternal) (id field : String) : Bool :=
  !(cache.subscriptions.get id field).isEmpty ||
    !(cache.subscriptions.getMaskedParents id field).isEmpty

def collectField (cache : CacheInternal) (id field : String) : CacheInternal :=
  { cache with
    storage := cache.storage.deleteField id field
    lists := cache.lists.deleteField id field
    lifetimes := cache.lifetimes.deleteField id field
    staleManager := cache.staleManager.delete id field }

def tickLifetime (cache : CacheInternal) (id field : String) (lifetime : Nat) : CacheInternal :=
  let cache :=
    { cache with lifetimes := ⟨cache.lifetimes.lifetimes.setIn id field (lifetime + 1)⟩ }
  if cache.configFile.cacheBufferSize < lifetime + 1 then cache.collectField id field else cache

def tickFieldTime (now : Nat) (cache : CacheInternal) (id field : String) : CacheInternal :=
  match cache.configFile.defaultLifetime, cache.staleManager.getFieldTime id field with
  | some maxTime, some (some time) =>
      if 0 < maxTime ∧ 0 < time ∧ time + maxTime < now then
        { cache with staleManager := cache.staleManager.markFieldStale id field }
      else cache
  | _, _ => cache

def tickField (now : Nat) (cache : CacheInternal) (entry : String × String × Nat) :
    CacheInternal :=
  let (id, field, lifetime) := entry
  if cache.inUse id field then cache
  else tickFieldTime now (cache.tickLifetime id field lifetime) id field

/-- `tick`. Nothing that it does changes which other fields are looked at. -/
def tick (now : Nat) (cache : CacheInternal) : CacheInternal :=
  cache.lifetimes.lifetimes.entriesIn.foldl (tickField now) cache

def removeUndefinedFields (storage : InMemoryStorage) : InMemoryStorage :=
  let (layer, storage) := storage.topLayer
  storage.setLayer layer.removeUndefinedFields

def collectGarbage (now : Nat) (cache : CacheInternal) : CacheInternal :=
  let cache := tick now cache
  if cache.storage.data.length = 1 then
    { cache with storage := removeUndefinedFields cache.storage }
  else cache

end CacheInternal

end Houdini.Runtime.Cache
