import Houdini.Runtime.Cache.GarbageCollection

/-! How fields age while nobody uses them, and that they then leave the store. -/

set_option autoImplicit false

namespace Houdini.Runtime.Cache

namespace CacheInternal

section Ages

variable {cache : CacheInternal} {id field : String}

def age? (cache : CacheInternal) (id field : String) : Option Nat :=
  cache.lifetimes.lifetimes.getIn? id field

/-- The age of a field after some ticks. A field that becomes too old is forgotten. -/
def aged (cache : CacheInternal) (ticks lifetime : Nat) : Option Nat :=
  if cache.configFile.cacheBufferSize < lifetime + ticks then none else some (lifetime + ticks)

theorem getIn?_deleteField (collector : GarbageCollector) (id field other name : String) :
    (collector.deleteField id field).lifetimes.getIn? other name =
      if other = id ∧ name = field then none else collector.lifetimes.getIn? other name := by
  have inner : (((collector.lifetimes.get? id).getD ∅).erase field).get? name =
      if name = field then none else collector.lifetimes.getIn? id name := by
    rw [OrderedMap.get?_erase, OrderedMap.getIn?]
    cases collector.lifetimes.get? id <;> rfl
  unfold GarbageCollector.deleteField
  dsimp only
  by_cases same : other = id
  · subst same
    simp only [true_and]
    rw [← inner]
    split
    · next empty =>
        rw [OrderedMap.getIn?_erase, if_pos rfl, OrderedMap.get?, List.isEmpty_iff.mp empty]
        rfl
    · rw [OrderedMap.getIn?, OrderedMap.get?_set_self, Option.bind_some]
  · simp only [same, false_and, if_false]
    split
    · rw [OrderedMap.getIn?_erase, if_neg same]
    · rw [OrderedMap.getIn?, OrderedMap.get?_set_of_ne _ _ same, OrderedMap.getIn?]

theorem age?_tickFieldTime (now : Nat) (cache : CacheInternal) (id field : String) :
    (tickFieldTime now cache id field).age? = cache.age? := by
  unfold tickFieldTime
  split
  · split <;> rfl
  · rfl

theorem age?_tickField (now : Nat) (cache : CacheInternal) (entry : String × String × Nat) :
    (tickField now cache entry).age? id field =
      if (id = entry.1 ∧ field = entry.2.1) ∧ cache.inUse id field = false then
        cache.aged 1 entry.2.2
      else cache.age? id field := by
  obtain ⟨other, name, lifetime⟩ := entry
  unfold tickField
  dsimp only
  cases used : cache.inUse other name with
  | true =>
      rw [if_pos rfl, if_neg]
      rintro ⟨⟨rfl, rfl⟩, unused⟩
      rw [used] at unused
      cases unused
  | false =>
      rw [if_neg Bool.false_ne_true, age?_tickFieldTime]
      have iff : ((id = other ∧ field = name) ∧ cache.inUse id field = false) ↔
          id = other ∧ field = name :=
        and_iff_left_of_imp fun ⟨sameID, sameField⟩ => by rw [sameID, sameField, used]
      simp only [iff, tickLifetime, aged]
      split
      · rw [age?, collectField, getIn?_deleteField, OrderedMap.getIn?_setIn]
        split <;> rfl
      · exact OrderedMap.getIn?_setIn _ _ _ _ _ _

theorem tickField_same (now : Nat) (cache : CacheInternal) (entry : String × String × Nat) :
    (tickField now cache entry).inUse = cache.inUse ∧
      (tickField now cache entry).configFile = cache.configFile := by
  obtain ⟨subscriptions, configFile, -⟩ := tickField_frame now cache entry
  refine ⟨?_, configFile⟩
  funext id field
  rw [inUse, inUse, subscriptions]

theorem age?_foldl {now : Nat} {entries : List (String × String × Nat)} {left : Option Nat}
    (visited : ∀ entry ∈ entries,
      (id = entry.1 ∧ field = entry.2.1) ∧ cache.inUse id field = false →
        cache.aged 1 entry.2.2 = left)
    (settled : cache.age? id field = left ∨
      cache.inUse id field = false ∧ ∃ lifetime, (id, field, lifetime) ∈ entries) :
    (entries.foldl (tickField now) cache).age? id field = left := by
  induction entries generalizing cache with
  | nil => exact settled.resolve_right fun ⟨_, _, member⟩ => List.not_mem_nil member
  | cons entry rest ih =>
      have here := visited entry List.mem_cons_self
      have age := @age?_tickField id field now cache entry
      obtain ⟨uses, configFile⟩ := tickField_same now cache entry
      refine ih (fun other member => ?_) ?_
      · rw [uses, aged, configFile]
        exact visited other (List.mem_cons_of_mem _ member)
      · rw [uses, age]
        split
        · next hit => exact .inl (here hit)
        · next miss =>
            refine settled.imp_right fun ⟨unused, lifetime, member⟩ => ⟨unused, lifetime, ?_⟩
            refine (List.mem_cons.mp member).resolve_left fun same => miss ?_
            rw [← same]
            exact ⟨⟨rfl, rfl⟩, unused⟩

theorem age?_collectGarbage (now : Nat) (cache : CacheInternal) (id field : String) :
    (collectGarbage now cache).age? id field =
      if cache.inUse id field then cache.age? id field
      else (cache.age? id field).bind (cache.aged 1) := by
  have ticked : (collectGarbage now cache).age? id field = (tick now cache).age? id field := by
    unfold collectGarbage
    dsimp only
    split <;> rfl
  rw [ticked, tick]
  cases used : cache.inUse id field with
  | true =>
      refine age?_foldl (fun _ _ hit => ?_) (.inl rfl)
      rw [used] at hit
      cases hit.2
  | false =>
      rw [if_neg Bool.false_ne_true]
      cases known : cache.age? id field with
      | none =>
          refine age?_foldl (fun entry member hit => ?_) (.inl known)
          obtain ⟨other, name, lifetime⟩ := entry
          obtain ⟨⟨rfl, rfl⟩, _⟩ := hit
          exact absurd (known.symm.trans (OrderedMap.mem_entriesIn.mp member)) nofun
      | some lifetime =>
          refine age?_foldl (fun entry member hit => ?_)
            (.inr ⟨used, lifetime, OrderedMap.mem_entriesIn.mpr known⟩)
          obtain ⟨other, name, found⟩ := entry
          obtain ⟨⟨rfl, rfl⟩, _⟩ := hit
          obtain rfl := Option.some.inj (known.symm.trans (OrderedMap.mem_entriesIn.mp member))
          rfl

theorem collectGarbage_same (now : Nat) (cache : CacheInternal) :
    (collectGarbage now cache).inUse = cache.inUse ∧
      (collectGarbage now cache).configFile = cache.configFile := by
  have ticked : (tick now cache).inUse = cache.inUse ∧
      (tick now cache).configFile = cache.configFile := by
    unfold tick
    generalize cache.lifetimes.lifetimes.entriesIn = entries
    induction entries generalizing cache with
    | nil => exact ⟨rfl, rfl⟩
    | cons entry rest ih =>
        obtain ⟨uses, configFile⟩ := tickField_same now cache entry
        exact ⟨(ih _).1.trans uses, (ih _).2.trans configFile⟩
  unfold collectGarbage
  dsimp only
  split <;> exact ticked

/-- A field that is in use does not age. One that is not in use is forgotten by the very tick with
which it was unused for longer than the buffer, whatever happens to other fields. -/
theorem collectGarbage_ages (cache : CacheInternal) (now : Nat) (times : List Nat)
    (id field : String) :
    ((now :: times).foldl (fun cache now => collectGarbage now cache) cache).age? id field =
      if cache.inUse id field then cache.age? id field
      else (cache.age? id field).bind (cache.aged (times.length + 1)) := by
  induction times generalizing cache now with
  | nil => exact age?_collectGarbage now cache id field
  | cons next rest ih =>
      obtain ⟨uses, config⟩ := collectGarbage_same now cache
      rw [List.foldl_cons, ih, uses, age?_collectGarbage]
      split
      · rfl
      · cases cache.age? id field with
        | none => rfl
        | some lifetime =>
            rw [Option.bind_some, Option.bind_some, aged, aged, List.length_cons]
            split
            · rw [if_pos (by omega)]
              rfl
            · rw [Option.bind_some, aged, config, Nat.add_assoc, Nat.add_comm 1]

end Ages

section Store

variable {cache : CacheInternal} {id field : String}

theorem storage_tickField (now : Nat) (cache : CacheInternal) (entry : String × String × Nat) :
    (tickField now cache entry).storage =
      if cache.inUse entry.1 entry.2.1 = false ∧ cache.configFile.cacheBufferSize < entry.2.2 + 1
      then cache.storage.deleteField entry.1 entry.2.1 else cache.storage := by
  have times (cache : CacheInternal) (id field : String) :
      (tickFieldTime now cache id field).storage = cache.storage := by
    unfold tickFieldTime
    split
    · split <;> rfl
    · rfl
  unfold tickField tickLifetime collectField
  dsimp only
  cases cache.inUse entry.1 entry.2.1 with
  | true => rw [if_pos rfl, if_neg (by simp)]
  | false =>
      simp only [Bool.false_eq_true, if_false, times, true_and]
      split <;> rfl

/-- The store has one layer, which is settled, and marks the field as undefined. -/
def Marks (cache : CacheInternal) (id field : String) : Prop :=
  ∃ layer, cache.storage.data = [layer] ∧ layer.optimistic = false ∧
    layer.fields.getIn? id field = some .undefined

theorem marks_foldl {now : Nat} {entries : List (String × String × Nat)} {layer : Layer}
    (single : cache.storage.data = [layer]) (settled : layer.optimistic = false)
    (collected : layer.fields.getIn? id field = some .undefined ∨
      cache.inUse id field = false ∧ ∃ lifetime, (id, field, lifetime) ∈ entries ∧
        cache.configFile.cacheBufferSize < lifetime + 1) :
    (entries.foldl (tickField now) cache).Marks id field := by
  induction entries generalizing cache layer with
  | nil =>
      refine ⟨layer, single, settled, collected.resolve_right fun later => ?_⟩
      obtain ⟨_, _, member, _⟩ := later
      exact List.not_mem_nil member
  | cons entry rest ih =>
      obtain ⟨uses, configFile⟩ := tickField_same now cache entry
      have deleted : (cache.storage.deleteField entry.1 entry.2.1).data =
          [layer.deleteField entry.1 entry.2.1] := by
        have sameID : (layer.deleteField entry.1 entry.2.1).id = layer.id := rfl
        simp [InMemoryStorage.deleteField, InMemoryStorage.topLayer, single, settled,
          InMemoryStorage.setLayer, sameID]
      have kept := storage_tickField now cache entry
      split at kept
      · refine ih ((congrArg InMemoryStorage.data kept).trans deleted) settled ?_
        rw [uses, configFile, Layer.deleteField, OrderedMap.getIn?_setIn]
        by_cases here : id = entry.1 ∧ field = entry.2.1
        · exact .inl (if_pos here)
        · rw [if_neg here]
          refine collected.imp_right fun later => ?_
          obtain ⟨unused, lifetime, member, old⟩ := later
          refine ⟨unused, lifetime, (List.mem_cons.mp member).resolve_left fun same => here ?_, old⟩
          rw [← same]
          exact ⟨rfl, rfl⟩
      · next spared =>
          refine ih ((congrArg InMemoryStorage.data kept).trans single) settled ?_
          rw [uses, configFile]
          refine collected.imp_right fun later => ?_
          obtain ⟨unused, lifetime, member, old⟩ := later
          refine ⟨unused, lifetime, (List.mem_cons.mp member).resolve_left fun same => spared ?_, old⟩
          rw [← same]
          exact ⟨unused, old⟩

/-- What is collected leaves the store, once all layers are resolved into one. -/
theorem collectGarbage_drops {layer : Layer} (single : cache.storage.data = [layer])
    (settled : layer.optimistic = false) (collects : cache.Collects id field) (now : Nat) :
    ∃ left, (collectGarbage now cache).storage.data = [left] ∧
      left.value id field = .undefined := by
  obtain ⟨unused, lifetime, known, old⟩ := collects
  obtain ⟨marking, alone, notOptimistic, marked⟩ := @marks_foldl cache id field now _ _ single
    settled (.inr ⟨unused, lifetime, OrderedMap.mem_entriesIn.mpr known, old⟩)
  refine ⟨marking.removeUndefinedFields, ?_, ?_⟩
  · have sameID : marking.removeUndefinedFields.id = marking.id :=
      congrArg Prod.fst marking.removeUndefinedFields_header
    rw [collectGarbage, tick, alone]
    simp [removeUndefinedFields, InMemoryStorage.topLayer, alone, notOptimistic,
      InMemoryStorage.setLayer, sameID]
  · rw [Layer.value_removeUndefinedFields, if_pos marked]

def forgotten : CacheInternal where
  configFile := { cacheBufferSize := 0 }
  storage := { data := [{ id := 1, fields := OrderedMap.setIn ∅ "User:1" "name" (.string "Ada") }] }
  lifetimes := ({} : GarbageCollector).resetLifetime "User:1" "name"

theorem collectGarbage_drops_name :
    ∃ left, (collectGarbage 0 forgotten).storage.data = [left] ∧
      left.value "User:1" "name" = .undefined :=
  collectGarbage_drops rfl rfl ⟨rfl, 0, rfl, Nat.zero_lt_one⟩ 0

end Store

end CacheInternal

end Houdini.Runtime.Cache
