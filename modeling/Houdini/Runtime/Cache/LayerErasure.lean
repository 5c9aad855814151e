import Houdini.Runtime.Cache.LayerPromises

/-! What an optimistic layer leaves behind when it is cleared: nothing, whatever else happened to
the store in the meantime. -/

set_option autoImplicit false

namespace Houdini.Runtime.Cache

/-- A call to the storage, or to the layer with an id. -/
inductive StorageCall where
  | createLayer (optimistic : Bool)
  | topLayer
  | layer (id : LayerID) (call : LayerCall)
  | registerIDMapping (source target : String)
  | removeEmbeddedRecord (id : String)
  | resolveLayer (id : LayerID)
  | nextRank
  | rememberTypename (id typename : String)

namespace StorageCall

def apply : StorageCall → InMemoryStorage → InMemoryStorage
  | .createLayer optimistic, storage => (storage.createLayer optimistic).2
  | .topLayer, storage => storage.topLayer.2
  | .layer id call, storage =>
      { storage with
        data := storage.data.map fun layer => if layer.id = id then call.run layer else layer }
  | .registerIDMapping source target, storage => storage.registerIDMapping source target
  | .removeEmbeddedRecord id, storage => storage.removeEmbeddedRecord id
  | .resolveLayer id, storage => resultState (storage.resolveLayer id)
  | .nextRank, storage => storage.nextRank.2
  | .rememberTypename id typename, storage =>
      { storage with typenames := storage.typenames.set id typename }

def writesTo (layer : LayerID) : StorageCall → Bool
  | .layer id _ => id == layer
  | _ => false

def resolves (layer : LayerID) : StorageCall → Bool
  | .resolveLayer id => id == layer
  | _ => false

def run (calls : List StorageCall) (storage : InMemoryStorage) : InMemoryStorage :=
  calls.foldl (fun storage call => call.apply storage) storage

end StorageCall

namespace Layer

def clearIf (id : LayerID) (layer : Layer) : Layer :=
  if layer.id = id then layer.clear else layer

variable {id : LayerID} {layer : Layer}

theorem clearIf_of_ne (apart : layer.id ≠ id) : layer.clearIf id = layer := if_neg apart

@[simp] theorem header_clearIf : (layer.clearIf id).header = layer.header := by
  unfold clearIf
  split <;> rfl

@[simp] theorem id_clearIf : (layer.clearIf id).id = layer.id :=
  congrArg Prod.fst header_clearIf

@[simp] theorem optimistic_clearIf : (layer.clearIf id).optimistic = layer.optimistic :=
  congrArg Prod.snd header_clearIf

theorem clearIf_of_header {written : Layer} (same : written.header = layer.header)
    (target : layer.id = id) : written.clearIf id = layer.clearIf id := by
  obtain ⟨sameID, sameOptimistic⟩ := Prod.mk.inj same
  rw [clearIf, clearIf, if_pos (sameID.trans target), if_pos target, clear, clear]
  cases written
  cases layer
  cases sameID
  cases sameOptimistic
  rfl

end Layer

namespace InMemoryStorage

def clearLayer (storage : InMemoryStorage) (id : LayerID) : InMemoryStorage :=
  { storage with data := storage.data.map (Layer.clearIf id) }

/-- The layer was created, and is not resolved yet. -/
structure Pending (storage : InMemoryStorage) (id : LayerID) : Prop where
  created : id < storage.idCount
  unresolved : (id, false) ∉ storage.headers

variable {storage : InMemoryStorage} {id : LayerID}

theorem Pending.optimistic (pending : storage.Pending id) {layer : Layer}
    (member : layer ∈ storage.data) (same : layer.id = id) : layer.optimistic = true := by
  by_contra settled
  refine pending.unresolved (List.mem_map.mpr ⟨layer, member, ?_⟩)
  exact Prod.ext same (Bool.eq_false_iff.mpr settled)

theorem writeLayer_id {base layer written : Layer}
    (merged : resultState (base.writeLayer layer) = written) : written.id = base.id := by
  rw [← merged]
  exact congrArg Prod.fst (base.writeLayer_header layer)

/-- Merging stops below a layer that is pending, so it never sees what that layer holds. -/
theorem mergeUp_clearIf {base : Layer} (apart : base.id ≠ id) {above : List Layer}
    (optimistic : ∀ layer ∈ above, layer.id = id → layer.optimistic = true) :
    mergeUp base (above.map (Layer.clearIf id)) =
      match mergeUp base above with
      | .ok remaining merged => .ok (remaining.map (Layer.clearIf id)) merged
      | .error error merged => .error error merged := by
  induction above generalizing base with
  | nil => rfl
  | cons layer rest ih =>
      rw [List.map_cons, mergeUp, mergeUp, Layer.optimistic_clearIf]
      cases pending : layer.optimistic with
      | true => rfl
      | false =>
          have settled : layer.id ≠ id := fun same => by
            rw [optimistic layer List.mem_cons_self same] at pending
            cases pending
          rw [Layer.clearIf_of_ne settled, if_neg Bool.false_ne_true, if_neg Bool.false_ne_true]
          cases written : base.writeLayer layer with
          | error error failed => rfl
          | ok value merged =>
              have same := writeLayer_id (congrArg resultState written)
              exact ih (by rw [← same] at apart; exact apart)
                fun other member => optimistic other (List.mem_cons_of_mem _ member)

theorem map_modify {Entry : Type} {change_ other : Entry → Entry}
    (commute : ∀ entry, other (change_ entry) = change_ (other entry)) (entries : List Entry)
    (index : Nat) :
    (entries.map change_).modify index other = (entries.modify index other).map change_ := by
  induction entries generalizing index with
  | nil => simp
  | cons entry rest ih =>
      cases index with
      | zero => simp [commute]
      | succ index => simp [ih]

theorem startingIndex_clearIf (data : List Layer) (index : Nat) :
    startingIndex (data.map (Layer.clearIf id)) index = startingIndex data index := by
  simp [startingIndex, Function.comp_def]

variable {other : LayerID} {index : Nat}

theorem optimistic_of_mem_modify (pending : storage.Pending id)
    (found : storage.data.findIdx? (·.id == other) = some index) (apart : other ≠ id) {layer : Layer}
    (member : layer ∈ storage.data.modify index fun layer => { layer with optimistic := false })
    (same : layer.id = id) : layer.optimistic = true := by
  obtain ⟨inRange, atIndex, _⟩ := List.findIdx?_eq_some_iff_getElem.mp found
  obtain ⟨position, bound, atPosition⟩ := List.mem_iff_getElem.mp member
  rw [List.getElem_modify] at atPosition
  split at atPosition
  · next here =>
      subst here
      rw [← atPosition] at same
      exact absurd ((eq_of_beq atIndex).symm.trans same) apart
  · rw [← atPosition] at same ⊢
    exact pending.optimistic (List.getElem_mem _) same

theorem id_ne_of_drop (pending : storage.Pending id)
    (found : storage.data.findIdx? (·.id == other) = some index) (apart : other ≠ id)
    {base : Layer} {above : List Layer} {data : List Layer}
    (released : data = storage.data.modify index fun layer => { layer with optimistic := false })
    (split : data.drop (startingIndex data index) = base :: above) : base.id ≠ id := by
  obtain ⟨inRange, atIndex, _⟩ := List.findIdx?_eq_some_iff_getElem.mp found
  have here : data[index]? = some { storage.data[index] with optimistic := false } := by
    rw [released, List.getElem?_modify, List.getElem?_eq_getElem inRange]
    simp
  have head : data[startingIndex data index]? = some base := by
    rw [← List.head?_drop, split, List.head?_cons]
  intro same
  have optimistic := optimistic_of_mem_modify pending found apart
    (released ▸ List.mem_of_getElem? head) same
  rw [startingIndex] at head
  split at head
  · next below =>
      cases index with
      | zero =>
          rw [here] at below
          cases below
      | succ index =>
          rw [Nat.add_sub_cancel, here] at head
          rw [← Option.some.inj head] at same
          exact apart ((eq_of_beq atIndex).symm.trans same)
  · next settled =>
      rw [head] at settled
      exact settled optimistic

theorem resolveLayer_clearLayer (pending : storage.Pending id) (apart : other ≠ id) :
    resultState ((storage.clearLayer id).resolveLayer other) =
      (resultState (storage.resolveLayer other)).clearLayer id := by
  have sameTest : (fun layer : Layer => layer.id == other) ∘ Layer.clearIf id =
      fun layer => layer.id == other := by
    funext layer
    simp
  unfold resolveLayer clearLayer
  rw [List.findIdx?_map, sameTest]
  cases found : storage.data.findIdx? (·.id == other) with
  | none => rfl
  | some index =>
      have commute (layer : Layer) : { layer.clearIf id with optimistic := false } =
          Layer.clearIf id { layer with optimistic := false } := by
        unfold Layer.clearIf
        split <;> rfl
      dsimp only
      rw [map_modify commute]
      generalize released :
        storage.data.modify index (fun layer => { layer with optimistic := false }) = data
      rw [startingIndex_clearIf, ← List.map_drop, ← List.map_take]
      cases split : data.drop (startingIndex data index) with
      | nil => rfl
      | cons base above =>
          have settled := id_ne_of_drop pending found apart released.symm split
          have merges := @mergeUp_clearIf id base settled above fun layer member same =>
            optimistic_of_mem_modify pending found apart (released ▸ List.mem_of_mem_drop
              (split ▸ List.mem_cons_of_mem base member)) same
          rw [List.map_cons, Layer.clearIf_of_ne settled]
          dsimp only
          rw [merges]
          have kept := (mergeUp_sublist base above).1
          cases merged : mergeUp base above with
          | error error written =>
              rw [merged] at kept
              have same : written.id ≠ id := (congrArg Prod.fst kept).trans_ne settled
              simp [resultState, Layer.clearIf_of_ne same]
          | ok remaining written =>
              rw [merged] at kept
              have same : written.id ≠ id := (congrArg Prod.fst kept).trans_ne settled
              simp [resultState, Layer.clearIf_of_ne same]

theorem Pending.resolveLayer (pending : storage.Pending id) (apart : other ≠ id) :
    (resultState (storage.resolveLayer other)).Pending id := by
  obtain ⟨count, headers⟩ := storage.headers_resolveLayer other
  refine ⟨count ▸ pending.created, fun settled => ?_⟩
  cases found : storage.data.findIdx? (·.id == other) with
  | none =>
      rw [found] at headers
      rw [headers] at settled
      exact pending.unresolved settled
  | some index =>
      rw [found] at headers
      obtain ⟨layer, member, same⟩ := List.mem_map.mp (headers.subset settled)
      have optimistic := optimistic_of_mem_modify pending found apart member
        (congrArg Prod.fst same)
      rw [show layer.optimistic = false from congrArg Prod.snd same] at optimistic
      cases optimistic

theorem headers_map {change_ : Layer → Layer} (same : ∀ layer, (change_ layer).header = layer.header)
    (data : List Layer) : (data.map change_).map Layer.header = data.map Layer.header := by
  simp [Function.comp_def, same]

theorem Pending.of_headers {next : InMemoryStorage} (pending : storage.Pending id)
    (count : next.idCount = storage.idCount) (same : next.headers = storage.headers) :
    next.Pending id :=
  ⟨count ▸ pending.created, same ▸ pending.unresolved⟩

theorem Pending.createLayer (pending : storage.Pending id) (optimistic : Bool) :
    (storage.createLayer optimistic).2.Pending id where
  created := Nat.lt_succ_of_lt pending.created
  unresolved := by
    have newer := Nat.ne_of_lt pending.created
    have older := pending.unresolved
    simp_all [headers, InMemoryStorage.createLayer, Layer.header]

theorem createLayer_clearLayer (optimistic : Bool) :
    ((storage.clearLayer id).createLayer optimistic).2 =
      (storage.createLayer optimistic).2.clearLayer id := by
  have blank : Layer.clearIf id { id := storage.idCount, optimistic } =
      { id := storage.idCount, optimistic } := by
    unfold Layer.clearIf
    split <;> rfl
  simp [createLayer, clearLayer, blank]

theorem topLayer_cases (storage : InMemoryStorage) (id : LayerID) :
    (storage.topLayer.2 = storage ∧
      (storage.clearLayer id).topLayer.2 = storage.clearLayer id) ∨
    (storage.topLayer.2 = (storage.createLayer false).2 ∧
      (storage.clearLayer id).topLayer.2 = ((storage.clearLayer id).createLayer false).2) := by
  have last : (storage.clearLayer id).data.getLast? =
      storage.data.getLast?.map (Layer.clearIf id) := List.getLast?_map
  unfold topLayer
  rw [last]
  cases storage.data.getLast? with
  | none => exact .inr ⟨rfl, rfl⟩
  | some layer =>
      rw [Option.map_some]
      dsimp only
      rw [Layer.optimistic_clearIf]
      cases layer.optimistic with
      | true => exact .inr ⟨rfl, rfl⟩
      | false => exact .inl ⟨rfl, rfl⟩

end InMemoryStorage

namespace StorageCall

open InMemoryStorage

variable {storage : InMemoryStorage} {id : LayerID} {call : StorageCall}

theorem header_run (layer : Layer) (call : LayerCall) : (call.run layer).header = layer.header := by
  rcases call.step_run layer with step | same
  · exact step.header_eq
  · rw [same]

/-- Only its own `resolveLayer` takes a layer out of the pending ones. -/
theorem pending_apply (pending : storage.Pending id) (kept : call.resolves id = false) :
    (call.apply storage).Pending id := by
  cases call with
  | createLayer optimistic => exact pending.createLayer optimistic
  | topLayer =>
      rcases topLayer_cases storage id with ⟨same, _⟩ | ⟨created, _⟩
      · exact pending.of_headers (congrArg idCount same) (congrArg headers same)
      · exact (pending.createLayer false).of_headers (congrArg idCount created)
          (congrArg headers created)
  | layer other change_ =>
      refine pending.of_headers rfl (headers_map (fun layer => ?_) storage.data)
      split
      · exact header_run layer change_
      · rfl
  | registerIDMapping | nextRank | rememberTypename => exact pending.of_headers rfl rfl
  | removeEmbeddedRecord record =>
      refine pending.of_headers rfl (headers_map (fun layer => ?_) storage.data)
      split <;> rfl
  | resolveLayer other => exact pending.resolveLayer (beq_eq_false_iff_ne.mp kept)

theorem apply_clearLayer (pending : storage.Pending id) (elsewhere : call.writesTo id = false)
    (kept : call.resolves id = false) :
    call.apply (storage.clearLayer id) = (call.apply storage).clearLayer id := by
  cases call with
  | createLayer optimistic => exact createLayer_clearLayer optimistic
  | topLayer =>
      rcases topLayer_cases storage id with ⟨same, cleared⟩ | ⟨created, cleared⟩
      · exact cleared.trans (congrArg (·.clearLayer id) same.symm)
      · rw [apply, cleared, createLayer_clearLayer, ← created, apply]
  | layer other change_ =>
      simp only [apply, clearLayer, List.map_map]
      congr 1
      refine List.map_congr_left fun layer _ => ?_
      simp only [Function.comp_apply, Layer.id_clearIf]
      split
      · next here =>
          have apart : layer.id ≠ id := here ▸ beq_eq_false_iff_ne.mp elsewhere
          have same : (change_.run layer).id ≠ id :=
            (congrArg Prod.fst (header_run layer change_)).trans_ne apart
          rw [Layer.clearIf_of_ne apart, Layer.clearIf_of_ne same]
      · rfl
  | registerIDMapping | nextRank | rememberTypename => rfl
  | removeEmbeddedRecord record =>
      simp only [apply, clearLayer, InMemoryStorage.removeEmbeddedRecord, List.map_map]
      congr 1
      refine List.map_congr_left fun layer member => ?_
      simp only [Function.comp_apply, Layer.optimistic_clearIf]
      split
      · rfl
      · next settled =>
          have apart : layer.id ≠ id := fun same => settled (pending.optimistic member same)
          rw [Layer.clearIf_of_ne apart, Layer.clearIf_of_ne]
          exact apart
  | resolveLayer other => exact resolveLayer_clearLayer pending (beq_eq_false_iff_ne.mp kept)

theorem clearLayer_apply (own : call.writesTo id = true) :
    (call.apply storage).clearLayer id = storage.clearLayer id := by
  cases call with
  | layer other change_ =>
      cases eq_of_beq own
      simp only [apply, clearLayer, List.map_map]
      congr 1
      refine List.map_congr_left fun layer _ => ?_
      simp only [Function.comp_apply]
      split
      · next here => exact Layer.clearIf_of_header (header_run layer change_) here
      · rfl
  | _ => cases own

theorem run_clearLayer {calls : List StorageCall} (pending : storage.Pending id)
    (kept : ∀ call ∈ calls, call.resolves id = false) :
    (run calls storage).clearLayer id =
      run (calls.filter fun call => !call.writesTo id) (storage.clearLayer id) := by
  induction calls generalizing storage with
  | nil => rfl
  | cons call rest ih =>
      have here := kept call List.mem_cons_self
      have later := ih (pending_apply pending here) fun other member =>
        kept other (List.mem_cons_of_mem _ member)
      cases own : call.writesTo id with
      | true =>
          rw [clearLayer_apply own] at later
          rw [List.filter_cons_of_neg (by simp [own])]
          exact later
      | false =>
          rw [← apply_clearLayer pending own here] at later
          rw [List.filter_cons_of_pos (by simp [own])]
          exact later

end StorageCall

section Frame

variable {layer : LayerID} {storage final : InMemoryStorage} {other : Layer}

theorem WriteStep.spares (written : WriteStep layer storage final) (member : other ∈ storage.data)
    (pending : other.optimistic = true) (apart : other.id ≠ layer) : other ∈ final.data := by
  cases written with
  | layer current target step =>
      refine List.mem_map.mpr ⟨other, member, if_neg fun same => apart ?_⟩
      exact same.trans ((congrArg Prod.fst step.header_eq).trans target)
  | removeEmbeddedRecord id => exact List.mem_map.mpr ⟨other, member, if_pos pending⟩
  | nextRank => exact member
  | rememberTypename id typename => exact member

end Frame

end Houdini.Runtime.Cache
