import Houdini.Runtime.Cache.MergeProperties
import Mathlib.Logic.Relation

/-! Which storages a cache can reach, and that their layers stay distinct. -/

set_option autoImplicit false

namespace Houdini.Runtime

/-- The state that a computation leaves behind, whether or not it throws. -/
def resultState {Failure State Value : Type} : EStateM.Result Failure State Value → State
  | .ok _ state => state
  | .error _ state => state

namespace Cache

inductive Layer.Step : Layer → Layer → Prop where
  | writeField (layer : Layer) (id field : String) (value : GraphQLValue) :
      Step layer (layer.writeField id field value)
  | writeLink (layer : Layer) (id field : String) (value : GraphQLValue) :
      Step layer (resultState (layer.writeLink id field value))
  | delete (layer : Layer) (id : String) : Step layer (layer.delete id)
  | deleteField (layer : Layer) (id field : String) : Step layer (layer.deleteField id field)
  | insert {layer written : Layer} (id field : String) (location : OperationLocation)
      (target : String) (success : layer.insert id field location target = .ok written) :
      Step layer written
  | remove {layer written : Layer} (id field target : String)
      (success : layer.remove id field target = .ok written) : Step layer written
  | removeUndefinedFields (layer : Layer) : Step layer layer.removeUndefinedFields
  | clear (layer : Layer) : Step layer layer.clear

/-- One call of a storage method, or of a method of one of its layers. What
`topLayer` does before a write to it is a step of its own. -/
inductive InMemoryStorage.Step : InMemoryStorage → InMemoryStorage → Prop where
  | createLayer (storage : InMemoryStorage) (optimistic : Bool) :
      Step storage (storage.createLayer optimistic).2
  | topLayer (storage : InMemoryStorage) : Step storage storage.topLayer.2
  | layer {storage : InMemoryStorage} {layer written : Layer} (member : layer ∈ storage.data)
      (step : layer.Step written) : Step storage (storage.setLayer written)
  | registerIDMapping (storage : InMemoryStorage) (source target : String) :
      Step storage (storage.registerIDMapping source target)
  | removeEmbeddedRecord (storage : InMemoryStorage) (id : String) :
      Step storage (storage.removeEmbeddedRecord id)
  | resolveLayer (storage : InMemoryStorage) (id : LayerID) :
      Step storage (resultState (storage.resolveLayer id))
  | hydrate (storage : InMemoryStorage) (rank : Nat) (fields links : EntityMap GraphQLValue)
      (layer? : Option LayerID) : Step storage (storage.hydrate rank fields links layer?).2
  | getTypename (storage : InMemoryStorage) (id : String) :
      Step storage (storage.getTypename id).2
  | nextRank (storage : InMemoryStorage) : Step storage storage.nextRank.2
  | rememberTypename (storage : InMemoryStorage) (id typename : String) :
      Step storage { storage with typenames := storage.typenames.set id typename }
  | reset (storage : InMemoryStorage) : Step storage storage.reset

def InMemoryStorage.Reachable (storage : InMemoryStorage) : Prop :=
  Relation.ReflTransGen InMemoryStorage.Step {} storage

namespace Layer

/-- What tells a layer apart and whether it is pending. Only `resolveLayer` changes it. -/
def header (layer : Layer) : LayerID × Bool := (layer.id, layer.optimistic)

theorem undelete_header {layer written : Layer} {id field : String} {value : GraphQLValue}
    (success : layer.undelete id field value = .ok written) : written.header = layer.header := by
  unfold undelete at success
  cases operations : layer.fieldOperations id field with
  | error error => rw [operations] at success; cases success
  | ok held =>
      simp only [operations, bind, Except.bind] at success
      split at success
      · cases success
        rfl
      · split at success <;> cases success <;> rfl

theorem writeLink_header (layer : Layer) (id field : String) (value : GraphQLValue) :
    (resultState (layer.writeLink id field value)).header = layer.header := by
  unfold writeLink
  generalize value.flattenLinks = linked
  induction linked generalizing layer with
  | nil => rfl
  | cons element rest ih =>
      unfold writeLink.undeleteAll
      cases step : layer.undelete id field element with
      | error error => rfl
      | ok middle => exact (ih middle).trans (undelete_header step)

theorem writeLinks_header (layer : Layer) (entries : List (String × String × GraphQLValue)) :
    (resultState (layer.writeLinks entries)).header = layer.header := by
  induction entries generalizing layer with
  | nil => rfl
  | cons entry rest ih =>
      obtain ⟨id, field, value⟩ := entry
      have first := layer.writeLink_header id field value
      unfold writeLinks
      cases step : layer.writeLink id field value with
      | error error failed => rwa [step] at first
      | ok _ middle =>
          rw [step] at first
          exact (ih middle).trans first

theorem writeLayer_header (this layer : Layer) :
    (resultState (this.writeLayer layer)).header = this.header := by
  unfold writeLayer
  split
  · rfl
  · let written : Layer :=
      { this.mergeAllOperations layer with
        fields := (this.mergeAllOperations layer).fields.setAllIn layer.fields.entriesIn }
    have links := written.writeLinks_header layer.links.entriesIn
    have merged : written.header = this.header := by
      obtain ⟨sameID, sameOptimistic, _⟩ := this.unchanged_mergeAllOperations layer
      exact Prod.ext sameID sameOptimistic
    dsimp only
    split
    · rename_i error failed result
      rw [show written.writeLinks layer.links.entriesIn = _ from result] at links
      exact links.trans merged
    · rename_i final result
      rw [show written.writeLinks layer.links.entriesIn = _ from result] at links
      obtain ⟨deletedIDs, extended⟩ := foldl_addDeletedID layer.deletedIDs final
      simp only [resultState, extended]
      exact links.trans merged

theorem addFieldOperation_header {layer written : Layer} {id field : String}
    {operation : ListOperation} (success : layer.addFieldOperation id field operation = .ok written) :
    written.header = layer.header := by
  unfold addFieldOperation at success
  cases operations : layer.fieldOperations id field with
  | error error => rw [operations] at success; cases success
  | ok held =>
      simp only [operations, bind, Except.bind, pure, Except.pure, Except.ok.injEq] at success
      rw [← success]
      rfl

private theorem foldl_header {Entry : Type} (step : Layer → Entry → Layer)
    (kept : ∀ layer entry, (step layer entry).header = layer.header) (entries : List Entry)
    (layer : Layer) : (entries.foldl step layer).header = layer.header := by
  induction entries generalizing layer with
  | nil => rfl
  | cons entry rest ih => exact (ih (step layer entry)).trans (kept layer entry)

theorem removeUndefinedFields_header (layer : Layer) :
    layer.removeUndefinedFields.header = layer.header := by
  unfold removeUndefinedFields
  refine foldl_header _ (fun layer record => ?_) _ layer
  dsimp only
  split <;> split <;>
    exact foldl_header _ (fun layer entry => by split <;> rfl) record.2.entries layer

theorem Step.header_eq {layer written : Layer} (step : layer.Step written) :
    written.header = layer.header := by
  cases step with
  | writeField | delete | deleteField | clear => rfl
  | writeLink id field value => exact layer.writeLink_header id field value
  | insert id field location target success => exact addFieldOperation_header success
  | remove id field target success => exact addFieldOperation_header success
  | removeUndefinedFields => exact layer.removeUndefinedFields_header

end Layer

theorem map_modify_of_same {Entry Other : Type} (observe : Entry → Other)
    (change_ : Entry → Entry) (same : ∀ entry, observe (change_ entry) = observe entry)
    (entries : List Entry) (index : Nat) :
    (entries.modify index change_).map observe = entries.map observe := by
  induction entries generalizing index with
  | nil => simp
  | cons entry rest ih =>
      cases index with
      | zero => simp [same]
      | succ index => simp [ih]

namespace InMemoryStorage

def headers (storage : InMemoryStorage) : List (LayerID × Bool) := storage.data.map Layer.header

theorem headers_fst (storage : InMemoryStorage) :
    storage.headers.map Prod.fst = storage.data.map (·.id) := by
  simp [headers, Layer.header, Function.comp_def]

theorem headers_setLayer {storage : InMemoryStorage} (distinct : (storage.data.map (·.id)).Nodup)
    {layer : Layer} (written : Layer) (member : layer ∈ storage.data)
    (same : written.header = layer.header) : (storage.setLayer written).headers = storage.headers := by
  have sameID : written.id = layer.id := congrArg Prod.fst same
  unfold headers setLayer
  rw [List.map_map]
  refine List.map_congr_left fun current present => ?_
  simp only [Function.comp_apply]
  split
  · rename_i found
    have equal : current = layer :=
      List.inj_on_of_nodup_map distinct present member (found.trans sameID)
    rw [same, equal]
  · rfl

theorem mergeUp_sublist (base : Layer) (above : List Layer) :
    (resultState (mergeUp base above)).header = base.header ∧
      ∀ remaining merged, mergeUp base above = .ok remaining merged →
        remaining.Sublist above := by
  induction above generalizing base with
  | nil =>
      refine ⟨rfl, ?_⟩
      intro remaining merged success
      cases success
      exact List.Sublist.refl _
  | cons layer rest ih =>
      unfold mergeUp
      cases layer.optimistic with
      | true =>
          refine ⟨rfl, ?_⟩
          intro remaining merged success
          cases success
          exact List.Sublist.refl _
      | false =>
          simp only [Bool.false_eq_true, if_false]
          have kept := base.writeLayer_header layer
          cases result : base.writeLayer layer with
          | error error failed =>
              rw [result] at kept
              exact ⟨kept, fun _ _ impossible => nomatch impossible⟩
          | ok _ middle =>
              rw [result] at kept
              obtain ⟨same, dropped⟩ := ih middle
              exact ⟨same.trans kept, fun remaining merged success =>
                (dropped remaining merged success).cons layer⟩

private theorem sublist_replace_drop {data : List Layer} {start : Nat} {base written : Layer}
    {above remaining : List Layer} (split : data.drop start = base :: above)
    (sameHeader : written.header = base.header) (dropped : remaining.Sublist above) :
    ((data.take start ++ written :: remaining).map Layer.header).Sublist
      (data.map Layer.header) := by
  have whole : data = data.take start ++ base :: above := by
    rw [← split, List.take_append_drop]
  conv_rhs => rw [whole]
  rw [List.map_append, List.map_append, List.map_cons, List.map_cons, sameHeader]
  exact (List.Sublist.refl _).append ((dropped.map _).cons_cons _)

/-- Resolving a layer keeps headers of the layers, one of them not optimistic any
more, and counts no new ones. -/
theorem headers_resolveLayer (storage : InMemoryStorage) (id : LayerID) :
    (resultState (storage.resolveLayer id)).idCount = storage.idCount ∧
      match storage.data.findIdx? (·.id == id) with
      | none => resultState (storage.resolveLayer id) = storage
      | some index =>
          (resultState (storage.resolveLayer id)).headers.Sublist
            ((storage.data.modify index fun layer =>
              { layer with optimistic := false }).map Layer.header) := by
  unfold resolveLayer
  cases storage.data.findIdx? (·.id == id) with
  | none => exact ⟨rfl, rfl⟩
  | some index =>
      dsimp only
      generalize storage.data.modify index (fun layer => { layer with optimistic := false }) = data
      generalize startingIndex data index = start
      cases split : data.drop start with
      | nil => exact ⟨rfl, List.Sublist.refl _⟩
      | cons base above =>
          obtain ⟨sameHeader, dropped⟩ := mergeUp_sublist base above
          dsimp only
          cases merged : mergeUp base above with
          | error error written =>
              rw [merged] at sameHeader
              exact ⟨rfl, sublist_replace_drop split sameHeader (List.Sublist.refl above)⟩
          | ok remaining written =>
              rw [merged] at sameHeader
              exact ⟨rfl,
                sublist_replace_drop split sameHeader (dropped remaining written merged)⟩

structure DistinctLayers (storage : InMemoryStorage) : Prop where
  nodup : (storage.data.map (·.id)).Nodup
  fresh : ∀ layer ∈ storage.data, layer.id < storage.idCount

def Optimistic (storage : InMemoryStorage) (id : LayerID) : Prop := (id, true) ∈ storage.headers

/-- How a step changes the headers: those that stay keep their order, at most one new
one is added, and none becomes optimistic. -/
structure HeadersKept (storage next : InMemoryStorage) : Prop where
  count : storage.idCount ≤ next.idCount
  ids : (next.data.map (·.id)).Sublist (storage.data.map (·.id)) ∨
    next.data.map (·.id) = storage.data.map (·.id) ++ [storage.idCount] ∧
      next.idCount = storage.idCount + 1
  optimistic : ∀ id, next.Optimistic id → storage.Optimistic id ∨ storage.idCount = id

private theorem HeadersKept.of_sublist {storage next : InMemoryStorage}
    (count : next.idCount = storage.idCount) (sublist : next.headers.Sublist storage.headers) :
    HeadersKept storage next where
  count := Nat.le_of_eq count.symm
  ids := .inl (by
    rw [← headers_fst, ← headers_fst]
    exact sublist.map Prod.fst)
  optimistic := fun _ pending => .inl (sublist.subset pending)

private theorem HeadersKept.createLayer (storage : InMemoryStorage) (optimistic : Bool) :
    HeadersKept storage (storage.createLayer optimistic).2 where
  count := Nat.le_succ _
  ids := .inr ⟨by simp [InMemoryStorage.createLayer], rfl⟩
  optimistic := by
    intro id pending
    simp only [Optimistic, headers, InMemoryStorage.createLayer, List.map_append, List.map_cons,
      List.map_nil, List.mem_append, List.mem_singleton] at pending
    exact pending.imp (fun older => older) fun newest => (congrArg Prod.fst newest).symm

private theorem HeadersKept.resolveLayer (storage : InMemoryStorage) (id : LayerID) :
    HeadersKept storage (resultState (storage.resolveLayer id)) := by
  obtain ⟨count, headers⟩ := storage.headers_resolveLayer id
  cases found : storage.data.findIdx? (·.id == id) with
  | none =>
      rw [found] at headers
      rw [headers]
      exact .of_sublist rfl (List.Sublist.refl _)
  | some index =>
      rw [found] at headers
      refine ⟨Nat.le_of_eq count.symm, .inl ?_, ?_⟩
      · have ids := headers.map Prod.fst
        rw [headers_fst, List.map_map] at ids
        have released := map_modify_of_same (Prod.fst ∘ Layer.header)
          (fun layer : Layer => { layer with optimistic := false }) (fun _ => rfl) storage.data
          index
        rw [released] at ids
        exact ids
      · intro other pending
        obtain ⟨layer, member, same⟩ := List.mem_map.mp (headers.subset pending)
        obtain ⟨position, inRange, atPosition⟩ := List.mem_iff_getElem.mp member
        rw [List.getElem_modify] at atPosition
        split at atPosition
        · rw [← atPosition] at same
          cases congrArg Prod.snd same
        · refine .inl (List.mem_map.mpr ⟨layer, ?_, same⟩)
          rw [← atPosition]
          exact List.getElem_mem _

private theorem HeadersKept.of_headers {storage middle next : InMemoryStorage}
    (kept : HeadersKept storage middle) (count : next.idCount = middle.idCount)
    (same : next.headers = middle.headers) : HeadersKept storage next := by
  have sameIDs : next.data.map (·.id) = middle.data.map (·.id) := by
    rw [← headers_fst, ← headers_fst, same]
  refine ⟨by rw [count]; exact kept.count, ?_, ?_⟩
  · rw [sameIDs, count]
    exact kept.ids
  · intro id pending
    refine kept.optimistic id ?_
    unfold Optimistic at pending ⊢
    rwa [← same]

theorem HeadersKept.distinctLayers {storage next : InMemoryStorage}
    (kept : HeadersKept storage next) (distinct : storage.DistinctLayers) :
    next.DistinctLayers := by
  have freshIDs : ∀ id ∈ storage.data.map (·.id), id < storage.idCount := by
    intro id member
    obtain ⟨layer, present, same⟩ := List.mem_map.mp member
    rw [← same]
    exact distinct.fresh layer present
  obtain sublist | ⟨appended, count⟩ := kept.ids
  · refine ⟨distinct.nodup.sublist sublist, ?_⟩
    intro layer member
    have old := sublist.subset (List.mem_map_of_mem member)
    exact Nat.lt_of_lt_of_le (freshIDs layer.id old) kept.count
  · refine ⟨?_, ?_⟩
    · rw [appended]
      refine List.nodup_append.mpr ⟨distinct.nodup, List.nodup_singleton _, ?_⟩
      intro id old newest member
      rw [List.mem_singleton.mp member]
      exact Nat.ne_of_lt (freshIDs id old)
    · intro layer member
      have old : layer.id ∈ next.data.map (·.id) := List.mem_map_of_mem member
      rw [appended, List.mem_append, List.mem_singleton] at old
      rw [count]
      obtain older | newest := old
      · exact Nat.lt_succ_of_lt (freshIDs layer.id older)
      · rw [newest]
        exact Nat.lt_succ_self _

theorem DistinctLayers.headersKept {storage next : InMemoryStorage}
    (distinct : storage.DistinctLayers) (step : storage.Step next) :
    HeadersKept storage next := by
  cases step with
  | createLayer optimistic => exact .createLayer storage optimistic
  | topLayer =>
      unfold InMemoryStorage.topLayer
      split
      · exact .createLayer storage false
      · split
        · exact .createLayer storage false
        · exact .of_sublist rfl (List.Sublist.refl _)
  | layer member step =>
      refine .of_sublist rfl ?_
      rw [headers_setLayer distinct.nodup _ member step.header_eq]
  | registerIDMapping source target => exact .of_sublist rfl (List.Sublist.refl _)
  | removeEmbeddedRecord id =>
      have same : (storage.removeEmbeddedRecord id).headers = storage.headers := by
        unfold headers removeEmbeddedRecord
        rw [List.map_map]
        refine List.map_congr_left fun layer _ => ?_
        simp only [Function.comp_apply]
        split <;> rfl
      refine .of_sublist rfl ?_
      rw [same]
  | resolveLayer id => exact .resolveLayer storage id
  | hydrate rank fields links layer? =>
      unfold InMemoryStorage.hydrate
      dsimp only
      split
      · rename_i layer found
        refine .of_sublist rfl ?_
        obtain ⟨id, _, present⟩ := Option.bind_eq_some_iff.mp found
        have member : layer ∈ storage.data := List.mem_of_find?_eq_some present
        have same := @headers_setLayer { storage with rank } distinct.nodup layer
          { layer with fields, links } member rfl
        rw [same]
        exact List.Sublist.refl _
      · have created := HeadersKept.createLayer { storage with rank } true
        have distinctCreated := created.distinctLayers ⟨distinct.nodup, distinct.fresh⟩
        have same := headers_setLayer distinctCreated.nodup
          { (({ storage with rank } : InMemoryStorage).createLayer true).1 with fields, links }
          (List.mem_append_right _ List.mem_cons_self) rfl
        exact HeadersKept.of_headers ⟨created.count, created.ids, created.optimistic⟩ rfl same
  | getTypename id =>
      unfold InMemoryStorage.getTypename
      split
      · exact .of_sublist rfl (List.Sublist.refl _)
      · split <;> exact .of_sublist rfl (List.Sublist.refl _)
  | nextRank => exact .of_sublist rfl (List.Sublist.refl _)
  | rememberTypename id typename => exact .of_sublist rfl (List.Sublist.refl _)
  | reset => exact .of_sublist rfl (List.nil_sublist _)

theorem DistinctLayers.not_optimistic_resolveLayer {storage : InMemoryStorage}
    (distinct : storage.DistinctLayers) (id : LayerID) :
    ¬ (resultState (storage.resolveLayer id)).Optimistic id := by
  intro pending
  obtain ⟨_, headers⟩ := storage.headers_resolveLayer id
  cases found : storage.data.findIdx? (·.id == id) with
  | none =>
      rw [found] at headers
      unfold Optimistic at pending
      rw [headers] at pending
      obtain ⟨layer, member, same⟩ := List.mem_map.mp pending
      have unknown := List.findIdx?_eq_none_iff.mp found layer member
      have known : layer.id = id := congrArg Prod.fst same
      simp [known] at unknown
  | some index =>
      rw [found] at headers
      obtain ⟨layer, member, same⟩ := List.mem_map.mp (headers.subset pending)
      obtain ⟨position, inRange, atPosition⟩ := List.mem_iff_getElem.mp member
      rw [List.getElem_modify] at atPosition
      split at atPosition
      · rw [← atPosition] at same
        cases congrArg Prod.snd same
      · rename_i elsewhere
        rw [List.length_modify] at inRange
        obtain ⟨indexInRange, atIndex, _⟩ := List.findIdx?_eq_some_iff_getElem.mp found
        have indexBound : index < (storage.data.map (·.id)).length := by simpa using indexInRange
        have positionBound : position < (storage.data.map (·.id)).length := by simpa using inRange
        have sameID : (storage.data.map (·.id))[index] = (storage.data.map (·.id))[position] := by
          rw [List.getElem_map, List.getElem_map, atPosition, eq_of_beq atIndex]
          exact (congrArg Prod.fst same).symm
        exact elsewhere (distinct.nodup.getElem_inj_iff.mp sameID)

theorem Reachable.distinctLayers {storage : InMemoryStorage} (reachable : storage.Reachable) :
    storage.DistinctLayers := by
  induction reachable with
  | refl => exact ⟨List.nodup_nil, fun _ member => nomatch member⟩
  | tail _ step distinct => exact (distinct.headersKept step).distinctLayers distinct

theorem Reachable.idCount_pos {storage : InMemoryStorage} (reachable : storage.Reachable) :
    0 < storage.idCount := by
  induction reachable with
  | refl => exact Nat.one_pos
  | tail before step positive =>
      have distinct := Reachable.distinctLayers before
      exact Nat.lt_of_lt_of_le positive (distinct.headersKept step).count

end InMemoryStorage

end Cache

end Houdini.Runtime
