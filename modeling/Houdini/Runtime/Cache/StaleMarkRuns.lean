import Houdini.Runtime.Cache.StaleMarks

/-! What a mark makes stale, whatever happened before. -/

set_option autoImplicit false

namespace Houdini.Runtime.Cache

namespace StaleManager

variable {manager : StaleManager}

theorem getFieldTime_markFieldStale (manager : StaleManager) (id key other name : String) :
    (manager.markFieldStale id key).getFieldTime other name =
      if other = id ∧ name = key then some none else manager.getFieldTime other name :=
  OrderedMap.getIn?_setIn ..

theorem getFieldTime_setFieldTimeToNow (manager : StaleManager) (now : Nat)
    (id key other name : String) :
    (manager.setFieldTimeToNow now id key).getFieldTime other name =
      if other = id ∧ name = key then some (some now) else manager.getFieldTime other name :=
  OrderedMap.getIn?_setIn ..

theorem getFieldTime_deleteRecord (manager : StaleManager) (id other name : String) :
    (manager.deleteRecord id).getFieldTime other name =
      if other = id then none else manager.getFieldTime other name :=
  OrderedMap.getIn?_erase ..

theorem getFieldTime_delete (manager : StaleManager) (id key other name : String) :
    (manager.delete id key).getFieldTime other name =
      if other = id ∧ name = key then none else manager.getFieldTime other name := by
  unfold delete getFieldTime
  cases found : manager.fieldsTime.get? id with
  | none =>
      dsimp only
      split
      · rename_i same
        rw [same.1, OrderedMap.getIn?, found]
        rfl
      · rfl
  | some fields =>
      by_cases same : other = id
      · subst same
        have before : manager.fieldsTime.getIn? other name = fields.get? name := by
          rw [OrderedMap.getIn?, found]
          rfl
        have left : (fields.erase key).get? name = if name = key then none else fields.get? name :=
          OrderedMap.get?_erase ..
        dsimp only
        rw [before]
        simp only [true_and]
        rw [← left]
        split
        · rename_i empty
          rw [OrderedMap.getIn?_erase, if_pos rfl]
          have blank : (fields.erase key).entries = [] := List.isEmpty_iff.mp empty
          unfold OrderedMap.get?
          rw [blank]
          rfl
        · rw [OrderedMap.getIn?, OrderedMap.get?_set_self]
          rfl
      · have kept : ¬ (other = id ∧ name = key) := fun both => same both.1
        rw [if_neg kept]
        dsimp only
        split
        · rw [OrderedMap.getIn?_erase, if_neg same]
        · rw [OrderedMap.getIn?, OrderedMap.getIn?, OrderedMap.get?_set_of_ne _ _ same]

theorem getFieldTime_initMapId (manager : StaleManager) (id other name : String) :
    (manager.initMapId id).getFieldTime other name = manager.getFieldTime other name := by
  unfold initMapId
  cases found : manager.fieldsTime.get? id with
  | some => rfl
  | none =>
      unfold getFieldTime OrderedMap.getIn?
      by_cases same : other = id
      · subst same
        rw [OrderedMap.get?_set_self, found]
        rfl
      · rw [OrderedMap.get?_set_of_ne _ _ same]

theorem getFieldTime_registerField (now : Nat) (id key other name : String) :
    (registerField now id manager key).getFieldTime other name =
      (manager.getFieldTime other name).or
        (if other = id ∧ name = key then some (some now) else none) := by
  unfold registerField
  cases found : manager.getFieldTime id key with
  | some time =>
      by_cases same : other = id ∧ name = key
      · rw [same.1, same.2, found]
        rfl
      · rw [if_neg same, Option.or_none]
  | none =>
      dsimp only
      rw [getFieldTime_setFieldTimeToNow]
      by_cases same : other = id ∧ name = key
      · rw [if_pos same, if_pos same, same.1, same.2, found]
        rfl
      · rw [if_neg same, if_neg same, Option.or_none]

private theorem getFieldTime_registerFields (now : Nat) (id other name : String)
    (keys : List String) (manager : StaleManager) :
    (keys.foldl (registerField now id) manager).getFieldTime other name =
      (manager.getFieldTime other name).or
        (if other = id ∧ name ∈ keys then some (some now) else none) := by
  induction keys generalizing manager with
  | nil => simp
  | cons key rest ih =>
      rw [List.foldl_cons, ih, getFieldTime_registerField]
      cases manager.getFieldTime other name with
      | some time => rfl
      | none =>
          by_cases same : other = id <;> by_cases here : name = key <;> simp [same, here]

theorem getFieldTime_registerRecords (now : Nat) (source : EntityMap GraphQLValue)
    (manager : StaleManager) (id key : String) :
    (registerRecords now manager source).getFieldTime id key =
      (manager.getFieldTime id key).or
        (if (source.getIn? id key).isSome then some (some now) else none) := by
  have row := OrderedMap.observe_foldl_entries
    (fun id (manager : StaleManager) => manager.getFieldTime id)
    (fun manager record =>
      record.2.keys.foldl (registerField now record.1) (manager.initMapId record.1))
    (fun _ fields row name => (row name).or (if name ∈ fields.keys then some (some now) else none))
    (by
      intro state id fields
      funext name
      simp [getFieldTime_registerFields, getFieldTime_initMapId])
    (by
      intro state record id different
      funext name
      simp [getFieldTime_registerFields, getFieldTime_initMapId, different])
    source manager id
  have here := congrFun row key
  refine here.trans ?_
  unfold OrderedMap.getIn?
  cases source.get? id with
  | none => simp
  | some fields =>
      simp only [Option.bind_some]
      by_cases member : key ∈ fields.keys
      · obtain ⟨value, found⟩ := OrderedMap.mem_keys_iff.mp member
        simp [member, found]
      · have absent : fields.get? key = none := by
          by_contra present
          obtain ⟨value, found⟩ := Option.ne_none_iff_exists'.mp present
          exact member (OrderedMap.mem_keys_iff.mpr ⟨value, found⟩)
        simp [member, absent]

private theorem isSome_getFieldTime {fields : OrderedMap String FieldTime} {id key : String}
    (found : manager.fieldsTime.get? id = some fields) :
    (manager.getFieldTime id key).isSome = true ↔ key ∈ fields.keys := by
  unfold getFieldTime OrderedMap.getIn?
  rw [found, Option.bind_some, OrderedMap.mem_keys_iff, Option.isSome_iff_exists]

private theorem getFieldTime_of_missing {id : String} (missing : manager.fieldsTime.get? id = none)
    (key : String) : manager.getFieldTime id key = none := by
  unfold getFieldTime OrderedMap.getIn?
  rw [missing]
  rfl

private theorem getFieldTime_markEntries (manager : StaleManager) (id other name : String)
    (fields : OrderedMap String FieldTime) :
    (manager.markEntries (id, fields)).getFieldTime other name =
      if other = id ∧ name ∈ fields.keys then some none else manager.getFieldTime other name := by
  unfold markEntries
  dsimp only
  induction fields.keys generalizing manager with
  | nil => simp
  | cons key rest ih =>
      rw [List.foldl_cons, ih, getFieldTime_markFieldStale]
      by_cases same : other = id <;> by_cases here : name = key <;> simp [same, here]

private theorem getFieldTime_markWhere (manager : StaleManager) (chosen : String → Bool)
    (id key : String) :
    (manager.fieldsTime.entries.foldl (fun manager record =>
        if chosen record.1 then manager.markEntries record else manager) manager).getFieldTime id key =
      if chosen id = true ∧ (manager.getFieldTime id key).isSome = true then some none
      else manager.getFieldTime id key := by
  have row := OrderedMap.observe_foldl_entries
    (fun id (manager : StaleManager) => manager.getFieldTime id)
    (fun manager record => if chosen record.1 then manager.markEntries record else manager)
    (fun id fields row name => if chosen id = true ∧ name ∈ fields.keys then some none else row name)
    (by
      intro state id fields
      funext name
      cases chosen id <;> simp [getFieldTime_markEntries])
    (by
      intro state record id different
      obtain ⟨record, fields⟩ := record
      funext name
      cases chosen record <;> simp [getFieldTime_markEntries, different])
    manager.fieldsTime manager id
  refine (congrFun row key).trans ?_
  cases found : manager.fieldsTime.get? id with
  | none => simp [getFieldTime_of_missing found]
  | some fields => simp only [isSome_getFieldTime found]

theorem getFieldTime_markAllStale (manager : StaleManager) (id key : String) :
    manager.markAllStale.getFieldTime id key =
      if (manager.getFieldTime id key).isSome = true then some none
      else manager.getFieldTime id key := by
  have marked := getFieldTime_markWhere manager (fun _ => true) id key
  unfold markAllStale
  simpa using marked

theorem getFieldTime_markTypeStale (manager : StaleManager) (type id key : String) :
    (manager.markTypeStale type).getFieldTime id key =
      if startsWithType type id = true ∧ (manager.getFieldTime id key).isSome = true then some none
      else manager.getFieldTime id key :=
  getFieldTime_markWhere manager (startsWithType type) id key

theorem getFieldTime_markRecordStale (manager : StaleManager) (record id key : String) :
    (manager.markRecordStale record).getFieldTime id key =
      if id = record ∧ (manager.getFieldTime id key).isSome = true then some none
      else manager.getFieldTime id key := by
  unfold markRecordStale
  by_cases same : id = record
  · subst same
    cases found : manager.fieldsTime.get? id with
    | none => simp [getFieldTime_of_missing found]
    | some fields =>
        dsimp only
        rw [getFieldTime_markEntries]
        simp only [isSome_getFieldTime found]
  · cases found : manager.fieldsTime.get? record with
    | none => simp [same]
    | some fields => simp [getFieldTime_markEntries, same]

theorem getFieldTime_markTypeFieldStale (manager : StaleManager) (type field key id name : String) :
    (manager.markTypeFieldStale type field key).getFieldTime id name =
      if startsWithType type id = true ∧ (manager.getFieldTime id key).isSome = true ∧ name = field
      then some none else manager.getFieldTime id name := by
  have looped (keys : List String) (record : String) (manager : StaleManager) (other name : String) :
      (keys.foldl (fun manager localField =>
          if localField = key then manager.markFieldStale record field else manager)
        manager).getFieldTime other name =
        if other = record ∧ key ∈ keys ∧ name = field then some none
        else manager.getFieldTime other name := by
    induction keys generalizing manager with
    | nil => simp
    | cons first rest ih =>
        rw [List.foldl_cons, ih]
        by_cases here : first = key
        · rw [if_pos here, getFieldTime_markFieldStale]
          by_cases same : other = record <;> by_cases plain : name = field <;>
            simp [same, plain, here]
        · simp [here, Ne.symm here]
  have row := OrderedMap.observe_foldl_entries
    (fun id (manager : StaleManager) => manager.getFieldTime id)
    (fun manager record =>
      if startsWithType type record.1 then
        record.2.keys.foldl (fun manager localField =>
          if localField = key then manager.markFieldStale record.1 field else manager) manager
      else manager)
    (fun id fields row name =>
      if startsWithType type id = true ∧ key ∈ fields.keys ∧ name = field then some none
      else row name)
    (by
      intro state id fields
      funext name
      cases startsWithType type id <;> simp [looped])
    (by
      intro state record id different
      funext name
      cases startsWithType type record.1 <;> simp [looped, different])
    manager.fieldsTime manager id
  refine (congrFun row name).trans ?_
  cases found : manager.fieldsTime.get? id with
  | none => simp [getFieldTime_of_missing found]
  | some fields => simp only [isSome_getFieldTime found]

end StaleManager

def Snapshot.has (snapshot : Snapshot) (id key : String) : Bool :=
  (snapshot.fields.getIn? id key).isSome || (snapshot.links.getIn? id key).isSome

theorem StaleManager.getFieldTime_registerSnapshot (now : Nat) (snapshot : Snapshot)
    (manager : StaleManager) (id key : String) :
    (registerSnapshot now manager snapshot).getFieldTime id key =
      (manager.getFieldTime id key).or
        (if snapshot.has id key then some (some now) else none) := by
  unfold registerSnapshot Snapshot.has
  rw [getFieldTime_registerRecords, getFieldTime_registerRecords, Option.or_assoc]
  cases (snapshot.fields.getIn? id key).isSome <;> cases (snapshot.links.getIn? id key).isSome <;>
    simp

namespace HydratedStaleManager

def pending (state : HydratedStaleManager) (id key : String) : Bool :=
  state.pendingHydrated.any (·.has id key)

theorem getFieldTime_flushHydrated (state : HydratedStaleManager) (now : Nat) (id key : String) :
    (state.flushHydrated now).manager.getFieldTime id key =
      (state.manager.getFieldTime id key).or
        (if state.pending id key then some (some now) else none) := by
  have folded (snapshots : List Snapshot) (manager : StaleManager) :
      (snapshots.foldl (StaleManager.registerSnapshot now) manager).getFieldTime id key =
        (manager.getFieldTime id key).or
          (if snapshots.any (·.has id key) then some (some now) else none) := by
    induction snapshots generalizing manager with
    | nil => simp
    | cons snapshot rest ih =>
        rw [List.foldl_cons, ih, StaleManager.getFieldTime_registerSnapshot, Option.or_assoc,
          List.any_cons]
        cases snapshot.has id key <;> simp
  exact folded state.pendingHydrated state.manager

end HydratedStaleManager

inductive EntryStatus where
  | fresh
  | stale
  deriving DecidableEq, Repr

/-- A field without an entry is known all the same if a snapshot with it waits. -/
def entryStatus (time : Option FieldTime) (pending : Bool) : Option EntryStatus :=
  match time with
  | some none => some .stale
  | some (some _) => some .fresh
  | none => if pending then some .fresh else none

def HydratedStaleManager.status (state : HydratedStaleManager) (id key : String) :
    Option EntryStatus :=
  entryStatus (state.manager.getFieldTime id key) (state.pending id key)

def callKey (field : String) (args : GraphQLObject) (key : String) : Bool :=
  match computeKey field args with
  | .ok computed => key == computed
  | .error _ => false

def StaleMark.Plain : StaleMark → Prop
  | .type (some options) => (HydratedStaleManager.named options.field).isSome → options.when = []
  | _ => True

def addressed (field : Option String) (args : GraphQLObject) (key : String) : Bool :=
  match HydratedStaleManager.named field with
  | none => true
  | some field => callKey field args key

def StaleMark.targets : StaleMark → String → String → Bool
  | .type none, _, _ => true
  | .type (some options), id, key =>
      StaleManager.startsWithType options.type id && addressed options.field options.when key
  | .record owner field args, id, key => id == owner && addressed field args key

def StaleMark.creates : StaleMark → Bool
  | .type _ => false
  | .record _ field _ => (HydratedStaleManager.named field).isSome

abbrev Entries := String → String → Option EntryStatus

def StaleMark.after (entries : Entries) (mark : StaleMark) : Entries := fun id key =>
  if mark.targets id key && (mark.creates || (entries id key).isSome) then some .stale
  else entries id key

namespace StaleAction

def removes : StaleAction → String → String → Bool
  | .delete record field, id, key => id == record && key == field
  | .deleteRecord record, id, _ => id == record
  | _, _, _ => false

def after (entries : Entries) : StaleAction → Entries
  | .write _ record field => fun id key =>
      if id = record ∧ key = field then some .fresh else entries id key
  | .force record field => fun id key =>
      if id = record ∧ key = field then some .stale else entries id key
  | .delete record field => fun id key =>
      if id = record ∧ key = field then none else entries id key
  | .deleteRecord record => fun id key => if id = record then none else entries id key
  | .hydrate snapshot => fun id key =>
      (entries id key).or (if snapshot.has id key then some .fresh else none)
  | .mark _ marked => marked.after entries
  | .reset => fun _ _ => none

end StaleAction

def entriesAfter (actions : List StaleAction) : Entries :=
  actions.foldl StaleAction.after fun _ _ => none

/-- The entry was removed while a snapshot with the field had yet to be registered. -/
def RemovedWhilePending (actions : List StaleAction) (id key : String) : Prop :=
  ∃ before action after, actions = before ++ action :: after ∧ action.removes id key = true ∧
    (runStaleActions before).pending id key = true

namespace HydratedStaleManager

variable {state : HydratedStaleManager}

private theorem status_flushThen (change : StaleManager → StaleManager) {id key : String}
    (targeted : Bool) (now : Nat)
    (changes : ∀ manager : StaleManager, (change manager).getFieldTime id key =
      if targeted = true ∧ (manager.getFieldTime id key).isSome = true then some none
      else manager.getFieldTime id key) :
    (state.flushThen now change).status id key =
      if targeted && (state.status id key).isSome then some .stale else state.status id key := by
  unfold status flushThen
  dsimp only
  rw [changes, getFieldTime_flushHydrated]
  have none : (state.flushHydrated now).pending id key = false := rfl
  unfold pending at none
  unfold pending
  dsimp only
  rw [none]
  cases state.pendingHydrated.any (·.has id key) <;> cases targeted <;>
    cases state.manager.getFieldTime id key with
    | none => simp [entryStatus]
    | some time => cases time <;> simp [entryStatus]

private theorem getFieldTime_flushThen (change : StaleManager → StaleManager) {id key : String}
    {time : FieldTime} (now : Nat)
    (kept : ∀ manager : StaleManager,
      (change manager).getFieldTime id key = manager.getFieldTime id key)
    (found : state.manager.getFieldTime id key = some time) :
    (state.flushThen now change).manager.getFieldTime id key = some time := by
  unfold flushThen
  dsimp only
  rw [kept, getFieldTime_flushHydrated, found]
  rfl

private theorem callKey_plain {field key : String} : callKey field [] key = (key == field) := rfl

theorem status_mark {mark : StaleMark} (plain : mark.Plain) (now : Nat) (id key : String) :
    (state.mark now mark).status id key = mark.after state.status id key := by
  unfold StaleMark.after HydratedStaleManager.mark
  cases mark with
  | type options =>
      cases options with
      | none =>
          refine (status_flushThen _ true now fun manager => ?_).trans (by
            simp [StaleMark.targets, StaleMark.creates])
          simpa using manager.getFieldTime_markAllStale id key
      | some options =>
          dsimp only
          cases field : named options.field with
          | none =>
              refine (status_flushThen _ _ now fun manager =>
                manager.getFieldTime_markTypeStale options.type id key).trans ?_
              simp [StaleMark.targets, StaleMark.creates, addressed, field]
          | some field' =>
              have bare : options.when = [] := plain (by rw [field]; rfl)
              rw [bare]
              refine (status_flushThen (·.markTypeFieldStale options.type field' field')
                (StaleManager.startsWithType options.type id && key == field') now
                fun manager => ?_).trans ?_
              · rw [StaleManager.getFieldTime_markTypeFieldStale]
                by_cases same : key = field'
                · subst same
                  simp
                · simp [same]
              · simp [StaleMark.targets, StaleMark.creates, addressed, field, bare, callKey_plain]
  | record record field args =>
      dsimp only
      cases present : named field with
      | none =>
          refine (status_flushThen _ (id == record) now fun manager => ?_).trans ?_
          · rw [manager.getFieldTime_markRecordStale record id key]
            simp
          · simp [StaleMark.targets, StaleMark.creates, addressed, present]
      | some field' =>
          dsimp only
          cases computed : computeKey field' args with
          | error error => simp [StaleMark.targets, addressed, present, callKey, computed]
          | ok name =>
              simp only [StaleMark.targets, StaleMark.creates, addressed, present, callKey, computed]
              unfold status
              dsimp only
              rw [StaleManager.getFieldTime_markFieldStale]
              by_cases same : id = record ∧ key = name
              · simp [same, entryStatus]
              · rw [if_neg same]
                have other : (id == record && key == name) = false := by
                  simpa using fun sameID sameKey => same ⟨sameID, sameKey⟩
                rw [other]
                rfl

theorem getFieldTime_mark {mark : StaleMark} (plain : mark.Plain) (now : Nat) {id key : String}
    {time : FieldTime} (spared : mark.targets id key = false)
    (found : state.manager.getFieldTime id key = some time) :
    (state.mark now mark).manager.getFieldTime id key = some time := by
  unfold HydratedStaleManager.mark
  cases mark with
  | type options =>
      cases options with
      | none => cases spared
      | some options =>
          dsimp only
          cases field : named options.field with
          | none =>
              refine getFieldTime_flushThen _ now (fun manager => ?_) found
              rw [StaleManager.getFieldTime_markTypeStale, if_neg]
              intro both
              simp [StaleMark.targets, addressed, field, both.1] at spared
          | some field' =>
              have bare : options.when = [] := plain (by rw [field]; rfl)
              rw [bare]
              refine getFieldTime_flushThen (·.markTypeFieldStale options.type field' field') now
                (fun manager => ?_) found
              rw [StaleManager.getFieldTime_markTypeFieldStale, if_neg]
              intro both
              simp [StaleMark.targets, addressed, field, bare, callKey_plain, both.1, both.2.2]
                at spared
  | record record field args =>
      dsimp only
      cases present : named field with
      | none =>
          refine getFieldTime_flushThen _ now (fun manager => ?_) found
          rw [StaleManager.getFieldTime_markRecordStale, if_neg]
          intro both
          simp [StaleMark.targets, addressed, present, both.1] at spared
      | some field' =>
          dsimp only
          cases computed : computeKey field' args with
          | error error => exact found
          | ok name =>
              dsimp only
              rw [StaleManager.getFieldTime_markFieldStale, if_neg, found]
              intro both
              simp [StaleMark.targets, addressed, present, callKey, computed, both.1, both.2] at spared

theorem status_act {action : StaleAction}
    (plain : ∀ now mark, action = .mark now mark → mark.Plain) {id key : String}
    (kept : action.removes id key = true → state.pending id key = false) :
    (state.act action).status id key = action.after state.status id key := by
  cases action with
  | write now record field =>
      unfold act StaleAction.after status
      dsimp only
      rw [StaleManager.getFieldTime_setFieldTimeToNow]
      split <;> rfl
  | force record field =>
      unfold act StaleAction.after status
      dsimp only
      rw [StaleManager.getFieldTime_markFieldStale]
      split <;> rfl
  | delete record field =>
      have kept : id = record ∧ key = field → state.pending id key = false := by
        intro same
        exact kept (by simp [StaleAction.removes, same])
      unfold act StaleAction.after status
      dsimp only
      rw [StaleManager.getFieldTime_delete]
      split
      · rename_i same
        exact congrArg (entryStatus none) (kept same)
      · rfl
  | deleteRecord record =>
      have kept : id = record → state.pending id key = false := by
        intro same
        exact kept (by simp [StaleAction.removes, same])
      unfold act StaleAction.after status
      dsimp only
      rw [StaleManager.getFieldTime_deleteRecord]
      split
      · rename_i same
        exact congrArg (entryStatus none) (kept same)
      · rfl
  | hydrate snapshot =>
      have pending : (state.registerHydration snapshot).pending id key =
          (state.pending id key || snapshot.has id key) := by
        unfold registerHydration HydratedStaleManager.pending
        simp
      unfold act StaleAction.after status
      dsimp only
      rw [pending]
      unfold registerHydration
      cases state.pending id key <;> cases snapshot.has id key <;>
        cases state.manager.getFieldTime id key with
        | none => simp [entryStatus]
        | some time => cases time <;> simp [entryStatus]
  | mark now mark => exact status_mark (plain now mark rfl) now id key
  | reset => rfl

end HydratedStaleManager

theorem runStaleActions_append (before after : List StaleAction) :
    runStaleActions (before ++ after) = after.foldl .act (runStaleActions before) :=
  List.foldl_append

private theorem entriesAfter_append (actions : List StaleAction) (action : StaleAction) :
    entriesAfter (actions ++ [action]) = action.after (entriesAfter actions) := by
  simp [entriesAfter]

private theorem after_congr {entries other : Entries} {id key : String} (action : StaleAction)
    (same : entries id key = other id key) :
    action.after entries id key = action.after other id key := by
  cases action <;> simp [StaleAction.after, StaleMark.after, same]

theorem status_runStaleActions {actions : List StaleAction}
    (plain : ∀ now mark, .mark now mark ∈ actions → mark.Plain) {id key : String}
    (kept : ¬ RemovedWhilePending actions id key) :
    (runStaleActions actions).status id key = entriesAfter actions id key := by
  induction actions using List.reverseRecOn with
  | nil => rfl
  | append_singleton before action ih =>
      have earlier : ¬ RemovedWhilePending before id key := by
        rintro ⟨first, removal, rest, rfl, removes, pending⟩
        exact kept ⟨first, removal, rest ++ [action], by simp, removes, pending⟩
      have before_eq := ih (fun now mark member => plain now mark (List.mem_append_left _ member))
        earlier
      rw [runStaleActions_append, entriesAfter_append]
      change ((runStaleActions before).act action).status id key = _
      rw [HydratedStaleManager.status_act]
      · exact after_congr action before_eq
      · rintro now mark rfl
        exact plain now mark (List.mem_append_right _ List.mem_cons_self)
      · intro removes
        by_contra pending
        exact kept ⟨before, action, [], rfl, removes, Bool.eq_true_of_not_eq_false pending⟩

/-- A user whose friends were hydrated, and whose name was written after that. -/
private def userActions : List StaleAction := [
  .hydrate {
    rank := 0
    fields := ∅
    links := OrderedMap.ofList
      [("User:1", OrderedMap.ofList [("friends(first: 5)", .array [])])] },
  .write 3 "User:1" "name"]

private theorem userActions_unmarked (now : Nat) (mark : StaleMark) :
    .mark now mark ∉ userActions := by
  simp [userActions]

private theorem userActions_kept (id key : String) : ¬ RemovedWhilePending userActions id key := by
  rintro ⟨before, action, after, split, removes, _⟩
  have member : action ∈ userActions := by
    rw [split]
    exact List.mem_append_right _ List.mem_cons_self
  obtain rfl | rfl : action = userActions[0] ∨ action = userActions[1] := by
    simpa [userActions] using member
  · cases removes
  · cases removes

private theorem userMark_plain : (StaleMark.type (some { type := "User" })).Plain :=
  fun _ => rfl

end Houdini.Runtime.Cache
