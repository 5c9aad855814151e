import Houdini.Runtime.Cache.StaleEvents

/-! When a write that forces its fields to be stale leaves none of them fresh. -/

set_option autoImplicit false

namespace Houdini.Runtime.Cache

theorem PendingOperations.applyOperations_layerIDs {pending final : PendingOperations}
    {operations : List Operation} (applied : pending.applyOperations operations = some final) :
    final.layerIDs = pending.layerIDs := by
  induction operations generalizing pending with
  | nil =>
      cases applied
      rfl
  | cons operation rest ih =>
      unfold PendingOperations.applyOperations at applied
      split at applied
      · cases applied
        rfl
      all_goals rename_i same
      · cases same
        have kept := ih applied
        exact kept
      · cases same
        have kept := ih applied
        exact kept
      · cases same
        have kept := ih applied
        exact kept
      · cases applied

namespace InMemoryStorage

theorem getFrom_displayLayers {idMaps : OrderedMap String String} {field : String}
    {pending : PendingOperations} {stack : List (Layer × String)} {id : LayerID}
    (displayed : id ∈ (getFrom idMaps field pending stack).displayLayers) :
    id ∈ pending.layerIDs ∨ ∃ entry ∈ stack, entry.1.id = id := by
  induction stack generalizing pending with
  | nil => cases displayed
  | cons entry rest ih =>
      obtain ⟨layer, record⟩ := entry
      have here {known : List LayerID} (member : id ∈ known ++ [layer.id]) :
          id ∈ known ∨ ∃ entry ∈ (layer, record) :: rest, entry.1.id = id := by
        obtain known | same := List.mem_append.mp member
        · exact .inl known
        · exact .inr ⟨_, List.mem_cons_self, (List.mem_singleton.mp same).symm⟩
      have later (found : ∃ entry ∈ rest, entry.1.id = id) :
          ∃ entry ∈ (layer, record) :: rest, entry.1.id = id := by
        obtain ⟨entry, member, same⟩ := found
        exact ⟨entry, List.mem_cons_of_mem _ member, same⟩
      unfold getFrom at displayed
      dsimp only at displayed
      split at displayed
      · obtain known | found := ih displayed
        · split at known
          · exact .inl known
          · exact here known
        · exact .inr (later found)
      · split at displayed
        · exact here (List.mem_append_right _ displayed)
        · split at displayed
          · cases displayed
          · rename_i pending' applied
            have kept := PendingOperations.applyOperations_layerIDs applied
            split at displayed
            · obtain known | found := ih displayed
              · rw [kept] at known
                exact here known
              · exact .inr (later found)
            · split at displayed
              · dsimp only at displayed
                rw [kept] at displayed
                exact here displayed
              · dsimp only at displayed
                rw [kept] at displayed
                exact here displayed

/-- There is no layer but this one, which is not optimistic. -/
structure Alone (storage : InMemoryStorage) (layer : LayerID) : Prop where
  distinct : storage.DistinctLayers
  headers : storage.headers = [(layer, false)]

theorem Alone.displays {storage : InMemoryStorage} {layer : LayerID} (alone : storage.Alone layer)
    (id key : String) : displays layer storage id key = true := by
  have headers := alone.headers
  unfold InMemoryStorage.headers at headers
  obtain ⟨current, single, header⟩ := List.map_eq_singleton_iff.mp headers
  have same : current.id = layer := congrArg Prod.fst header
  have shown : ∀ other ∈ (storage.get id key).displayLayers, other = current.id := by
    intro other displayed
    obtain pending | ⟨entry, member, rfl⟩ := getFrom_displayLayers displayed
    · cases pending
    · obtain ⟨held, member, ids⟩ := List.mem_flatMap.mp member
      rw [single] at member
      obtain rfl := List.mem_singleton.mp (List.mem_reverse.mp member)
      obtain ⟨_, _, rfl⟩ := List.mem_map.mp ids
      rfl
  unfold Cache.displays
  rw [single, List.find?_cons_of_pos (by simp [same]), Option.map_some, Option.getD_some]
  unfold Layer.isDisplayLayer
  cases layers : (storage.get id key).displayLayers with
  | nil => rfl
  | cons first rest =>
      rw [layers] at shown
      have first_eq := shown first List.mem_cons_self
      simp [first_eq]

theorem Alone.following {storage final : InMemoryStorage} {layer : LayerID} {Value : Type}
    {value : Value} {program : WriteM Value} (alone : storage.Alone layer)
    (writes : WritesTo layer storage program) (success : program storage = .ok value final) :
    final.Alone layer := by
  obtain ⟨distinct, headers⟩ := writes.kept_of_ok alone.distinct success
  exact ⟨distinct, headers.trans alone.headers⟩

theorem Alone.nextRank {storage : InMemoryStorage} {layer : LayerID} (alone : storage.Alone layer) :
    storage.nextRank.2.Alone layer where
  distinct := ⟨alone.distinct.nodup, alone.distinct.fresh⟩
  headers := alone.headers

end InMemoryStorage

open InMemoryStorage

/-- Every field is displayed. A field at the level of its object is one of the given record,
with the given flag, and one below it is never forced. A record is deleted only if it is owned
by a list that the write came to. -/
structure EventsSound (level : Nat) (forceStale : Bool) (parent : String)
    (events : List StaleEvent) : Prop where
  displayed : ∀ event, .field event ∈ events → event.displayed = true
  levels : ∀ event, .field event ∈ events →
    (event.level = level ∧ event.forceStale = forceStale ∧ event.id = parent) ∨
      (level < event.level ∧ event.forceStale = false)
  owned : ∀ id, .deleteRecord id ∈ events → ∃ event, .field event ∈ events ∧
    (event.id ++ "." ++ event.key ++ "[").toList.isPrefixOf id.toList = true

section Sound

variable {level : Nat} {forceStale : Bool} {parent : String}

theorem EventsSound.nil : EventsSound level forceStale parent [] :=
  ⟨fun _ member => absurd member List.not_mem_nil, fun _ member => absurd member List.not_mem_nil,
    fun _ member => absurd member List.not_mem_nil⟩

theorem EventsSound.append {first second : List StaleEvent}
    (left : EventsSound level forceStale parent first)
    (right : EventsSound level forceStale parent second) :
    EventsSound level forceStale parent (first ++ second) where
  displayed := fun event member =>
    (List.mem_append.mp member).elim (left.displayed event) (right.displayed event)
  levels := fun event member =>
    (List.mem_append.mp member).elim (left.levels event) (right.levels event)
  owned := by
    intro id member
    obtain first | second := List.mem_append.mp member
    · obtain ⟨event, listed, owns⟩ := left.owned id first
      exact ⟨event, List.mem_append_left _ listed, owns⟩
    · obtain ⟨event, listed, owns⟩ := right.owned id second
      exact ⟨event, List.mem_append_right _ listed, owns⟩

theorem EventsSound.flatMap {Item : Type} {items : List Item} {events : Item → List StaleEvent}
    (each : ∀ item ∈ items, EventsSound level forceStale parent (events item)) :
    EventsSound level forceStale parent (items.flatMap events) := by
  induction items with
  | nil => exact .nil
  | cons item rest ih =>
      rw [List.flatMap_cons]
      exact (each item List.mem_cons_self).append
        (ih fun other member => each other (List.mem_cons_of_mem _ member))

theorem EventsSound.nested {record : String} {events : List StaleEvent}
    (sound : EventsSound (level + 1) false record events) :
    EventsSound level forceStale parent events where
  displayed := sound.displayed
  levels := by
    intro event member
    obtain ⟨same, fresh, _⟩ | ⟨below, fresh⟩ := sound.levels event member
    · exact .inr ⟨by omega, fresh⟩
    · exact .inr ⟨by omega, fresh⟩
  owned := sound.owned

theorem EventsSound.field {key : String} {nested lost : List StaleEvent}
    (sound : EventsSound level forceStale parent nested)
    (owned : ∀ event ∈ lost, ∃ id, event = .deleteRecord id ∧
      (parent ++ "." ++ key ++ "[").toList.isPrefixOf id.toList = true) :
    EventsSound level forceStale parent
      (.field { level, id := parent, key, displayed := true, forceStale } :: (nested ++ lost)) := by
  have inNested {event : FieldEvent} (member : .field event ∈ nested ++ lost) :
      .field event ∈ nested := by
    obtain listed | listed := List.mem_append.mp member
    · exact listed
    · obtain ⟨id, same, _⟩ := owned _ listed
      cases same
  refine ⟨?_, ?_, ?_⟩
  · intro event member
    obtain same | member := List.mem_cons.mp member
    · cases same
      rfl
    · exact sound.displayed event (inNested member)
  · intro event member
    obtain same | member := List.mem_cons.mp member
    · cases same
      exact .inl ⟨rfl, rfl, rfl⟩
    · exact sound.levels event (inNested member)
  · intro id member
    obtain same | member := List.mem_cons.mp member
    · cases same
    · obtain listed | listed := List.mem_append.mp member
      · obtain ⟨event, found, owns⟩ := sound.owned id listed
        exact ⟨event, List.mem_cons_of_mem _ (List.mem_append_left _ found), owns⟩
      · obtain ⟨_, same, owns⟩ := owned _ listed
        cases same
        exact ⟨_, List.mem_cons_self, owns⟩

end Sound

section Events

variable {context : WriteContext} {layer : LayerID} {storage : InMemoryStorage}

section Entries

variable {config : ConfigFile} {field : LinkedField} {write : String → GraphQLObject → WriteM Unit}

theorem EntryVisit.after_alone {entry : EntryVisit} (alone : entry.storage.Alone layer) :
    entry.after.Alone layer := by
  unfold EntryVisit.after
  split
  · exact alone
  · exact alone.nextRank

mutual

theorem entryVisits_alone
    (writes : ∀ start id data, WritesTo layer start (write id data)) (entry : GraphQLValue)
    {previousID : GraphQLValue} {storage : InMemoryStorage} (alone : storage.Alone layer) :
    ∀ visit ∈ entryVisits config field write previousID entry storage,
      visit.storage.Alone layer := by
  intro visit member
  cases entry with
  | array entries => exact listVisits_alone writes entries alone visit member
  | null | undefined => cases member
  | object | boolean | number | string | component =>
      unfold entryVisits at member
      rw [List.mem_singleton.mp member]
      exact alone

theorem listVisits_alone
    (writes : ∀ start id data, WritesTo layer start (write id data)) (entries : List GraphQLValue)
    {previousIDs : List GraphQLValue} {storage : InMemoryStorage} (alone : storage.Alone layer) :
    ∀ visit ∈ listVisits config field write previousIDs entries storage,
      visit.storage.Alone layer := by
  intro visit member
  cases entries with
  | nil => cases member
  | cons entry rest =>
      unfold listVisits at member
      obtain first | others := List.mem_append.mp member
      · exact entryVisits_alone writes entry alone visit first
      · unfold following at others
        cases run : extractEntryIDs config field write (previousIDs.headD .undefined) entry storage with
        | ok value middle =>
            rw [run] at others
            have next := alone.following (extractEntryIDs_writes (writes storage) _ entry) run
            exact listVisits_alone writes rest next visit others
        | error error middle =>
            rw [run] at others
            cases others

end

end Entries

variable {write : SubscriptionSelection → String → GraphQLObject → WriteM Unit}
  {events : SubscriptionSelection → ObjectEvents} {level : Nat} {forceStale : Bool}

def NestedSound (layer : LayerID) (level : Nat) (events : SubscriptionSelection → ObjectEvents) :
    Prop :=
  ∀ selection id data storage, InMemoryStorage.Alone storage layer →
    EventsSound (level + 1) false id (events selection id data storage)

private theorem lostEvents_owned {write : String → GraphQLObject → WriteM Unit}
    {updates : Option (List String)} {field : LinkedField}
    {previousIDs oldIDs entries : List GraphQLValue} :
    ∀ event ∈ lostEvents context layer write updates field previousIDs oldIDs entries storage,
      ∃ id, event = .deleteRecord id ∧
        (field.parent ++ "." ++ field.key ++ "[").toList.isPrefixOf id.toList = true := by
  intro event member
  unfold lostEvents at member
  split at member
  · split at member
    · cases member
    · obtain ⟨id, lost, rfl⟩ := List.mem_map.mp member
      obtain ⟨_, owns⟩ := List.mem_filter.mp lost
      exact ⟨id, rfl, (Bool.and_eq_true_iff.mp owns).2⟩
  · cases member

theorem propertyEvents_sound (nested : NestedSound layer level events)
    (writes : ∀ start selection id data, WritesTo layer start (write selection id data))
    (parent : String) (field : SelectionField) (value : GraphQLValue)
    (alone : storage.Alone layer) :
    EventsSound level forceStale parent
      (propertyEvents context layer write events level forceStale parent field value storage) := by
  have within (inner : List StaleEvent) (sound : EventsSound level forceStale parent inner) :
      EventsSound level forceStale parent
        (.field { level, id := parent, key := field.key context.vars, displayed := true,
                  forceStale } :: inner) := by
    have nothing : ∀ event ∈ ([] : List StaleEvent), ∃ id, event = .deleteRecord id ∧
        (parent ++ "." ++ field.key context.vars ++ "[").toList.isPrefixOf id.toList = true :=
      fun _ member => absurd member List.not_mem_nil
    have whole := sound.field nothing
    rwa [List.append_nil] at whole
  unfold propertyEvents
  dsimp only
  rw [alone.displays]
  unfold linkEvents
  cases inner : field.selection with
  | none => exact within [] .nil
  | some selection =>
      cases value with
      | object data =>
          refine within _ ?_
          dsimp only
          unfold objectEvents
          split
          · rename_i id _
            unfold following
            split
            · rename_i middle run
              exact (nested selection id data middle
                (alone.following (writeLinkTo_writes _ _ _) run)).nested
            · exact .nil
          · exact .nil
      | array entries =>
          dsimp only
          split
          · refine EventsSound.field (.flatMap fun entry member => ?_) lostEvents_owned
            have here := listVisits_alone (fun start id data => writes start selection id data)
              entries alone entry member
            unfold EntryVisit.events
            split
            · rename_i id _
              exact (nested selection id entry.data entry.after (EntryVisit.after_alone here)).nested
            · exact .nil
          · exact within [] .nil
      | undefined | null | boolean | number | string | component => exact within [] .nil

theorem fieldsEvents_sound (nested : NestedSound layer level events)
    (writes : ∀ start selection id data, WritesTo layer start (write selection id data))
    (parent : String) (fields : FieldSelections) (data : GraphQLObject)
    (alone : storage.Alone layer) :
    EventsSound level forceStale parent
      (fieldsEvents context layer write events level forceStale parent fields data storage) := by
  induction data generalizing storage with
  | nil => exact .nil
  | cons property rest ih =>
      obtain ⟨name, value⟩ := property
      unfold fieldsEvents
      cases found : fields.lookup name with
      | none => exact ih alone
      | some field =>
          refine (propertyEvents_sound nested writes parent field value alone).append ?_
          unfold following
          cases run : writeProperty context layer write parent field value storage with
          | ok done middle =>
              have ran : WritesTo layer storage
                  (writeProperty context layer write parent field value) :=
                writeProperty_writes (fun inner _ id data => writes storage inner id data) parent value
              exact ih (alone.following ran run)
          | error => exact .nil

theorem selectionEventsWithin_sound (context : WriteContext) (depth : Nat)
    (selection : SubscriptionSelection) (parent : String) (data : GraphQLObject)
    (alone : storage.Alone layer) :
    EventsSound level forceStale parent
      (selectionEventsWithin context layer depth level forceStale selection parent data storage) := by
  induction depth generalizing level forceStale selection parent data storage with
  | zero => exact .nil
  | succ depth ih =>
      unfold selectionEventsWithin
      split
      · exact .nil
      · split
        · exact .nil
        · refine fieldsEvents_sound (fun inner id data storage alone => ih inner id data alone) ?_
            parent _ data alone
          exact fun start inner id data =>
            writeSelectionWithin_writes context layer start depth inner id data

end Events

namespace StaleManager

variable {manager : StaleManager} {now : Nat} {id key : String}

theorem getFieldTime_field (event : FieldEvent) :
    (manager.after now (.field event)).getFieldTime id key =
      if event.displayed = true ∧ id = event.id ∧ key = event.key then
        some (if event.forceStale then none else some now)
      else manager.getFieldTime id key := by
  unfold after getFieldTime
  cases displayed : event.displayed with
  | false => simp [displayed]
  | true =>
      cases forced : event.forceStale <;>
        simp [displayed, forced, markFieldStale, setFieldTimeToNow, OrderedMap.getIn?_setIn]

theorem getFieldTime_after_deleteRecord (record : String) :
    (manager.after now (.deleteRecord record)).getFieldTime id key =
      if id = record then none else manager.getFieldTime id key := by
  unfold after getFieldTime deleteRecord
  exact OrderedMap.getIn?_erase ..

theorem fresh_of_unforced {events : List StaleEvent}
    (fresh : manager.getFieldTime id key ≠ some none)
    (unforced : ∀ event, .field event ∈ events → event.id = id → event.key = key →
      event.forceStale = false) :
    (events.foldl (after now) manager).getFieldTime id key ≠ some none := by
  induction events generalizing manager with
  | nil => exact fresh
  | cons event rest ih =>
      refine ih ?_ fun other member => unforced other (List.mem_cons_of_mem _ member)
      cases event with
      | field event =>
          rw [getFieldTime_field]
          split
          · rename_i same
            rw [unforced event List.mem_cons_self same.2.1.symm same.2.2.symm]
            simp
          · exact fresh
      | deleteRecord record =>
          rw [getFieldTime_after_deleteRecord]
          split
          · simp
          · exact fresh

theorem stale_of_untouched {events : List StaleEvent}
    (stale : manager.getFieldTime id key = some none)
    (unwritten : ∀ event, .field event ∈ events → ¬ (event.id = id ∧ event.key = key))
    (kept : .deleteRecord id ∉ events) :
    (events.foldl (after now) manager).getFieldTime id key = some none := by
  induction events generalizing manager with
  | nil => exact stale
  | cons event rest ih =>
      refine ih ?_ (fun other member => unwritten other (List.mem_cons_of_mem _ member))
        fun member => kept (List.mem_cons_of_mem _ member)
      cases event with
      | field event =>
          rw [getFieldTime_field, if_neg, stale]
          exact fun same => unwritten event List.mem_cons_self ⟨same.2.1.symm, same.2.2.symm⟩
      | deleteRecord record =>
          rw [getFieldTime_after_deleteRecord, if_neg, stale]
          rintro rfl
          exact kept List.mem_cons_self

end StaleManager

/-- A field that is written below the object is written again, later, at the object itself. -/
def RewrittenAbove (events : List StaleEvent) : Prop :=
  ∀ before event after, events = before ++ .field event :: after → 0 < event.level →
    ∃ later, .field later ∈ after ∧ later.level = 0 ∧ later.id = event.id ∧ later.key = event.key

private theorem exists_last {events : List StaleEvent} {id key : String}
    (written : ∃ event, .field event ∈ events ∧ event.id = id ∧ event.key = key) :
    ∃ before last after, events = before ++ .field last :: after ∧ last.id = id ∧ last.key = key ∧
      ∀ other, .field other ∈ after → ¬ (other.id = id ∧ other.key = key) := by
  induction events with
  | nil =>
      obtain ⟨_, member, _⟩ := written
      cases member
  | cons head rest ih =>
      by_cases again : ∃ event, .field event ∈ rest ∧ event.id = id ∧ event.key = key
      · obtain ⟨before, last, after, rfl, found⟩ := ih again
        exact ⟨head :: before, last, after, rfl, found⟩
      · obtain ⟨event, member, cell⟩ := written
        obtain rfl | later := List.mem_cons.mp member
        · exact ⟨[], event, rest, rfl, cell.1, cell.2, fun other listed same =>
            again ⟨other, listed, same⟩⟩
        · exact absurd ⟨event, later, cell⟩ again

private theorem not_owned_by_itself (id key : String) :
    ¬ (id ++ "." ++ key ++ "[").toList.isPrefixOf id.toList = true := by
  intro owned
  have shorter := (List.isPrefixOf_iff_prefix.mp owned).length_le
  simp only [String.toList_append, List.length_append] at shorter
  have bracket : "[".toList.length = 1 := rfl
  omega

/-- Every field of a forced write ends up stale if and only if those below the object are
written again at the object. -/
theorem stale_iff_rewrittenAbove {events : List StaleEvent} {parent : String}
    (sound : EventsSound 0 true parent events) (now : Nat) (manager : StaleManager) :
    (∀ event, .field event ∈ events →
        (events.foldl (StaleManager.after now) manager).getFieldTime event.id event.key =
          some none) ↔ RewrittenAbove events := by
  constructor
  · intro stale before event after split below
    by_contra missing
    have member : .field event ∈ events := by
      rw [split]
      exact List.mem_append_right _ List.mem_cons_self
    have unforced : event.forceStale = false := by
      obtain ⟨top, _⟩ | ⟨_, fresh⟩ := sound.levels event member
      · omega
      · exact fresh
    refine absurd (stale event member) ?_
    rw [split, List.foldl_append, List.foldl_cons]
    refine StaleManager.fresh_of_unforced ?_ fun other listed id key => ?_
    · rw [StaleManager.getFieldTime_field, unforced, sound.displayed event member]
      simp
    · have known : .field other ∈ events := by
        rw [split]
        exact List.mem_append_right _ (List.mem_cons_of_mem _ listed)
      obtain ⟨top, _⟩ | ⟨_, fresh⟩ := sound.levels other known
      · exact absurd ⟨other, listed, top, id, key⟩ missing
      · exact fresh
  · intro rewritten event member
    -- below the object there are fields of the object only
    have onParent {other : FieldEvent} (listed : .field other ∈ events) : other.id = parent := by
      obtain ⟨_, _, same⟩ | ⟨below, _⟩ := sound.levels other listed
      · exact same
      · obtain ⟨before, after, split⟩ := List.append_of_mem listed
        obtain ⟨later, found, top, id, _⟩ := rewritten before other after split below
        obtain ⟨_, _, same⟩ | ⟨above, _⟩ := sound.levels later (by rw [split]; simp [found])
        · exact id.symm.trans same
        · omega
    obtain ⟨before, last, after, split, id, key, unwritten⟩ := exists_last ⟨event, member, rfl, rfl⟩
    have known : .field last ∈ events := by
      rw [split]
      exact List.mem_append_right _ List.mem_cons_self
    have forced : last.forceStale = true := by
      obtain ⟨_, forced, _⟩ | ⟨below, _⟩ := sound.levels last known
      · exact forced
      · obtain ⟨later, found, _, sameID, sameKey⟩ := rewritten before last after split below
        exact absurd ⟨sameID.trans id, sameKey.trans key⟩ (unwritten later found)
    have kept : .deleteRecord event.id ∉ after := by
      intro deleted
      have deleted : .deleteRecord event.id ∈ events := by
        rw [split]
        exact List.mem_append_right _ (List.mem_cons_of_mem _ deleted)
      obtain ⟨owner, listed, owns⟩ := sound.owned event.id deleted
      rw [onParent listed, onParent member] at owns
      exact not_owned_by_itself _ _ owns
    rw [split, List.foldl_append, List.foldl_cons]
    refine StaleManager.stale_of_untouched ?_ unwritten kept
    rw [StaleManager.getFieldTime_field, forced, sound.displayed last known, id, key]
    simp

/-- The cache has no layer but its base, if it has any. -/
structure InMemoryStorage.Unlayered (storage : InMemoryStorage) : Prop where
  distinct : storage.DistinctLayers
  single : storage.data.length ≤ 1
  resolved : ∀ layer ∈ storage.data, layer.optimistic = false

theorem InMemoryStorage.Unlayered.writeLayer {storage next : InMemoryStorage}
    (unlayered : storage.Unlayered) {layer : Option LayerID} {id : LayerID}
    (success : writeLayer layer storage = .ok id next) : next.Alone id := by
  have base {current : Layer} (member : current ∈ storage.data) : storage.Alone current.id := by
    refine ⟨unlayered.distinct, ?_⟩
    have single := unlayered.single
    unfold InMemoryStorage.headers
    cases stack : storage.data with
    | nil =>
        rw [stack] at member
        cases member
    | cons only rest =>
        have resolved := unlayered.resolved
        rw [stack] at member resolved single
        have alone : rest = [] := List.eq_nil_of_length_eq_zero (by simpa using single)
        rw [alone] at member
        rw [alone, List.mem_singleton.mp member]
        simp [Layer.header, resolved only List.mem_cons_self]
  unfold Cache.writeLayer at success
  split at success
  · cases success
    cases last : storage.data.getLast? with
    | none =>
        have stack : storage.data = [] := List.getLast?_eq_none_iff.mp last
        refine ⟨?_, by simp [InMemoryStorage.createLayer, InMemoryStorage.headers, stack,
          Layer.header]⟩
        constructor
        · simp [InMemoryStorage.createLayer, stack]
        · simp [InMemoryStorage.createLayer, stack]
    | some current =>
        have member := List.mem_of_getLast? last
        simp only [unlayered.resolved current member, Bool.false_eq_true, if_false]
        exact base member
  · rename_i wanted _
    unfold InMemoryStorage.getLayer at success
    cases found : storage.data.find? (·.id == wanted) with
    | none =>
        rw [found] at success
        cases success
    | some current =>
        rw [found] at success
        cases success
        exact base (List.mem_of_find?_eq_some found)

/-- Without pending layers, a forced write leaves every field stale that it comes to, exactly
when it comes to no field below its object, except for fields of the object itself that it
comes to again later, at the object. -/
theorem write_forcesStale_iff {storage : InMemoryStorage} (unlayered : storage.Unlayered)
    (context : WriteContext) (selection : SubscriptionSelection) (data : GraphQLObject)
    (parent : String) (layer : Option LayerID) (now : Nat) (manager : StaleManager) :
    let events := writeEvents context true selection data parent layer storage
    (∀ event, .field event ∈ events →
        (events.foldl (StaleManager.after now) manager).getFieldTime event.id event.key =
          some none) ↔ RewrittenAbove events := by
  intro events
  refine @stale_iff_rewrittenAbove events parent ?_ now manager
  change EventsSound 0 true parent (writeEvents context true selection data parent layer storage)
  unfold writeEvents
  cases chosen : writeLayer layer storage with
  | ok id middle =>
      exact selectionEventsWithin_sound context selection.depth selection parent data
        (unlayered.writeLayer chosen)
  | error => exact .nil

private def viewerID : SubscriptionSelection where
  fields := [("viewer", { type := "User", keyRaw := "viewer", selection := some {
    fields := [("id", { type := "ID", keyRaw := "id" })] } })]

private def viewerData : GraphQLObject := [("viewer", .object [("id", .string "1")])]

private theorem unlayered_empty : InMemoryStorage.Unlayered {} where
  distinct := ⟨.nil, fun _ member => absurd member List.not_mem_nil⟩
  single := Nat.zero_le _
  resolved := fun _ member => absurd member List.not_mem_nil

theorem write_forcesStale_iff_viewer :
    let events := writeEvents {} true viewerID viewerData rootID none {}
    (∀ event, .field event ∈ events →
        (events.foldl (StaleManager.after 7) {}).getFieldTime event.id event.key = some none) ↔
      RewrittenAbove events :=
  write_forcesStale_iff unlayered_empty {} viewerID viewerData rootID none 7 {}

/-- The link is stale after a forced write, and the id of the record that it leads to is
not. -/
theorem write_freshBelow_viewer :
    let events := writeEvents {} true viewerID viewerData rootID none {}
    let manager := events.foldl (StaleManager.after 7) {}
    .field { level := 1, id := "User:1", key := "id", displayed := true, forceStale := false } ∈
        events ∧
      manager.getFieldTime rootID "viewer" = some none ∧
      manager.getFieldTime "User:1" "id" = some (some 7) :=
  ⟨.tail _ (.head _), rfl, rfl⟩

end Houdini.Runtime.Cache
