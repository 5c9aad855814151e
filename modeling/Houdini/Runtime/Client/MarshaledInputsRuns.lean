import Houdini.Runtime.Client.MarshaledInputs

/-! The marshaled inputs follow the variables as long as no variable is taken away again, and
marshaling what the query plugin remembers once more makes no difference. -/

set_option autoImplicit false

namespace Houdini.Runtime.Client

section Document

variable {scalars : Scalars} {input : Option InputObject}

theorem Held.identical_undefined {held : Held} {identity : Nat}
    (same : held.identical { identity, value := .undefined } = true) : held.value = .undefined := by
  rw [identical, Bool.and_eq_true] at same
  exact of_decide_eq_true same.1

theorem Held.identical_refl (held : Held) : held.identical held = true := by
  simp [identical]

theorem get?_changedVariables (source : VariablesContext) (vars : Option Variables)
    (name : String) :
    (changedVariables source vars).get? name =
      ((vars.getD ∅).get? name).filter fun held => !held.identical (source.variable name) := by
  rw [changedVariables, OrderedMap.get?_filter]

theorem get?_suppliedBy (source : VariablesContext) (supplied : Marshaled)
    (vars : Option Variables) (name : String) :
    (suppliedBy source supplied vars).get? name =
      ((vars.getD ∅).get? name).map fun held =>
        if held.identical (source.variable name) then (supplied.get? name).getD held.value
        else held.value := by
  rw [suppliedBy, OrderedMap.get?_mapValues]

theorem Keeps.isSome {source : VariablesContext} {vars : Option Variables}
    (keeps : Keeps source vars) {name : String} (present : (source.variables.get? name).isSome) :
    ((vars.getD ∅).get? name).isSome := by
  obtain ⟨held, found⟩ := Option.isSome_iff_exists.mp present
  exact keeps.1 name (OrderedMap.mem_keys_iff.mpr ⟨held, found⟩)

theorem Keeps.found {source : VariablesContext} {vars : Option Variables}
    (keeps : Keeps source vars) {name : String} {held : Held}
    (present : (vars.getD ∅).get? name = some held)
    (same : held.identical (source.variable name) = true) :
    (source.variables.get? name).isSome := by
  cases found : source.variables.get? name with
  | some _ => rfl
  | none =>
      rw [VariablesContext.variable, found] at same
      have isSome := keeps.2 (name, held) (OrderedMap.mem_entries_iff.mpr present)
        (Held.identical_undefined same)
      rw [found] at isSome
      exact isSome

theorem get?_eq_none_of_not_mem {values : Marshaled} {name : String}
    (absent : name ∉ values.keys) : values.get? name = none :=
  OrderedMap.lookup_eq_none_of_not_mem absent

theorem get?_marshaled {source : VariablesContext} {changed : Variables} {fields : GraphQLValue}
    (done : marshalInputs scalars input
      (.object (changed.entries.map fun entry => (entry.1, entry.2.value))) = .ok fields)
    (name : String) :
    ((source.inputs.marshaled.setAll (properties fields)).get? name).map Except.ok =
      ((changed.get? name).map fun held => marshalVariable scalars input name held.value).or
        ((source.inputs.marshaled.get? name).map Except.ok) := by
  obtain ⟨marshaled, rfl, names, values⟩ := marshalInputs_object done
  have unique : (marshaled.map Prod.fst).Nodup := by
    rw [names, List.map_map]
    exact changed.nodupKeys
  have spread := OrderedMap.get?_setAll_entries ⟨marshaled, unique⟩ source.inputs.marshaled name
  have value := values name
  have given : (changed.entries.map fun entry => (entry.1, entry.2.value)).lookup name =
      (changed.get? name).map Held.value :=
    OrderedMap.get?_mapValues changed (fun _ held => held.value) name
  rw [given, Option.map_map] at value
  change ((source.inputs.marshaled.setAll marshaled).get? name) = _ at spread
  rw [properties, spread]
  change ((marshaled.lookup name).or _).map _ = _
  cases present : changed.get? name with
  | some held =>
      rw [present] at value
      obtain ⟨result, found, same⟩ := Option.map_eq_some_iff.mp value
      rw [found]
      exact congrArg some same
  | none =>
      rw [present] at value
      rw [Option.map_eq_none_iff.mp value]
      rfl

theorem tracks_changed {source values : VariablesContext} {supplied : Marshaled}
    {changed : Variables} {fields : GraphQLValue} {inputs : MarshaledInputs}
    (tracks : Tracks scalars input source supplied) (keeps : Keeps source values.vars)
    (isChanged : changed = changedVariables source values.vars)
    (done : marshalInputs scalars input
      (.object (changed.entries.map fun entry => (entry.1, entry.2.value))) = .ok fields)
    (isMarshaled : inputs.marshaled = source.inputs.marshaled.setAll (properties fields)) :
    Tracks scalars input { values with inputs } (suppliedBy source supplied values.vars) where
  names := fun name => by
    rw [get?_suppliedBy, Option.isSome_map]
    rfl
  marshaled := fun name => by
    rw [isMarshaled, get?_marshaled done, isChanged, get?_changedVariables, get?_suppliedBy]
    cases present : (values.vars.getD ∅).get? name with
    | none =>
        -- the context does not have the variable either
        have absent : (supplied.get? name).isSome = false := by
          rw [tracks.names]
          by_contra has
          have := keeps.isSome (Bool.of_not_eq_false has)
          simp [present] at this
        rw [Option.isSome_eq_false_iff, Option.isNone_iff_eq_none] at absent
        rw [Option.filter_none, tracks.marshaled name, absent]
        rfl
    | some held =>
        cases same : held.identical (source.variable name) with
        | false => simp [Option.filter_some, same]
        | true =>
            obtain ⟨value, found⟩ := Option.isSome_iff_exists.mp
              ((tracks.names name).trans (keeps.found present same))
            simp [Option.filter_some, same, tracks.marshaled name, found]

theorem Tracks.of_agree {context : VariablesContext} {supplied other : Marshaled}
    (tracks : Tracks scalars input context supplied)
    (agree : ∀ name, (supplied.get? name).map (marshalVariable scalars input name) =
      (other.get? name).map (marshalVariable scalars input name)) :
    Tracks scalars input context other where
  names := fun name => by
    have same := congrArg Option.isSome (agree name)
    rw [Option.isSome_map, Option.isSome_map] at same
    rw [← same, tracks.names]
  marshaled := fun name => (tracks.marshaled name).trans (agree name)

theorem AgreeOn.everywhere {names : List String} {left right : Marshaled}
    (agree : AgreeOn scalars input names left right)
    (covers : ∀ name, name ∉ names → left.get? name = right.get? name) (name : String) :
    (left.get? name).map (marshalVariable scalars input name) =
      (right.get? name).map (marshalVariable scalars input name) := by
  by_cases member : name ∈ names
  · exact agree name member
  · rw [covers name member]

namespace ClientPluginContextWrapper

variable {wrapper : ClientPluginContextWrapper} {draft next : VariablesContext}
  {vars : Option Variables}

theorem applyVariables_cases {source values : VariablesContext}
    (applied : wrapper.applyVariables scalars input source values = .ok next) :
    (∃ fields, marshalInputs scalars input (.object
        ((changedVariables source values.vars).entries.map fun entry =>
          (entry.1, entry.2.value))) = .ok fields ∧
      next = { values with
        inputs := { next.inputs with
          init := true
          marshaled := source.inputs.marshaled.setAll (properties fields) } } ∧
      ((changedVariables source values.vars).isEmpty = true → values.inputs.init = false)) ∨
    ((changedVariables source values.vars).isEmpty = true ∧
      next = { values with
        inputs := { next.inputs with init := true, marshaled := values.inputs.marshaled } }) := by
  rw [applyVariables] at applied
  split at applied
  · next condition =>
      cases done : marshalInputs scalars input (.object
          ((changedVariables source values.vars).entries.map fun entry =>
            (entry.1, entry.2.value))) with
      | error error =>
          rw [done] at applied
          cases applied
      | ok fields =>
          rw [done] at applied
          obtain rfl := Except.ok.inj applied
          exact .inl ⟨fields, rfl, rfl, fun empty => by simpa [empty] using condition⟩
  · next condition =>
      obtain rfl := Except.ok.inj applied
      simp only [Bool.or_eq_true, Bool.not_eq_true', not_or, Bool.not_eq_false] at condition
      exact .inr ⟨condition.1, rfl⟩

theorem tracks_setVariables {supplied : Marshaled}
    (tracks : Tracks scalars input draft supplied) (keeps : Keeps draft vars)
    (applied : wrapper.setVariables scalars input draft vars = .ok next) :
    Tracks scalars input next (suppliedBy draft supplied vars) ∧ next.inputs.init = true := by
  obtain ⟨fields, done, same, _⟩ | ⟨empty, same⟩ := applyVariables_cases applied
  · rw [same]
    exact ⟨tracks_changed tracks keeps rfl done rfl, rfl⟩
  · rw [same]
    refine ⟨?_, rfl⟩
    -- marshaling nothing leaves what is marshaled
    have done : marshalInputs scalars input (.object
        ((changedVariables draft vars).entries.map fun entry => (entry.1, entry.2.value))) =
          .ok (.object []) := by
      rw [List.isEmpty_iff.mp empty]
      cases input <;> rfl
    exact @tracks_changed _ _ _ { draft with vars } _ _ _ _ tracks keeps rfl done rfl

end ClientPluginContextWrapper

namespace VariablesSend

/-- What holds of a send between two events. -/
structure Sound (scalars : Scalars) (input : Option InputObject) (send : VariablesSend) :
    Prop where
  context : Tracks scalars input send.wrapper.context send.supplied
  draft : Tracks scalars input send.draft send.draftSupplied
  contextInit : send.wrapper.context.inputs.init = true
  init : send.draft.inputs.init = true

variable {send : VariablesSend}

theorem Sound.assign (sound : send.Sound scalars input) {vars : Option Variables}
    (keeps : Keeps send.draft vars) : (send.assign scalars input vars).Sound scalars input := by
  rw [VariablesSend.assign]
  split
  · exact sound
  · next draft applied =>
      obtain ⟨tracks, init⟩ :=
        ClientPluginContextWrapper.tracks_setVariables sound.draft keeps applied
      exact { sound with draft := tracks, init }

theorem Sound.next (sound : send.Sound scalars input) : send.next.Sound scalars input :=
  { sound with context := sound.draft, contextInit := sound.init }

theorem Sound.throw (sound : send.Sound scalars input) : send.throw.Sound scalars input :=
  { sound with draft := sound.context, init := sound.contextInit }

theorem Sound.replace (sound : send.Sound scalars input) {vars : Option Variables}
    (replaces : send.Replaces scalars input vars) :
    (send.replace scalars input vars).Sound scalars input := by
  rw [VariablesSend.replace]
  split
  · exact sound
  · next context applied =>
      have both : Tracks scalars input context
          (suppliedBy send.wrapper.context send.supplied vars) ∧ context.inputs.init = true := by
        obtain ⟨fields, done, same, first⟩ | ⟨empty, same⟩ :=
          ClientPluginContextWrapper.applyVariables_cases applied
        · have changed : ¬ (changedVariables send.wrapper.context vars).isEmpty = true :=
            fun empty => Bool.false_ne_true ((first empty).symm.trans sound.init)
          rw [Replaces, if_neg changed] at replaces
          rw [same]
          exact ⟨tracks_changed sound.context replaces rfl done rfl, rfl⟩
        · rw [Replaces, if_pos empty] at replaces
          rw [same]
          exact ⟨{
            names := fun name => by
              rw [get?_suppliedBy, Option.isSome_map]
              rfl
            marshaled := fun name =>
              (sound.draft.marshaled name).trans (replaces.everywhere (fun name outside => by
                rw [get?_eq_none_of_not_mem fun member =>
                    outside (List.mem_append_right _ member),
                  get?_eq_none_of_not_mem fun member =>
                    outside (List.mem_append_left _ member)]) name) }, rfl⟩
      exact { context := both.1, draft := both.1, contextInit := both.2, init := both.2 }

theorem lookup_map_snd {Value Other : Type} (entries : List (String × Value))
    (transform : Value → Other) (name : String) :
    (entries.map fun entry => (entry.1, transform entry.2)).lookup name =
      (entries.lookup name).map transform := by
  induction entries with
  | nil => rfl
  | cons entry rest ih =>
      rw [List.map_cons, List.lookup_cons, List.lookup_cons]
      cases same : name == entry.1 with
      | true => rfl
      | false => exact ih

theorem get?_startVariables (remembered : Marshaled) (identity : String → Nat)
    (resolved : String → Option Held) (name : String) :
    (send.startVariables input remembered identity resolved).get? name =
      ((send.draft.variables.get? name).or
        ((runtimeScalars input resolved).reverse.lookup name)).or
        ((remembered.get? name).map fun value => { identity := identity name, value }) := by
  rw [startVariables, OrderedMap.get?_setAll_entries, OrderedMap.get?_setAll,
    OrderedMap.get?_mapValues, Option.or_assoc]

theorem get?_startSupplied (previous : Marshaled) (resolved : String → Option Held)
    (name : String) :
    (send.startSupplied input previous resolved).get? name =
      ((send.draftSupplied.get? name).or
        (((runtimeScalars input resolved).reverse.lookup name).map Held.value)).or
        (previous.get? name) := by
  rw [startSupplied, OrderedMap.get?_setAll_entries, OrderedMap.get?_setAll, ← List.map_reverse,
    Option.or_assoc]
  congr 2
  exact lookup_map_snd _ Held.value name

theorem suppliedBy_startVariables (sound : send.Sound scalars input)
    {remembered previous : Marshaled} {identity : String → Nat}
    {resolved : String → Option Held}
    (fills : send.Fills scalars input remembered previous identity resolved) (name : String) :
    ((suppliedBy send.draft send.draftSupplied
        (some (send.startVariables input remembered identity resolved))).get? name).map
        (marshalVariable scalars input name) =
      ((send.startSupplied input previous resolved).get? name).map
        (marshalVariable scalars input name) := by
  rw [get?_suppliedBy, get?_startSupplied]
  change (((send.startVariables input remembered identity resolved).get? name).map _).map _ = _
  rw [get?_startVariables]
  cases has : send.draft.variables.get? name with
  | some held =>
      obtain ⟨value, supplied⟩ := Option.isSome_iff_exists.mp
        ((sound.draft.names name).trans (congrArg Option.isSome has))
      have isVariable : send.draft.variable name = held := by
        rw [VariablesContext.variable, has]
        rfl
      simp [supplied, isVariable, held.identical_refl]
  | none =>
      have absent : send.draftSupplied.get? name = none := by
        have names := sound.draft.names name
        rw [has] at names
        exact Option.isNone_iff_eq_none.mp (Option.isSome_eq_false_iff.mp names)
      rw [absent]
      cases given : (runtimeScalars input resolved).reverse.lookup name with
      | some held => simp
      | none =>
          have agreed : (remembered.get? name).map (marshalVariable scalars input name) =
              (previous.get? name).map (marshalVariable scalars input name) := by
            by_cases listed : name ∈ remembered.keys ++ previous.keys
            · refine fills.2 name (List.mem_filter.mpr ⟨listed, ?_⟩)
              have notGiven : name ∉ (runtimeScalars input resolved).map Prod.fst := by
                intro member
                obtain ⟨entry, inList, rfl⟩ := List.mem_map.mp member
                exact absurd (beq_self_eq_true entry.1) (by
                  simpa using List.lookup_eq_none_iff.mp given entry (List.mem_reverse.mpr inList))
              simpa [has] using notGiven
            · rw [get?_eq_none_of_not_mem fun member => listed (List.mem_append_left _ member),
                get?_eq_none_of_not_mem fun member => listed (List.mem_append_right _ member)]
          simpa [Option.map_map, Function.comp_def] using agreed

theorem Sound.start (sound : send.Sound scalars input) {remembered previous : Marshaled}
    {identity : String → Nat} {resolved : String → Option Held}
    (fills : send.Fills scalars input remembered previous identity resolved) :
    (send.start scalars input remembered previous identity resolved).Sound scalars input := by
  rw [VariablesSend.start]
  split
  · exact sound.throw
  · next draft applied =>
      obtain ⟨tracks, init⟩ :=
        ClientPluginContextWrapper.tracks_setVariables sound.draft fills.1 applied
      have agreed := tracks.of_agree (suppliedBy_startVariables sound fills)
      exact { context := agreed, draft := agreed, contextInit := init, init }

end VariablesSend

namespace VariablesStore

def Sound (scalars : Scalars) (input : Option InputObject) (store : VariablesStore) : Prop :=
  ∀ send ∈ store.sends, send.Sound scalars input

variable {store : VariablesStore}

theorem tracks_nothing : Tracks scalars input {} ∅ where
  names := fun _ => rfl
  marshaled := fun _ => rfl

theorem Sound.send (sound : store.Sound scalars input) {vars : Option Variables}
    (keeps : Keeps {} vars) : (store.send scalars input vars).Sound scalars input := by
  rw [VariablesStore.send]
  split
  · exact sound
  · next context applied =>
      obtain ⟨tracks, init⟩ :=
        ClientPluginContextWrapper.tracks_setVariables tracks_nothing keeps applied
      intro send member
      rcases List.mem_append.mp member with before | new
      · exact sound send before
      · obtain rfl := List.mem_singleton.mp new
        exact { context := tracks, draft := tracks, contextInit := init, init }

theorem Sound.modify (sound : store.Sound scalars input) {index : Nat}
    {change : VariablesSend → VariablesSend}
    (changes : ∀ send, store.sends[index]? = some send → send.Sound scalars input →
      (change send).Sound scalars input) :
    ∀ send ∈ store.sends.modify index change, send.Sound scalars input := by
  intro send member
  obtain ⟨position, found⟩ := List.mem_iff_getElem?.mp member
  rw [List.getElem?_modify] at found
  obtain ⟨before, isBefore, rfl⟩ := Option.map_eq_some_iff.mp found
  have wasSound := sound before (List.mem_of_getElem? isBefore)
  split
  · next same => exact changes before (same ▸ isBefore) wasSound
  · exact wasSound

theorem Sound.step (sound : store.Sound scalars input) {event : VariablesEvent}
    (careful : store.Careful scalars input event) :
    (store.step scalars input event).Sound scalars input := by
  cases event with
  | send vars => exact sound.send careful
  | assign index vars =>
      exact sound.modify fun send found wasSound => wasSound.assign (careful send found)
  | handOn index replaced =>
      cases replaced with
      | none => exact sound.modify fun _ _ wasSound => wasSound.next
      | some vars =>
          exact sound.modify fun send found wasSound => wasSound.replace (careful send found)
  | start index identity resolved =>
      exact sound.modify fun send found wasSound => wasSound.start (careful send found)
  | «end» index disableSubscriptions =>
      change (store.endHook index disableSubscriptions).Sound scalars input
      rw [endHook]
      split
      · exact sound
      · exact sound.modify fun _ _ wasSound => wasSound.next
  | settle index => exact sound
  | throw index => exact sound.modify fun _ _ wasSound => wasSound.throw
  | unsubscribe => exact sound

theorem Sound.run {events : List VariablesEvent} (sound : store.Sound scalars input)
    (careful : CarefulRun scalars input store events) :
    (events.foldl (VariablesStore.step scalars input) store).Sound scalars input := by
  induction events generalizing store with
  | nil => exact sound
  | cons event rest ih => exact ih (sound.step careful.1) careful.2

theorem CarefulRun.before {before rest : List VariablesEvent}
    (careful : CarefulRun scalars input store (before ++ rest)) :
    CarefulRun scalars input store before := by
  induction before generalizing store with
  | nil => trivial
  | cons event before ih => exact ⟨careful.1, ih careful.2⟩

end VariablesStore

end Document

private def colorScalars : Scalars :=
  [("Color", { marshal := some fun color => .ok (.string ("#" ++ color.propertyKey)) })]

private def colorInput : InputObject where
  fields := [("color", "Color"), ("size", "Int")]

private def string (value : String) : Held where
  identity := 0
  value := .string value

private def number (text : String) : Held where
  identity := 0
  value := .number text

private def paintRun : List VariablesEvent := [
  .send (some (.ofList [("color", string "red"), ("size", number "1")])),
  .start 0 (fun _ => 0) (fun _ => none),
  .assign 0 (some (.ofList [("color", string "blue"), ("size", number "1")])),
  .handOn 0 none,
  .end 0 false,
  .settle 0,
  .send (some (.ofList [("color", string "green")])),
  .start 1 (fun _ => 0) (fun _ => none)]

private theorem paintRun_careful :
    VariablesStore.CarefulRun colorScalars (some colorInput) {} paintRun := by
  decide +kernel

private def resizeRun : List VariablesEvent := [
  .send (some (.ofList [("color", string "red")])),
  .start 0 (fun _ => 0) (fun _ => none),
  .end 0 false,
  .settle 0,
  .send (some (.ofList [("size", number "2")])),
  .start 1 (fun _ => 0) (fun _ => none)]

private def fadeRun : List VariablesEvent := [
  .send (some (.ofList [("color", string "red"), ("size", number "1")])),
  .assign 0 (some (.ofList [("size", number "1")]))]

end Houdini.Runtime.Client
