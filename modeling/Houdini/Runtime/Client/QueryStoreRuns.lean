import Houdini.Runtime.Client.QueryStore

/-! The subscription of a query store follows what the store displays, whatever order its sends end
in, as long as none of them is mistaken about the variables that were there before it. -/

set_option autoImplicit false

namespace Houdini.Runtime.Client

section Document

variable {marshalInputs : GraphQLObject → GraphQLObject}

def SendContext.Aware (context : SendContext) : Prop :=
  context.inputs.changed = differs context.inputs.marshaled context.lastVariables

theorem aware_applyVariables (source : SendContext) (vars : Option GraphQLObject) :
    (applyVariables marshalInputs source vars).Aware := rfl

theorem SendContext.Aware.unchanged {context : SendContext} (aware : context.Aware)
    (unchanged : context.inputs.changed = false) :
    ∃ last, context.lastVariables = some last ∧ SameVariables context.inputs.marshaled last := by
  rw [aware] at unchanged
  cases found : context.lastVariables with
  | none => simp [differs, found] at unchanged
  | some last => exact ⟨last, rfl, by simpa [differs, found, SameVariables] using unchanged⟩

namespace QueryStore

variable {store : QueryStore}

def Covered (store : QueryStore) (spec : SubscriptionSpec) : Prop :=
  store.subscriptionSpec = some spec ∧
    ∃ vars, store.displayed = some vars ∧ SameVariables vars spec.vars

/-- What holds between two events. -/
structure Invariant (store : QueryStore) : Prop where
  single : ∀ spec ∈ store.registered, store.registered = [spec] ∧ store.Covered spec
  dormant : store.dormant = true → store.registered = []
  last : store.lastVariables = none ∨ store.lastVariables = store.displayed
  aware : ∀ send ∈ store.sends, send.context.Aware
  torn : store.current = false → store.dormant = true ∧ ∀ send ∈ store.sends, send.torn = true
  covered : (∀ send ∈ store.sends, send.settled = true) → store.current = true →
    store.displayed ≠ none → store.registered ≠ []

theorem Invariant.matches (holds : Invariant store)
    (settled : ∀ send ∈ store.sends, send.settled = true) (current : store.current = true) :
    store.Matches := by
  rw [Matches]
  cases isRegistered : store.registered with
  | nil =>
      cases isDisplayed : store.displayed with
      | none => rfl
      | some vars =>
          exact absurd isRegistered (holds.covered settled current (isDisplayed ▸ Option.some_ne_none _))
  | cons spec rest =>
      obtain ⟨single, _, vars, isDisplayed, same⟩ :=
        holds.single spec (by rw [isRegistered]; exact List.mem_cons_self)
      rw [isDisplayed]
      exact ⟨spec, isRegistered.symm.trans single, same⟩

theorem Invariant.subscribed (holds : Invariant store) : store.Subscribed where
  whileCurrent := holds.matches
  onceTorn := fun dormant _ => holds.dormant dormant

theorem invariant_start : Invariant {} where
  single := fun _ member => absurd member List.not_mem_nil
  dormant := fun _ => rfl
  last := .inl rfl
  aware := fun _ member => absurd member List.not_mem_nil
  torn := fun _ => ⟨rfl, fun _ member => absurd member List.not_mem_nil⟩
  covered := fun _ current => Bool.noConfusion current

theorem Invariant.unsubscribed_eq (holds : Invariant store) : store.unsubscribed = [] := by
  rw [unsubscribed]
  cases registered : store.registered with
  | nil => split <;> rfl
  | cons spec rest =>
      obtain ⟨single, isSpec, _⟩ := holds.single spec (by rw [registered]; exact List.mem_cons_self)
      rw [isSpec, ← registered, single]
      simp

theorem mem_modify {Element : Type} {list : List Element} {index : Nat}
    {change : Element → Element} {element : Element} (member : element ∈ list.modify index change) :
    element ∈ list ∨ ∃ before ∈ list, element = change before := by
  obtain ⟨position, found⟩ := List.mem_iff_getElem?.mp member
  rw [List.getElem?_modify] at found
  obtain ⟨before, isBefore, rfl⟩ := Option.map_eq_some_iff.mp found
  have inList := List.mem_of_getElem? isBefore
  split
  · exact .inr ⟨before, inList, rfl⟩
  · exact .inl inList

theorem mem_modify_of_mem_eraseIdx {Element : Type} {list : List Element} {index : Nat}
    {change : Element → Element} {element : Element} (member : element ∈ list.eraseIdx index) :
    element ∈ list.modify index change := by
  obtain ⟨position, different, found⟩ := List.mem_eraseIdx_iff_getElem?.mp member
  have kept : (list.modify index change)[position]? = some element := by
    rw [List.getElem?_modify, found]
    simp [different.symm]
  exact List.mem_of_getElem? kept

def Settles (change : StoreSend → StoreSend) : Prop :=
  ∀ send, (change send).context = send.context ∧ (change send).torn = send.torn

theorem Invariant.aware_modify (holds : Invariant store) {change : StoreSend → StoreSend}
    (settles : Settles change) (index : Nat) :
    ∀ send ∈ store.sends.modify index change, send.context.Aware := by
  intro send member
  rcases mem_modify member with before | ⟨before, isBefore, rfl⟩
  · exact holds.aware send before
  · rw [(settles before).1]
    exact holds.aware before isBefore

theorem Invariant.torn_modify (holds : Invariant store) {change : StoreSend → StoreSend}
    (settles : Settles change) (index : Nat) (torn : store.current = false) :
    ∀ send ∈ store.sends.modify index change, send.torn = true := by
  intro send member
  rcases mem_modify member with before | ⟨before, isBefore, rfl⟩
  · exact (holds.torn torn).2 send before
  · rw [(settles before).2]
    exact (holds.torn torn).2 before isBefore

theorem not_otherPending {change : StoreSend → StoreSend} {index : Nat}
    (settled : ∀ send ∈ store.sends.modify index change, send.settled = true) :
    ¬ store.OtherPending index := by
  rintro ⟨other, member, pending⟩
  rw [settled other (mem_modify_of_mem_eraseIdx member)] at pending
  cases pending

theorem Invariant.send (holds : Invariant store) (vars : Option GraphQLObject)
    (runtimeScalars : GraphQLObject) : Invariant (store.send marshalInputs vars runtimeScalars) where
  single := holds.single
  dormant := holds.dormant
  last := holds.last
  aware := by
    intro send member
    rcases List.mem_append.mp member with before | added
    · exact holds.aware send before
    · obtain rfl := List.mem_singleton.mp added
      exact aware_applyVariables _ _
  torn := fun current => Bool.noConfusion current
  covered := by
    intro settled
    have last := settled _ (List.mem_append_right _ (List.mem_singleton.mpr rfl))
    cases last

theorem Invariant.edit (holds : Invariant store) (index : Nat) (vars : GraphQLObject) :
    Invariant (store.edit marshalInputs index vars) where
  single := holds.single
  dormant := holds.dormant
  last := holds.last
  aware := by
    intro send member
    rcases mem_modify member with before | ⟨before, _, rfl⟩
    · exact holds.aware send before
    · exact aware_applyVariables _ _
  torn := by
    refine fun torn => ⟨(holds.torn torn).1, fun send member => ?_⟩
    rcases mem_modify member with before | ⟨before, isBefore, rfl⟩
    · exact (holds.torn torn).2 send before
    · exact (holds.torn torn).2 before isBefore
  covered := by
    intro settled current
    refine holds.covered (fun send member => ?_) current
    obtain ⟨position, found⟩ := List.mem_iff_getElem?.mp member
    have kept := List.mem_of_getElem? (show (store.edit marshalInputs index vars).sends[position]? =
      some _ from (List.getElem?_modify ..).trans (congrArg _ found))
    have isSettled := settled _ kept
    split at isSettled <;> exact isSettled

theorem settles_finish :
    Settles fun send => { send with settled := true, running := false } :=
  fun _ => ⟨rfl, rfl⟩

theorem settles_deliver : Settles fun send => { send with settled := true } :=
  fun _ => ⟨rfl, rfl⟩

theorem Invariant.finish (holds : Invariant store) {index : Nat}
    (careful : store.displayed ≠ none → store.LeavesCovered index) :
    Invariant (store.finish index) where
  single := holds.single
  dormant := holds.dormant
  last := holds.last
  aware := holds.aware_modify settles_finish index
  torn := fun torn => ⟨(holds.torn torn).1, holds.torn_modify settles_finish index torn⟩
  covered := fun settled current displayed registered =>
    not_otherPending settled (careful displayed current registered)

theorem Invariant.message (holds : Invariant store) (id : Nat) : Invariant (store.message id) := by
  rw [QueryStore.message]
  split
  · exact holds
  next spec found =>
  have registered := List.mem_of_find?_eq_some found
  obtain ⟨single, isSpec, vars, isDisplayed, _⟩ := holds.single spec registered
  exact {
    single := by
      intro other member
      rw [show (store.display spec.vars).registered = [spec] from single] at member
      obtain rfl := List.mem_singleton.mp member
      exact ⟨single, isSpec, _, rfl, .refl _⟩
    dormant := holds.dormant
    last := .inr rfl
    aware := holds.aware
    torn := holds.torn
    covered := fun settled current _ => holds.covered settled current (isDisplayed ▸ Option.some_ne_none _) }

theorem Invariant.cleanup (holds : Invariant store) : Invariant store.cleanup := by
  have nothing : store.cleanup.registered = [] := holds.unsubscribed_eq
  exact {
    single := by
      intro spec member
      rw [nothing] at member
      exact absurd member List.not_mem_nil
    dormant := fun _ => nothing
    last := holds.last
    aware := by
      intro send member
      obtain ⟨before, isBefore, rfl⟩ := List.mem_map.mp member
      exact holds.aware before isBefore
    torn := by
      refine fun _ => ⟨rfl, fun send member => ?_⟩
      obtain ⟨before, _, rfl⟩ := List.mem_map.mp member
      rfl
    covered := fun _ current => Bool.noConfusion current }

theorem Invariant.unsubscribe (holds : Invariant store) : Invariant store.unsubscribe :=
  Invariant.cleanup { holds with last := .inl rfl }

theorem Invariant.registered_endHook (holds : Invariant store) {context : SendContext}
    (changed : context.inputs.changed = true) :
    ∃ spec : SubscriptionSpec, spec.vars = context.inputs.marshaled ∧
      (store.endHook context).registered = [spec] ∧
        (store.endHook context).subscriptionSpec = some spec := by
  rw [endHook, if_pos changed]
  refine ⟨⟨store.specs, context.inputs.marshaled⟩, rfl, ?_, rfl⟩
  rw [holds.unsubscribed_eq]
  rfl

theorem endHook_unchanged {context : SendContext} (unchanged : context.inputs.changed = false) :
    store.endHook context = store := by
  rw [endHook, if_neg (by rw [unchanged]; exact Bool.false_ne_true)]

theorem endHook_current (context : SendContext) :
    (store.endHook context).current = store.current := by
  rw [endHook]
  split <;> rfl

theorem endHook_displayed (context : SendContext) :
    (store.endHook context).displayed = store.displayed := by
  rw [endHook]
  split <;> rfl

theorem endHook_lastVariables (context : SendContext) :
    (store.endHook context).lastVariables = store.lastVariables := by
  rw [endHook]
  split <;> rfl

/-- A send that subscribes did not begin before the last time that the store was torn down, unless
another send was subscribed since. -/
theorem Resubscribes.awake {send : StoreSend} (resubscribes : store.Resubscribes send) :
    (store.dormant && send.torn) = false := by
  cases torn : send.torn with
  | false => exact Bool.and_false _
  | true =>
      rw [resubscribes torn]
      rfl

theorem Invariant.unchanged_covered (holds : Invariant store) {send : StoreSend}
    (member : send ∈ store.sends) (unchanged : send.context.inputs.changed = false)
    (same : store.lastVariables = send.context.lastVariables) {spec : SubscriptionSpec}
    (registered : spec ∈ store.registered) :
    SameVariables send.context.inputs.marshaled spec.vars := by
  obtain ⟨last, isLast, equal⟩ := (holds.aware send member).unchanged unchanged
  obtain ⟨single, _, vars, isDisplayed, covers⟩ := holds.single spec registered
  rcases holds.last with none | displayed
  · rw [same, isLast] at none
    cases none
  · rw [same, isLast, isDisplayed] at displayed
    rw [Option.some.inj displayed] at equal
    exact equal.trans covers

theorem Invariant.deliver (holds : Invariant store) {index : Nat}
    (careful : store.Careful (.deliver index)) : Invariant (store.deliver index) := by
  rw [QueryStore.deliver]
  split
  · exact holds
  next send found =>
  split
  swap
  · exact holds
  next running =>
  have member := List.mem_of_getElem? found
  have condition := careful send found running
  cases changed : send.context.inputs.changed with
  | true =>
      rw [if_pos changed] at condition
      obtain ⟨spec, isVars, registered, isSpec⟩ := holds.registered_endHook changed
      exact {
        single := by
          intro other isOther
          have inEnd : other ∈ (store.endHook send.context).registered := isOther
          rw [registered] at inEnd
          obtain rfl := List.mem_singleton.mp inEnd
          exact ⟨registered, isSpec, _, rfl, isVars ▸ .refl _⟩
        dormant := by
          intro dormant
          have awake : (store.dormant && send.torn) = false := condition.awake
          exact absurd (awake.symm.trans dormant) Bool.false_ne_true
        last := .inr rfl
        aware := holds.aware_modify settles_deliver index
        torn := by
          intro current
          have torn : store.current = false := (endHook_current _).symm.trans current
          have awake := condition ((holds.torn torn).2 send member)
          rw [(holds.torn torn).1] at awake
          cases awake
        covered := by
          intro _ _ _ none
          exact absurd (registered.symm.trans none) (List.cons_ne_nil _ _) }
  | false =>
      rw [if_neg (by rw [changed]; exact Bool.false_ne_true)] at condition
      obtain ⟨leaves, same⟩ := condition
      rw [endHook_unchanged changed]
      exact {
        single := by
          intro spec registered
          obtain ⟨single, isSpec, _⟩ := holds.single spec registered
          have some : store.registered ≠ [] := List.ne_nil_of_mem registered
          exact ⟨single, isSpec, _, rfl,
            holds.unchanged_covered member changed (same some) registered⟩
        dormant := fun dormant => holds.dormant (Bool.and_eq_true_iff.mp dormant).1
        last := .inr rfl
        aware := holds.aware_modify settles_deliver index
        torn := by
          intro torn
          refine ⟨?_, holds.torn_modify settles_deliver index torn⟩
          exact Bool.and_eq_true_iff.mpr ⟨(holds.torn torn).1, (holds.torn torn).2 send member⟩
        covered := fun settled current _ registered =>
          not_otherPending settled (leaves current registered) }

theorem Invariant.throwOnError (holds : Invariant store) {index : Nat}
    (careful : store.Careful (.throwOnError index)) : Invariant (store.throwOnError index) := by
  rw [QueryStore.throwOnError]
  split
  · exact holds
  next send found =>
  split
  swap
  · exact holds
  next running =>
  have member := List.mem_of_getElem? found
  have condition := careful send found running
  cases changed : send.context.inputs.changed with
  | true =>
      rw [if_pos changed] at condition
      obtain ⟨resubscribes, vars, isDisplayed, same⟩ := condition
      obtain ⟨spec, isVars, registered, isSpec⟩ := holds.registered_endHook changed
      have displayed : (store.endHook send.context).displayed = some vars :=
        (endHook_displayed _).trans isDisplayed
      exact {
        single := by
          intro other isOther
          have inEnd : other ∈ (store.endHook send.context).registered := isOther
          rw [registered] at inEnd
          obtain rfl := List.mem_singleton.mp inEnd
          exact ⟨registered, isSpec, vars, displayed, isVars ▸ same⟩
        dormant := by
          intro dormant
          have awake : (store.dormant && send.torn) = false := resubscribes.awake
          exact absurd (awake.symm.trans dormant) Bool.false_ne_true
        last := by
          rw [show _ = store.lastVariables from endHook_lastVariables send.context]
          exact holds.last.imp_right fun last => last.trans (isDisplayed.trans displayed.symm)
        aware := holds.aware_modify settles_finish index
        torn := by
          intro current
          have torn : store.current = false := (endHook_current _).symm.trans current
          have awake := resubscribes ((holds.torn torn).2 send member)
          rw [(holds.torn torn).1] at awake
          cases awake
        covered := by
          intro _ _ _ none
          exact absurd (registered.symm.trans none) (List.cons_ne_nil _ _) }
  | false =>
      rw [if_neg (by rw [changed]; exact Bool.false_ne_true)] at condition
      rw [endHook_unchanged changed]
      exact {
        single := holds.single
        dormant := fun dormant => holds.dormant (Bool.and_eq_true_iff.mp dormant).1
        last := holds.last
        aware := holds.aware_modify settles_finish index
        torn := by
          intro torn
          refine ⟨?_, holds.torn_modify settles_finish index torn⟩
          exact Bool.and_eq_true_iff.mpr ⟨(holds.torn torn).1, (holds.torn torn).2 send member⟩
        covered := fun settled current displayed registered =>
          not_otherPending settled (condition displayed current registered) }

theorem Invariant.step (holds : Invariant store) {event : StoreEvent}
    (careful : store.Careful event) : Invariant (store.step marshalInputs event) := by
  cases event with
  | send vars runtimeScalars => exact holds.send vars runtimeScalars
  | edit index vars => exact holds.edit index vars
  | deliver index => exact holds.deliver careful
  | throwOnError index => exact holds.throwOnError careful
  | finish index => exact holds.finish careful
  | message id => exact holds.message id
  | cleanup => exact holds.cleanup
  | unsubscribe => exact holds.unsubscribe

theorem Invariant.run (holds : Invariant store) {events : List StoreEvent}
    (careful : CarefulRun marshalInputs store events) :
    Invariant (events.foldl (QueryStore.step marshalInputs) store) := by
  induction events generalizing store with
  | nil => exact holds
  | cons event rest ih => exact ih (holds.step careful.1) careful.2

theorem carefulRun_before {before rest : List StoreEvent}
    (careful : CarefulRun marshalInputs store (before ++ rest)) :
    CarefulRun marshalInputs store before := by
  induction before generalizing store with
  | nil => trivial
  | cons event later ih => exact ⟨careful.1, ih careful.2⟩

end QueryStore

def firstPage : GraphQLObject := [("page", .number "1")]

def secondPage : GraphQLObject := [("page", .number "2")]

/-- The first page is sent again before the second one is shown, and the store is torn down. -/
def pagesInOrder : List StoreEvent :=
  [.send (some firstPage) [], .deliver 0, .send (some secondPage) [], .send (some firstPage) [],
    .finish 0, .deliver 2, .deliver 1, .message 1, .unsubscribe, .send none [], .deliver 3]

def twoPages : List StoreEvent :=
  [.send (some firstPage) [], .deliver 0, .finish 0, .send (some firstPage) [],
    .send (some secondPage) [], .deliver 2, .finish 2, .deliver 1, .finish 1]

end Document

end Houdini.Runtime.Client
