import Houdini.Runtime.Client.OptimisticKeysProperties

/-! Which keys the variables of a request hold when it goes on to the network. -/

set_option autoImplicit false

namespace Houdini.Runtime

namespace GraphQLValue

mutual

def hiddenTexts : GraphQLValue → List String
  | .number text => [text]
  | .array items => hiddenTextsItems items
  | .object fields => hiddenTextsFields fields
  | _ => []

def hiddenTextsItems : List GraphQLValue → List String
  | [] => []
  | .string text :: rest | .number text :: rest => text :: hiddenTextsItems rest
  | .array items :: rest => hiddenTextsItems items ++ hiddenTextsItems rest
  | .object fields :: rest => hiddenTextsFields fields ++ hiddenTextsItems rest
  | _ :: rest => hiddenTextsItems rest

def hiddenTextsFields : List (String × GraphQLValue) → List String
  | [] => []
  | (_, value) :: rest => hiddenTexts value ++ hiddenTextsFields rest

end

mutual

theorem mem_keyTexts_of_hidden {text : String} : ∀ value : GraphQLValue,
    text ∈ value.hiddenTexts → text ∈ value.keyTexts
  | .number _, member => member
  | .array items, member => mem_keyTextsItems_of_hidden items member
  | .object fields, member => mem_keyTextsFields_of_hidden fields member
  | .undefined, member | .null, member | .boolean _, member | .string _, member
  | .component .., member => by cases member

theorem mem_keyTextsItems_of_hidden {text : String} : ∀ items : List GraphQLValue,
    text ∈ hiddenTextsItems items → text ∈ keyTextsItems items
  | [], member => member
  | item :: rest, member => by
      have later := @mem_keyTextsItems_of_hidden text rest
      have inner := @mem_keyTexts_of_hidden text item
      cases item <;>
        simp only [hiddenTextsItems, hiddenTexts, keyTextsItems, keyTexts, List.mem_append,
          List.mem_cons, List.nil_append, List.not_mem_nil, or_false] at member inner ⊢ <;>
        tauto

theorem mem_keyTextsFields_of_hidden {text : String} : ∀ fields : List (String × GraphQLValue),
    text ∈ hiddenTextsFields fields → text ∈ keyTextsFields fields
  | [], member => member
  | (_, value) :: rest, member => by
      have later := @mem_keyTextsFields_of_hidden text rest
      have inner := @mem_keyTexts_of_hidden text value
      simp only [hiddenTextsFields, keyTextsFields, List.mem_append] at member ⊢
      tauto

end

section Substitute

variable {real : String → Option GraphQLValue}

mutual

theorem substitute_of_none : ∀ value : GraphQLValue,
    (∀ text ∈ value.keyTexts, real text = none) → value.substitute real = value
  | .string text, absent | .number text, absent => by
      rw [substitute, absent text (List.mem_singleton.mpr rfl), Option.getD_none]
  | .array items, absent => by rw [substitute, substituteItems_of_none items absent]
  | .object fields, absent => by rw [substitute, substituteFields_of_none fields absent]
  | .undefined, _ | .null, _ | .boolean _, _ | .component .., _ => rfl

theorem substituteItems_of_none : ∀ items : List GraphQLValue,
    (∀ text ∈ keyTextsItems items, real text = none) → substituteItems real items = items
  | [], _ => rfl
  | item :: rest, absent => by
      rw [substituteItems,
        substitute_of_none item fun text member => absent text (List.mem_append_left _ member),
        substituteItems_of_none rest fun text member =>
          absent text (List.mem_append_right _ member)]

theorem substituteFields_of_none : ∀ fields : List (String × GraphQLValue),
    (∀ text ∈ keyTextsFields fields, real text = none) → substituteFields real fields = fields
  | [], _ => rfl
  | (_, value) :: rest, absent => by
      rw [substituteFields,
        substitute_of_none value fun text member => absent text (List.mem_append_left _ member),
        substituteFields_of_none rest fun text member =>
          absent text (List.mem_append_right _ member)]

end

/-- A text after replacing: it was there and has no real value, or is part of one. -/
private def Remains (real : String → Option GraphQLValue) (texts : List String)
    (text : String) : Prop :=
  text ∈ texts ∧ real text = none ∨
    ∃ key ∈ texts, ∃ value, real key = some value ∧ text ∈ value.keyTexts

private theorem Remains.mono {texts more : List String} {text : String}
    (remains : Remains real texts text) (subset : texts ⊆ more) : Remains real more text := by
  rcases remains with ⟨member, absent⟩ | ⟨key, member, value⟩
  · exact .inl ⟨subset member, absent⟩
  · exact .inr ⟨key, subset member, value⟩

private theorem remains_of_leaf {leaf text : String} {value : GraphQLValue}
    (own : value.keyTexts = [leaf]) (member : text ∈ ((real leaf).getD value).keyTexts) :
    Remains real [leaf] text := by
  cases found : real leaf with
  | none =>
      rw [found, Option.getD_none, own] at member
      have same := List.mem_singleton.mp member
      exact .inl ⟨member, same ▸ found⟩
  | some value =>
      rw [found] at member
      exact .inr ⟨leaf, List.mem_singleton.mpr rfl, value, found, member⟩

mutual

theorem mem_keyTexts_substitute {text : String} : ∀ value : GraphQLValue,
    text ∈ (value.substitute real).keyTexts → Remains real value.keyTexts text
  | .string _, member | .number _, member => remains_of_leaf rfl member
  | .array items, member => mem_keyTextsItems_substitute items member
  | .object fields, member => mem_keyTextsFields_substitute fields member
  | .undefined, member | .null, member | .boolean _, member | .component .., member => by
      cases member

theorem mem_keyTextsItems_substitute {text : String} : ∀ items : List GraphQLValue,
    text ∈ keyTextsItems (substituteItems real items) → Remains real (keyTextsItems items) text
  | [], member => by cases member
  | item :: rest, member => by
      rcases List.mem_append.mp member with first | later
      · exact (mem_keyTexts_substitute item first).mono (List.subset_append_left _ _)
      · exact (mem_keyTextsItems_substitute rest later).mono (List.subset_append_right _ _)

theorem mem_keyTextsFields_substitute {text : String} : ∀ fields : List (String × GraphQLValue),
    text ∈ keyTextsFields (substituteFields real fields) →
      Remains real (keyTextsFields fields) text
  | [], member => by cases member
  | (_, value) :: rest, member => by
      rcases List.mem_append.mp member with first | later
      · exact (mem_keyTexts_substitute value first).mono (List.subset_append_left _ _)
      · exact (mem_keyTextsFields_substitute rest later).mono (List.subset_append_right _ _)

end

end Substitute

end GraphQLValue

namespace Client

open GraphQLValue

mutual

theorem mem_extractInputKeys {store : String → Bool} {text : String} (stored : store text = true) :
    ∀ value : GraphQLValue, text ∈ value.keyTexts → text ∉ value.hiddenTexts →
      text ∈ extractInputKeys store value
  | .string _, member, _ => by
      rw [keyTexts, List.mem_singleton] at member
      rw [extractInputKeys, ← member, if_pos stored]
      exact List.mem_singleton.mpr rfl
  | .number _, member, visible => absurd member visible
  | .array items, member, visible => mem_extractInputKeysItems stored items member visible
  | .object fields, member, visible => mem_extractInputKeysFields stored fields member visible
  | .undefined, member, _ | .null, member, _ | .boolean _, member, _
  | .component .., member, _ => by cases member

theorem mem_extractInputKeysItems {store : String → Bool} {text : String}
    (stored : store text = true) : ∀ items : List GraphQLValue, text ∈ keyTextsItems items →
      text ∉ hiddenTextsItems items → text ∈ extractInputKeysItems store items
  | [], member, _ => by cases member
  | item :: rest, member, visible => by
      have later := mem_extractInputKeysItems stored rest
      have inner := mem_extractInputKeys stored item
      cases item <;>
        simp only [hiddenTextsItems, hiddenTexts, keyTextsItems, keyTexts, List.mem_append,
          extractInputKeysItems, extractInputKeys, List.mem_cons, List.nil_append,
          List.not_mem_nil, or_false] at member visible inner ⊢ <;>
        tauto

theorem mem_extractInputKeysFields {store : String → Bool} {text : String}
    (stored : store text = true) : ∀ fields : List (String × GraphQLValue),
      text ∈ keyTextsFields fields → text ∉ hiddenTextsFields fields →
        text ∈ extractInputKeysFields store fields
  | [], member, _ => by cases member
  | (_, value) :: rest, member, visible => by
      have later := mem_extractInputKeysFields stored rest
      have inner := mem_extractInputKeys stored value
      simp only [hiddenTextsFields, keyTextsFields, extractInputKeysFields,
        List.mem_append] at member visible ⊢
      tauto

end

private def Agree (keys : String → GraphQLValue) (real : String → Option GraphQLValue)
    (texts : List String) : Prop :=
  ∀ text ∈ texts, real text = if (keys text).truthy then some (keys text) else none

mutual

theorem replaceKey_eq {keys : String → GraphQLValue} {real : String → Option GraphQLValue} :
    ∀ value : GraphQLValue, Agree keys real value.keyTexts →
      (∀ text ∈ value.hiddenTexts, real text = none) → replaceKey keys value = value.substitute real
  | .string text, agree, _ => by
      rw [replaceKey, substitute, agree text (List.mem_singleton.mpr rfl)]
      split <;> rfl
  | .number text, _, hidden => by
      rw [replaceKey, substitute, hidden text (List.mem_singleton.mpr rfl),
        Option.getD_none] <;> exact nofun
  | .array items, agree, hidden => by
      rw [replaceKey, substitute, replaceKeyItems_eq items agree hidden]
  | .object fields, agree, hidden => by
      rw [replaceKey, substitute, replaceKeyWithVariable_eq fields agree hidden]
  | .undefined, _, _ | .null, _, _ | .boolean _, _, _ | .component .., _, _ => by
      rw [replaceKey, substitute] <;> exact nofun

theorem replaceKeyItems_eq {keys : String → GraphQLValue} {real : String → Option GraphQLValue} :
    ∀ items : List GraphQLValue, Agree keys real (keyTextsItems items) →
      (∀ text ∈ hiddenTextsItems items, real text = none) →
        replaceKeyItems keys items = substituteItems real items
  | [], _, _ => rfl
  | item :: rest, agree, hidden => by
      have later := replaceKeyItems_eq rest
        (fun text member => agree text (List.mem_append_right _ member))
      have inner := replaceKey_eq item
        (fun text member => agree text (List.mem_append_left _ member))
      cases item with
      | string text | number text =>
          rw [replaceKeyItems, substituteItems, substitute,
            hidden text List.mem_cons_self, Option.getD_none,
            later fun text member => hidden text (List.mem_cons_of_mem _ member)] <;> exact nofun
      | array items =>
          have replaced := inner fun text member => hidden text (List.mem_append_left _ member)
          rw [replaceKey] at replaced
          rw [replaceKeyItems, substituteItems, replaced,
            later fun text member => hidden text (List.mem_append_right _ member)]
      | object fields =>
          have replaced := inner fun text member => hidden text (List.mem_append_left _ member)
          rw [replaceKey] at replaced
          rw [replaceKeyItems, substituteItems, replaced,
            later fun text member => hidden text (List.mem_append_right _ member)]
      | undefined | null | boolean _ | component _ _ _ _ _ =>
          rw [replaceKeyItems, substituteItems, later hidden, substitute] <;> exact nofun

theorem replaceKeyWithVariable_eq {keys : String → GraphQLValue}
    {real : String → Option GraphQLValue} : ∀ fields : List (String × GraphQLValue),
      Agree keys real (keyTextsFields fields) →
        (∀ text ∈ hiddenTextsFields fields, real text = none) →
          replaceKeyWithVariable keys fields = substituteFields real fields
  | [], _, _ => rfl
  | (_, value) :: rest, agree, hidden => by
      rw [replaceKeyWithVariable, substituteFields,
        replaceKey_eq value (fun text member => agree text (List.mem_append_left _ member))
          (fun text member => hidden text (List.mem_append_left _ member)),
        replaceKeyWithVariable_eq rest
          (fun text member => agree text (List.mem_append_right _ member))
          (fun text member => hidden text (List.mem_append_right _ member))]

end

/-- None of the keys in the variables is pending, and each key that came back was replaced by
its real value everywhere. -/
structure SentRequest.Resolved (request : SentRequest) : Prop where
  notPending : ∀ text ∈ keyTextsFields request.vars, text ∉ request.pendingKeys
  replaced : request.vars = substituteFields request.returned.get? request.original

namespace OptimisticKeys

def isPending (plugin : OptimisticKeys) (text : String) : Prop :=
  plugin.callbacks.get? text ≠ none

def isReturned (plugin : OptimisticKeys) (text : String) : Prop :=
  plugin.returned.get? text ≠ none

/-- A text that plays no role yet: it is not a key, nor in the variables of a request that
was stopped, nor a value that came back. -/
structure Unused (plugin : OptimisticKeys) (text : String) : Prop where
  notGenerated : text ∉ plugin.generatedTexts
  notWaiting : ∀ request ∈ plugin.blocked, text ∉ keyTextsFields request.vars
  notReturned : ∀ key value, plugin.returned.get? key = some value → text ∉ value.keyTexts

/-- Under these conditions a step keeps unresolved keys from the network. -/
def KeepsKeys (environment : KeyEnvironment) (plugin : OptimisticKeys) : Event → Prop
  -- New keys are unlike anything that is around.
  | .start selection optimisticResponse =>
      ∀ generated ∈ plugin.addedBy environment selection optimisticResponse,
        plugin.Unused generated.text
  -- The keys in the variables did not come back yet, each pending one is the value of a
  -- property and a string, and some mutation with keys did not end.
  | .beforeNetwork vars =>
      (∀ text ∈ keyTextsFields vars, ¬ plugin.isReturned text) ∧
        (∀ text ∈ hiddenTextsFields vars, ¬ plugin.isPending text) ∧
        ((∃ text ∈ keyTextsFields vars, plugin.isPending text) → plugin.keys.isEmpty = false)
  -- The real values are not empty, and are not keys themselves.
  | .afterNetwork mutationID data =>
      ∀ mutation paths, plugin.running? mutationID = some mutation →
        plugin.keys.get? mutationID = some paths →
          ∀ path value, ResponseVisit.text path value ∈
              responseVisits mutation.selection.depth mutation.selection data [] →
            paths.get? path ≠ none → value ≠ "" ∧ value ∉ plugin.generatedTexts
  | .end _ | .fail _ => True

/-- What a stopped request knows of its keys is right and complete. -/
structure WaitsRightly (plugin : OptimisticKeys) (request : BlockedRequest) : Prop where
  known : ∀ text value, request.pending.get? text = some (some value) →
    plugin.returned.get? text = some value
  complete : ∀ text ∈ keyTextsFields request.vars, text ∈ plugin.generatedTexts →
    request.pending.get? text ≠ none
  visible : ∀ text ∈ hiddenTextsFields request.vars, text ∉ plugin.generatedTexts

/-- What holds at any time, also between two callbacks. -/
structure Consistent (plugin : OptimisticKeys) : Prop where
  pending : ∀ text, plugin.isPending text → text ∈ plugin.generatedTexts
  returned : ∀ text, plugin.isReturned text → text ∈ plugin.generatedTexts
  covered : ∀ text ∈ plugin.generatedTexts, plugin.isPending text ∨ plugin.isReturned text
  values : ∀ text value, plugin.returned.get? text = some value →
    ∃ real, value = .string real ∧ real ≠ "" ∧ real ∉ plugin.generatedTexts
  waiting : ∀ request ∈ plugin.blocked, plugin.WaitsRightly request
  resolved : ∀ request ∈ plugin.sent, request.Resolved

/-- A key that came back is not pending any more. -/
structure Sound (plugin : OptimisticKeys) : Prop extends plugin.Consistent where
  apart : ∀ text, plugin.isReturned text → ¬ plugin.isPending text

section Steps

variable {environment : KeyEnvironment} {plugin next : OptimisticKeys}

private theorem Consistent.resolved_of_known (consistent : plugin.Consistent)
    {request : BlockedRequest} (waits : plugin.WaitsRightly request)
    (all : request.pending.values.all Option.isSome = true) :
    SentRequest.Resolved
      { original := request.vars
        vars := replaceKeyWithVariable request.value request.vars
        pendingKeys := plugin.callbacks.keys
        returned := plugin.returned } := by
  have known : ∀ text, request.pending.get? text = none ∨
      ∃ value, request.pending.get? text = some (some value) := by
    intro text
    cases found : request.pending.get? text with
    | none => exact .inl rfl
    | some value =>
        have member : value ∈ request.pending.values :=
          List.mem_map_of_mem (OrderedMap.mem_entries_iff.mpr found)
        obtain ⟨real, rfl⟩ := Option.isSome_iff_exists.mp (List.all_eq_true.mp all value member)
        exact .inr ⟨real, rfl⟩
  have agree : ∀ text ∈ keyTextsFields request.vars, plugin.returned.get? text =
      if (request.value text).truthy then some (request.value text) else none := by
    intro text member
    rcases known text with absent | ⟨value, found⟩
    · have unknown : request.value text = .undefined := by
        rw [BlockedRequest.value, absent]
        rfl
      rw [unknown]
      by_contra back
      exact waits.complete text member (consistent.returned text back) absent
    · have same := waits.known text value found
      obtain ⟨real, rfl, some, -⟩ := consistent.values text value same
      have value : request.value text = .string real := by
        rw [BlockedRequest.value, found]
        rfl
      have truthy : GraphQLValue.truthy (.string real) = true := by
        simpa [GraphQLValue.truthy] using some
      rw [value, truthy, if_pos rfl, same]
  have hidden : ∀ text ∈ hiddenTextsFields request.vars, plugin.returned.get? text = none := by
    intro text member
    by_contra back
    exact waits.visible text member (consistent.returned text back)
  have replaced : replaceKeyWithVariable request.value request.vars =
      substituteFields plugin.returned.get? request.vars :=
    replaceKeyWithVariable_eq request.vars agree hidden
  refine ⟨fun text member pending => ?_, replaced⟩
  have stored : plugin.isPending text := by
    obtain ⟨value, found⟩ := OrderedMap.mem_keys_iff.mp pending
    rw [isPending, found]
    exact nofun
  rw [replaced] at member
  rcases mem_keyTextsFields_substitute request.vars member with ⟨own, absent⟩ |
    ⟨key, -, value, back, inside⟩
  · have waitsFor := waits.complete text own (consistent.pending text stored)
    rcases known text with unknown | ⟨value, found⟩
    · exact waitsFor unknown
    · rw [waits.known text value found] at absent
      cases absent
  · obtain ⟨real, rfl, -, notKey⟩ := consistent.values key value back
    rw [keyTexts, List.mem_singleton] at inside
    exact notKey (inside ▸ consistent.pending text stored)

private theorem WaitsRightly.of_eq {request : BlockedRequest} (waits : plugin.WaitsRightly request)
    (returned : next.returned = plugin.returned) (generated : next.generated = plugin.generated) :
    next.WaitsRightly request where
  known := fun text value found => by rw [returned]; exact waits.known text value found
  complete := fun text member key =>
    waits.complete text member (by rw [generatedTexts, ← generated]; exact key)
  visible := fun text member key =>
    waits.visible text member (by rw [generatedTexts, ← generated]; exact key)

private theorem Consistent.fireCallback (consistent : plugin.Consistent) {key : String}
    {value : GraphQLValue} (back : plugin.returned.get? key = some value) (request : Nat) :
    (plugin.fireCallback request key value).Consistent := by
  unfold OptimisticKeys.fireCallback
  cases found : plugin.blocked[request]? with
  | none => exact consistent
  | some waiting =>
      have member : waiting ∈ plugin.blocked := List.mem_of_getElem? found
      have waits := consistent.waiting waiting member
      let known : BlockedRequest :=
        { waiting with pending := waiting.pending.set key (some value) }
      have knows : plugin.WaitsRightly known := by
        constructor
        · intro text real knownText
          change (waiting.pending.set key (some value)).get? text = _ at knownText
          rw [OrderedMap.get?_set] at knownText
          by_cases same : text = key
          · rw [if_pos same] at knownText
            rw [same, back]
            exact Option.some.inj knownText
          · rw [if_neg same] at knownText
            exact waits.known text real knownText
        · intro text inside generated absent
          change (waiting.pending.set key (some value)).get? text = _ at absent
          rw [OrderedMap.get?_set] at absent
          by_cases same : text = key
          · rw [if_pos same] at absent
            cases absent
          · rw [if_neg same] at absent
            exact waits.complete text inside generated absent
        · exact waits.visible
      let updated : OptimisticKeys :=
        { plugin with
          blocked := plugin.blocked.set request known
          fired := plugin.fired ++ [{ request := request, key := key, value := value }] }
      have kept : updated.Consistent :=
        { consistent with
          waiting := by
            intro other inside
            rcases List.mem_or_eq_of_mem_set inside with older | rfl
            · exact (consistent.waiting other older).of_eq rfl rfl
            · exact knows.of_eq rfl rfl }
      by_cases all : known.pending.values.all Option.isSome = true
      · have unfolded : (if known.pending.values.all Option.isSome = true then
            updated.send known.vars (replaceKeyWithVariable known.value known.vars)
            else updated) =
          updated.send known.vars (replaceKeyWithVariable known.value known.vars) := if_pos all
        change OptimisticKeys.Consistent (if known.pending.values.all Option.isSome = true then
          updated.send known.vars (replaceKeyWithVariable known.value known.vars) else updated)
        rw [unfolded]
        have resolved := @Consistent.resolved_of_known _ kept known (knows.of_eq rfl rfl) all
        exact
          { kept with
            waiting := fun other inside => (kept.waiting other inside).of_eq rfl rfl
            resolved := by
              intro sent inside
              rcases List.mem_append.mp inside with older | last
              · exact kept.resolved sent older
              · rw [List.mem_singleton.mp last]
                exact resolved }
      · change OptimisticKeys.Consistent (if known.pending.values.all Option.isSome = true then
          updated.send known.vars (replaceKeyWithVariable known.value known.vars) else updated)
        rw [if_neg all]
        exact kept

private theorem Consistent.fireCallbacks (consistent : plugin.Consistent) {key : String}
    {value : GraphQLValue} (back : plugin.returned.get? key = some value) (waiting : List Nat) :
    (plugin.fireCallbacks key value waiting).Consistent := by
  induction waiting generalizing plugin with
  | nil => exact consistent
  | cons request rest ih =>
      have same := (plugin.fireCallback_frame request key value).2.1
      exact ih (consistent.fireCallback back request) (by rw [same, back])

private theorem Sound.setReturned (sound : plugin.Sound) {key real : String}
    (pending : plugin.isPending key) (some : real ≠ "") (notKey : real ∉ plugin.generatedTexts) :
    Consistent { plugin with returned := plugin.returned.set key (.string real) } := by
  have key_generated := sound.pending key pending
  have returned_iff : ∀ text,
      isReturned { plugin with returned := plugin.returned.set key (.string real) } text ↔
        text = key ∨ plugin.isReturned text := by
    intro text
    change (plugin.returned.set key (.string real)).get? text ≠ none ↔ _
    rw [OrderedMap.get?_set]
    by_cases same : text = key
    · rw [if_pos same]
      exact iff_of_true nofun (.inl same)
    · rw [if_neg same]
      exact ⟨.inr, fun either => either.resolve_left same⟩
  exact
    { pending := sound.pending
      returned := by
        intro text back
        rcases (returned_iff text).mp back with rfl | older
        · exact key_generated
        · exact sound.returned text older
      covered := by
        intro text member
        refine (sound.covered text member).imp_right fun older => ?_
        exact (returned_iff text).mpr (.inr older)
      values := by
        intro text value back
        change (plugin.returned.set key (.string real)).get? text = _ at back
        rw [OrderedMap.get?_set] at back
        by_cases same : text = key
        · rw [if_pos same] at back
          exact ⟨real, (Option.some.inj back).symm, some, notKey⟩
        · rw [if_neg same] at back
          exact sound.values text value back
      waiting := by
        intro request member
        have waits := sound.waiting request member
        refine { waits with known := fun text value found => ?_ }
        change (plugin.returned.set key (.string real)).get? text = _
        have earlier := waits.known text value found
        have different : text ≠ key := by
          rintro rfl
          exact sound.apart text (by rw [isReturned, earlier]; exact nofun) pending
        rw [OrderedMap.get?_set_of_ne _ _ different, earlier]
      resolved := sound.resolved }

private theorem Sound.onNewKey (sound : plugin.Sound) {key real : String} (some : real ≠ "")
    (notKey : real ∉ plugin.generatedTexts)
    (success : plugin.onNewKey key (.string real) = .ok next) : next.Sound := by
  obtain ⟨waiting, found, rfl⟩ := onNewKey_eq_ok success
  have pending : plugin.isPending key := by
    rw [isPending, found]
    exact nofun
  let known := { plugin with returned := plugin.returned.set key (.string real) }
  have back : known.returned.get? key = Option.some (.string real) := OrderedMap.get?_set_self _ _ _
  have fired := (sound.setReturned pending some notKey).fireCallbacks back waiting
  obtain ⟨stores, returned, -⟩ := @fireCallbacks_frame known key (.string real) waiting
  have erased : ∀ text, isPending
      { known.fireCallbacks key (.string real) waiting with
        callbacks := (known.fireCallbacks key (.string real) waiting).callbacks.erase key } text ↔
      text ≠ key ∧ plugin.isPending text := by
    intro text
    change ((known.fireCallbacks key (.string real) waiting).callbacks.erase key).get? text ≠
      none ↔ _
    rw [stores, OrderedMap.get?_erase]
    by_cases same : text = key
    · rw [if_pos same]
      exact iff_of_false (fun impossible => impossible rfl) (fun both => both.1 same)
    · rw [if_neg same]
      exact ⟨fun pending => ⟨same, pending⟩, fun both => both.2⟩
  have generated : (known.fireCallbacks key (.string real) waiting).generatedTexts =
      plugin.generatedTexts := by
    rw [generatedTexts, stores]
    rfl
  exact
    { fired with
      pending := by
        intro text pending
        have inside := sound.pending text ((erased text).mp pending).2
        rw [← generated] at inside
        exact inside
      covered := by
        intro text member
        by_cases same : text = key
        · refine .inr ?_
          change (known.fireCallbacks key (.string real) waiting).returned.get? text ≠ none
          rw [returned, same, back]
          exact nofun
        · rcases fired.covered text member with older | back
          · refine .inl ((erased text).mpr ⟨same, ?_⟩)
            change (known.fireCallbacks key (.string real) waiting).callbacks.get? text ≠ none at older
            rw [stores] at older
            exact older
          · exact .inr back
      waiting := fun request member => (fired.waiting request member).of_eq rfl rfl
      apart := by
        intro text back pending
        obtain ⟨different, older⟩ := (erased text).mp pending
        change (known.fireCallbacks key (.string real) waiting).returned.get? text ≠ none at back
        rw [returned] at back
        change (plugin.returned.set key _).get? text ≠ none at back
        rw [OrderedMap.get?_set_of_ne _ _ different] at back
        exact sound.apart text back older }

private def Returns (plugin : OptimisticKeys) (mutationID : Nat) (visits : List ResponseVisit) :
    Prop :=
  ∀ paths, plugin.keys.get? mutationID = some paths →
    ∀ path value, ResponseVisit.text path value ∈ visits → paths.get? path ≠ none →
      value ≠ "" ∧ value ∉ plugin.generatedTexts

private theorem Sound.drain {mutationID : Nat} (visits : List ResponseVisit)
    (sound : plugin.Sound) (returns : plugin.Returns mutationID visits) :
    (plugin.drain mutationID visits).1.Sound := by
  induction visits generalizing plugin with
  | nil => exact sound
  | cons visit rest ih =>
      cases visit with
      | malformed => exact sound
      | text path value =>
          have later : plugin.Returns mutationID rest := fun paths known path value member =>
            returns paths known path value (List.mem_cons_of_mem _ member)
          unfold OptimisticKeys.drain
          cases known : plugin.keys.get? mutationID with
          | none => exact sound
          | some paths =>
              cases found : paths.get? path with
              | none =>
                  simp only [found]
                  exact ih sound later
              | some newKey =>
                  obtain ⟨some, notKey⟩ := returns paths known path value List.mem_cons_self
                    (by rw [found]; exact nofun)
                  simp only [found]
                  cases fired : plugin.onNewKey newKey.propertyKey (.string value) with
                  | error error => exact sound
                  | ok notified =>
                      have kept := sound.onNewKey some notKey fired
                      obtain ⟨keys, -, generated, -⟩ := onNewKey_frame fired
                      simp only
                      cases notified.objectIDs.get? mutationID with
                      | none => exact kept
                      | some _ =>
                          refine ih kept fun paths known path value member registered => ?_
                          rw [keys] at known
                          obtain ⟨some, notKey⟩ := later paths known path value member registered
                          refine ⟨some, ?_⟩
                          rw [generatedTexts, generated]
                          exact notKey

private theorem Sound.of_stores (sound : plugin.Sound) (callbacks : next.callbacks = plugin.callbacks)
    (generated : next.generated = plugin.generated) (blocked : next.blocked = plugin.blocked)
    (sent : next.sent = plugin.sent) (returned : next.returned = plugin.returned) :
    next.Sound := by
  have texts : next.generatedTexts = plugin.generatedTexts := by
    rw [generatedTexts, generatedTexts, generated]
  have pending : next.isPending = plugin.isPending := by
    funext text
    rw [isPending, isPending, callbacks]
  have back : next.isReturned = plugin.isReturned := by
    funext text
    rw [isReturned, isReturned, returned]
  constructor
  · constructor
    · rw [pending, texts]
      exact sound.pending
    · rw [back, texts]
      exact sound.returned
    · rw [pending, back, texts]
      exact sound.covered
    · rw [returned, texts]
      exact sound.values
    · rw [blocked]
      exact fun request member => (sound.waiting request member).of_eq returned generated
    · rw [sent]
      exact sound.resolved
  · rw [pending, back]
    exact sound.apart

private theorem Sound.start (sound : plugin.Sound) {selection : SubscriptionSelection}
    {optimisticResponse : GraphQLObject}
    (keeps : plugin.KeepsKeys environment (.start selection optimisticResponse))
    (applied : plugin.apply environment (.start selection optimisticResponse) = some next) :
    next.Sound := by
  obtain ⟨stores, mutation, rfl, registers, -⟩ := apply_start applied
  let added := plugin.addedBy environment selection optimisticResponse
  have unused : ∀ text ∈ added.map GeneratedKey.text, plugin.Unused text := by
    intro text member
    obtain ⟨generated, inside, rfl⟩ := List.mem_map.mp member
    exact keeps generated inside
  have texts : stores.generated.map GeneratedKey.text =
      plugin.generatedTexts ++ added.map GeneratedKey.text := by
    rw [registers.generated, List.map_append]
    rfl
  have pending : ∀ text, stores.callbacks.get? text ≠ none ↔
      text ∈ added.map GeneratedKey.text ∨ plugin.isPending text := by
    intro text
    rw [registers.callbacks]
    by_cases new : text ∈ added.map GeneratedKey.text
    · rw [if_pos new]
      exact iff_of_true nofun (.inl new)
    · rw [if_neg new]
      exact ⟨.inr, fun either => either.resolve_left new⟩
  have key_iff : ∀ text, text ∈ stores.generated.map GeneratedKey.text ↔
      text ∈ plugin.generatedTexts ∨ text ∈ added.map GeneratedKey.text := by
    intro text
    rw [texts, List.mem_append]
  exact
    { pending := by
        intro text stored
        rcases (pending text).mp stored with new | older
        · exact (key_iff text).mpr (.inr new)
        · exact (key_iff text).mpr (.inl (sound.pending text older))
      returned := fun text back => (key_iff text).mpr (.inl (sound.returned text back))
      covered := by
        intro text member
        rcases (key_iff text).mp member with older | new
        · exact (sound.covered text older).imp_left fun stored => (pending text).mpr (.inr stored)
        · exact .inl ((pending text).mpr (.inl new))
      values := by
        intro text value back
        obtain ⟨real, rfl, some, notKey⟩ := sound.values text value back
        refine ⟨real, rfl, some, fun member => ?_⟩
        rcases (key_iff real).mp member with older | new
        · exact notKey older
        · exact (unused real new).notReturned text _ back (List.mem_singleton.mpr rfl)
      waiting := by
        intro request member
        have waits := sound.waiting request member
        constructor
        · exact waits.known
        · intro text inside key
          rcases (key_iff text).mp key with older | new
          · exact waits.complete text inside older
          · exact absurd inside ((unused text new).notWaiting request member)
        · intro text inside key
          rcases (key_iff text).mp key with older | new
          · exact waits.visible text inside older
          · exact (unused text new).notWaiting request member
              (mem_keyTextsFields_of_hidden request.vars inside)
      resolved := sound.resolved
      apart := by
        intro text back stored
        rcases (pending text).mp stored with new | older
        · exact (unused text new).notGenerated (sound.returned text back)
        · exact sound.apart text back older }

private theorem Sound.send (sound : plugin.Sound) {vars : GraphQLObject}
    (absent : ∀ text ∈ keyTextsFields vars, ¬ plugin.isReturned text)
    (free : ∀ text ∈ keyTextsFields vars, ¬ plugin.isPending text) :
    (plugin.send vars vars).Sound := by
  have resolved : SentRequest.Resolved
      { original := vars, vars, pendingKeys := plugin.callbacks.keys,
        returned := plugin.returned } := by
    refine ⟨fun text member pending => free text member ?_, ?_⟩
    · obtain ⟨value, found⟩ := OrderedMap.mem_keys_iff.mp pending
      rw [isPending, found]
      exact nofun
    · refine (substituteFields_of_none vars fun text member => ?_).symm
      exact Classical.not_not.mp (absent text member)
  exact
    { sound with
      waiting := fun other inside => (sound.waiting other inside).of_eq rfl rfl
      resolved := by
        intro sent inside
        rcases List.mem_append.mp inside with older | last
        · exact sound.resolved sent older
        · rw [List.mem_singleton.mp last]
          exact resolved }

private theorem Sound.block (sound : plugin.Sound) (request : BlockedRequest)
    (callbacks : OrderedMap String (List Nat))
    (same : ∀ text, callbacks.get? text = none ↔ plugin.callbacks.get? text = none)
    (waits : plugin.WaitsRightly request) :
    Sound { plugin with callbacks, blocked := plugin.blocked ++ [request] } where
  pending := fun text stored => sound.pending text (mt (same text).mpr stored)
  returned := sound.returned
  covered := fun text member => (sound.covered text member).imp_left (mt (same text).mp)
  values := sound.values
  waiting := by
    intro other inside
    rcases List.mem_append.mp inside with older | last
    · exact (sound.waiting other older).of_eq rfl rfl
    · rw [List.mem_singleton.mp last]
      exact waits.of_eq rfl rfl
  resolved := sound.resolved
  apart := fun text back stored => sound.apart text back (mt (same text).mpr stored)

private theorem Sound.beforeNetwork (sound : plugin.Sound) {vars : GraphQLObject}
    (keeps : plugin.KeepsKeys environment (.beforeNetwork vars)) :
    (plugin.beforeNetwork vars).Sound := by
  obtain ⟨absent, visible, running⟩ := keeps
  have detected : ∀ text ∈ keyTextsFields vars, plugin.isPending text →
      text ∈ extractInputKeysFields plugin.isStored vars := by
    intro text member pending
    refine mem_extractInputKeysFields ?_ vars member fun hidden => visible text hidden pending
    rw [isStored, Option.isSome_iff_ne_none.mpr pending, Bool.true_or]
  unfold OptimisticKeys.beforeNetwork
  by_cases idle : plugin.keys.isEmpty = true
  · rw [if_pos idle]
    refine sound.send absent fun text member pending => ?_
    rw [running ⟨text, member, pending⟩] at idle
    cases idle
  · rw [if_neg idle]
    simp only
    split
    · rename_i none
      refine sound.send absent fun text member pending => ?_
      have found := detected text member pending
      rw [none] at found
      cases found
    · let pending : OrderedMap String (Option GraphQLValue) := OrderedMap.ofList
        ((extractInputKeysFields plugin.isStored vars).map fun key => (key, none))
      have unknown : ∀ text, pending.get? text =
          if text ∈ extractInputKeysFields plugin.isStored vars then some none else none :=
        OrderedMap.get?_ofList_map _ _
      let request : BlockedRequest := { vars := vars, pending := pending }
      obtain ⟨callbacks, added, same⟩ := @addCallbacks_frame
        { plugin with blocked := plugin.blocked ++ [request] } plugin.blocked.length pending.keys
      change Sound (OptimisticKeys.addCallbacks { plugin with
        blocked := plugin.blocked ++ [request] } plugin.blocked.length pending.keys)
      rw [added]
      exact sound.block request callbacks same
        { known := by
            intro text value found
            rw [unknown] at found
            split at found <;> cases found
          complete := by
            intro text member key none
            rw [unknown, if_pos] at none
            · cases none
            · exact detected text member
                ((sound.covered text key).resolve_right (absent text member))
          visible := by
            intro text hidden key
            have member := mem_keyTextsFields_of_hidden vars hidden
            exact visible text hidden
              ((sound.covered text key).resolve_right (absent text member)) }

private theorem Sound.apply (sound : plugin.Sound) {event : Event}
    (keeps : plugin.KeepsKeys environment event)
    (applied : plugin.apply environment event = some next) : next.Sound := by
  cases event with
  | start selection optimisticResponse => exact sound.start keeps applied
  | beforeNetwork vars =>
      cases applied
      exact sound.beforeNetwork keeps
  | afterNetwork mutationID data =>
      simp only [OptimisticKeys.apply] at applied
      cases running : plugin.running? mutationID with
      | none =>
          rw [running] at applied
          cases applied
      | some mutation =>
          have drained := sound.drain
            (responseVisits mutation.selection.depth mutation.selection data [])
            (fun paths known => keeps mutation paths running known)
          simp only [running] at applied
          split at applied
          · cases applied
          · split at applied <;> rename_i outcome <;> cases applied <;> rw [outcome] at drained <;>
              exact drained.of_stores rfl rfl rfl rfl rfl
  | «end» mutationID =>
      simp only [OptimisticKeys.apply] at applied
      cases running : plugin.running? mutationID with
      | none =>
          rw [running] at applied
          cases applied
      | some mutation =>
          rw [running] at applied
          cases applied
          exact sound.of_stores rfl rfl rfl rfl rfl
  | fail mutationID =>
      simp only [OptimisticKeys.apply] at applied
      cases running : plugin.running? mutationID with
      | none =>
          rw [running] at applied
          cases applied
      | some mutation =>
          rw [running] at applied
          cases applied
          exact sound.of_stores rfl rfl rfl rfl rfl

private theorem sound_empty : Sound {} where
  pending := fun _ stored => absurd rfl stored
  returned := fun _ back => absurd rfl back
  covered := nofun
  values := nofun
  waiting := nofun
  resolved := nofun
  apart := fun _ back => absurd rfl back

end Steps

private def createItem : SubscriptionSelection :=
  { fields :=
      [("createItem",
        { type := "Item"
          keyRaw := "createItem"
          selection := some
            { fields := [("id", { type := "ID", keyRaw := "id", optimisticKey := true })] } })] }

private def clock : KeyEnvironment := { dateNow := fun _ => 1700000000000 }

private theorem unused_empty (text : String) : Unused {} text where
  notGenerated := nofun
  notWaiting := nofun
  notReturned := nofun

end OptimisticKeys

end Client

end Houdini.Runtime
