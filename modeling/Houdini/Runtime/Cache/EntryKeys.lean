import Houdini.Runtime.Cache.EntryVisits

/-! A write that starts with ranks that were given out gives its embedded entries new ones. -/

set_option autoImplicit false

namespace Houdini.Runtime.Cache

/-- Ranks were given out, if anything, and everything stored has one of those. -/
structure InMemoryStorage.Advances (storage final : InMemoryStorage) : Prop where
  numbered : final.Numbered
  grows : storage.rank ≤ final.rank

namespace InMemoryStorage.Advances

variable {storage middle final : InMemoryStorage}

theorem refl (numbered : storage.Numbered) : storage.Advances storage :=
  ⟨numbered, Nat.le_refl _⟩

theorem trans (first : storage.Advances middle) (second : middle.Advances final) :
    storage.Advances final :=
  ⟨second.numbered, Nat.le_trans first.grows second.grows⟩

theorem nextRank (numbered : storage.Numbered) : storage.Advances storage.nextRank.2 :=
  ⟨fun layer member => (numbered layer member).mono (Nat.le_succ _), Nat.le_succ _⟩

end InMemoryStorage.Advances

def Advancing {Value : Type} (program : WriteM Value) (storage : InMemoryStorage) : Prop :=
  (program storage).Satisfies (fun _ => storage.Advances) storage.Advances

namespace Advancing

variable {Value Output : Type} {storage : InMemoryStorage} {program : WriteM Value}

theorem pure (numbered : storage.Numbered) (value : Value) :
    Advancing (Pure.pure value : WriteM Value) storage :=
  .refl numbered

theorem state (advancing : Advancing program storage) :
    storage.Advances (resultState (program storage)) := by
  unfold Advancing at advancing
  cases result : program storage with
  | ok value final =>
      rw [result] at advancing
      exact advancing
  | error error final =>
      rw [result] at advancing
      exact advancing

theorem bind {next : Value → WriteM Output} (first : Advancing program storage)
    (rest : ∀ value middle, program storage = .ok value middle → storage.Advances middle →
      Advancing (next value) middle) : Advancing (program >>= next) storage := by
  apply EStateM.satisfies_bind
  unfold Advancing at first
  cases result : program storage with
  | error error middle =>
      rw [result] at first
      exact first
  | ok value middle =>
      rw [result] at first
      exact (rest value middle result first).mono (fun _ _ later => first.trans later)
        fun _ later => first.trans later

theorem read {next : InMemoryStorage → WriteM Output} (rest : Advancing (next storage) storage) :
    Advancing (get >>= next) storage := rest

end Advancing

section Layers

variable {layer : LayerID} {storage : InMemoryStorage} (numbered : storage.Numbered)
  {id key : String}

include numbered

theorem advancing_changeLayer {change : Layer → EStateM.Result JSError Layer Unit}
    (kept : ∀ current : Layer, current.Numbered storage.rank →
      (resultState (change current)).Numbered storage.rank) :
    Advancing (changeLayer layer change) storage := by
  unfold Advancing changeLayer
  cases found : storage.data.find? (·.id == layer) with
  | none => exact .refl numbered
  | some current =>
      have changed := kept current (numbered current (List.mem_of_find?_eq_some found))
      dsimp only
      cases result : change current with
      | ok _ written =>
          rw [result] at changed
          exact ⟨numbered.setLayer changed, Nat.le_refl _⟩
      | error error written =>
          rw [result] at changed
          exact ⟨numbered.setLayer changed, Nat.le_refl _⟩

theorem advancing_writeFieldTo (below : Below storage.rank id) (value : GraphQLValue) :
    Advancing (writeFieldTo layer id key value) storage :=
  advancing_changeLayer numbered fun _ known => known.writeField below value

theorem advancing_writeLinkTo {value : GraphQLValue} (below : Below storage.rank id)
    (texts : ∀ text ∈ value.texts, Below storage.rank text) :
    Advancing (writeLinkTo layer id key value) storage :=
  advancing_changeLayer numbered fun _ known => known.writeLink below texts

theorem advancing_insertInto {target : String} (below : Below storage.rank target)
    (location : OperationLocation) :
    Advancing (insertInto layer id key location target) storage := by
  unfold Advancing insertInto
  cases found : storage.data.find? (·.id == layer) with
  | none => exact .refl numbered
  | some current =>
      have known := numbered current (List.mem_of_find?_eq_some found)
      dsimp only
      cases result : current.insert id key location target with
      | ok written =>
          have inserted : written.Numbered storage.rank := by
            unfold Layer.insert at result
            refine known.addFieldOperation ?_ result
            exact fun _ => below
          exact ⟨numbered.setLayer inserted, Nat.le_refl _⟩
      | error error => exact .refl numbered

theorem advancing_rememberTypename (value : GraphQLValue) :
    Advancing (rememberTypename id key value) storage := by
  unfold Advancing rememberTypename
  split
  · split
    · exact ⟨numbered, Nat.le_refl _⟩
    · exact .refl numbered
  · exact .refl numbered

theorem advancing_removeLostEntries (field : LinkedField) (oldIDs linkedIDs : List GraphQLValue) :
    Advancing (removeLostEntries layer field oldIDs linkedIDs) storage := by
  have removed (lost : List String) :
      storage.Advances (lost.foldl .removeEmbeddedRecord storage) := by
    induction lost generalizing storage with
    | nil => exact .refl numbered
    | cons id rest ih =>
        have rest := ih (numbered.removeEmbeddedRecord id)
        exact ⟨rest.numbered, rest.grows⟩
  unfold Advancing removeLostEntries
  split
  · exact .refl numbered
  · exact removed _

theorem advancing_writeScalar (below : Below storage.rank id) {context : WriteContext}
    {field : SelectionField} {previous value : GraphQLValue} :
    Advancing (writeScalar context layer field id key previous value) storage := by
  unfold writeScalar
  cases scalarValue context.applyUpdates field.updates previous value with
  | error error => exact .refl numbered
  | ok result =>
      refine (advancing_writeFieldTo numbered below result).bind fun _ middle _ advances => ?_
      exact advancing_rememberTypename advances.numbered result

end Layers

/-- Entries that are written one after the other, with the ranks that are given out then. -/
structure InOrder (storage : InMemoryStorage) (entries : List EntryVisit)
    (final : InMemoryStorage) : Prop where
  advances : storage.Advances final
  during : ∀ entry ∈ entries, storage.Advances entry.storage ∧ entry.after.rank ≤ final.rank
  ordered : entries.Pairwise fun entry later => entry.after.rank ≤ later.storage.rank

namespace InOrder

variable {storage middle final : InMemoryStorage} {entries others : List EntryVisit}

theorem nil (advances : storage.Advances final) : InOrder storage [] final :=
  ⟨advances, fun _ member => absurd member List.not_mem_nil, .nil⟩

theorem append (first : InOrder storage entries middle) (second : InOrder middle others final) :
    InOrder storage (entries ++ others) final where
  advances := first.advances.trans second.advances
  during := by
    intro entry member
    rcases List.mem_append.mp member with before | later
    · obtain ⟨start, last⟩ := first.during entry before
      exact ⟨start, Nat.le_trans last second.advances.grows⟩
    · obtain ⟨start, last⟩ := second.during entry later
      exact ⟨first.advances.trans start, last⟩
  ordered := by
    refine List.pairwise_append.mpr ⟨first.ordered, second.ordered, ?_⟩
    intro entry before later after
    exact Nat.le_trans (first.during entry before).2 (second.during later after).1.grows

end InOrder

theorem EntryVisit.advances {entry : EntryVisit} (numbered : entry.storage.Numbered) :
    entry.storage.Advances entry.after := by
  unfold EntryVisit.after
  split
  · exact .refl numbered
  · exact .nextRank numbered

def SoundWrite (config : ConfigFile) (write : String → GraphQLObject → WriteM Unit)
    (visits : WriteVisits) : Prop :=
  ∀ id data (storage : InMemoryStorage), storage.Numbered → Below storage.rank id →
    (∀ visit ∈ visits id data storage, visit.Careful config) →
    (∀ visit ∈ visits id data storage, visit.KeysFresh config) ∧
      Advancing (write id data) storage

structure Written (config : ConfigFile) (visits : WriteVisits) {Value : Type}
    (texts : Value → List String) (storage : InMemoryStorage) (entries : List EntryVisit)
    (result : EStateM.Result JSError InMemoryStorage Value) : Prop where
  fresh : ∀ entry ∈ entries, ∀ visit ∈ entry.within config visits, visit.KeysFresh config
  inOrder : InOrder storage entries (resultState result)
  known : ∀ value final, result = .ok value final → ∀ text ∈ texts value, Below final.rank text

section Entries

variable {config : ConfigFile} {field : LinkedField}
  {write : String → GraphQLObject → WriteM Unit} {visits : WriteVisits}

theorem EntryVisit.id_below {entry : EntryVisit}
    (known : ∀ text ∈ entry.previousID.texts, Below entry.storage.rank text) :
    Below entry.after.rank entry.id := by
  obtain ⟨field, previousID, data, storage⟩ := entry
  have generated := below_embeddedEntryID field.parent field.key storage.rank
  unfold EntryVisit.after EntryVisit.id EntryVisit.taken
  cases previousID with
  | string id =>
      cases owned : field.ownsEntry id with
      | false => simpa [owned, InMemoryStorage.nextRank] using generated
      | true => simpa [owned] using known id List.mem_cons_self
  | _ => exact generated

theorem LinkedField.entryID_embedded {field : LinkedField} {embedded id : String}
    {data : GraphQLObject} (isEmbedded : isEmbedded config field.linkedType data = true)
    (named : field.entryID config embedded data = .ok (some id)) : id = embedded := by
  unfold LinkedField.entryID at named
  dsimp only at named
  split at named
  · cases named
  · cases named
    rfl

theorem InOrder.single {entry : EntryVisit} {final : InMemoryStorage}
    (numbered : entry.storage.Numbered) (advances : entry.after.Advances final) :
    InOrder entry.storage [entry] final where
  advances := (EntryVisit.advances numbered).trans advances
  during := by
    intro other member
    obtain rfl := List.mem_singleton.mp member
    exact ⟨.refl numbered, advances.grows⟩
  ordered := List.pairwise_singleton _ _

theorem writeEntry_written (sound : SoundWrite config write visits) (entry : EntryVisit)
    (numbered : entry.storage.Numbered)
    (texts : ∀ text ∈ entry.previousID.texts, Below entry.storage.rank text)
    (careful : ∀ visit ∈ entry.within config visits, visit.Careful config) :
    Written config visits Option.toList entry.storage [entry]
      (writeEntry config entry.field write entry.previousID entry.data entry.storage) := by
  have after := (EntryVisit.advances numbered).numbered
  unfold writeEntry
  rw [EStateM.bind_of_ok entry.embeddedEntry_eq]
  unfold EntryVisit.within at careful
  cases named : entry.field.entryID config entry.id entry.data with
  | error error =>
      exact {
        fresh := by
          intro other member visit inside
          obtain rfl := List.mem_singleton.mp member
          unfold EntryVisit.within at inside
          rw [named] at inside
          exact absurd inside List.not_mem_nil
        inOrder := .single numbered (.refl after)
        known := fun _ _ success => absurd success EStateM.throw_ne_ok }
  | ok name =>
  cases name with
  | none =>
      exact {
        fresh := by
          intro other member visit inside
          obtain rfl := List.mem_singleton.mp member
          unfold EntryVisit.within at inside
          rw [named] at inside
          exact absurd inside List.not_mem_nil
        inOrder := .single numbered (.refl after)
        known := by
          intro id final success text member
          cases success
          exact absurd member List.not_mem_nil }
  | some id =>
      rw [named] at careful
      have below : Below entry.after.rank id := by
        cases embedded : entry.embedded config with
        | true =>
            rw [LinkedField.entryID_embedded embedded named]
            exact EntryVisit.id_below texts
        | false =>
            simp only [embedded] at careful
            have outside : Below entry.storage.rank id :=
              careful (.record id entry.storage) List.mem_cons_self
            exact outside.mono (EntryVisit.advances numbered).grows
      have nested := sound id entry.data entry.after after below (by
        intro visit member
        refine careful visit ?_
        dsimp only
        split
        · exact member
        · exact List.mem_cons_of_mem _ member)
      have program : Advancing (write id entry.data >>= fun _ => pure (some id)) entry.after :=
        nested.2.bind fun _ middle _ advances => .pure advances.numbered _
      exact {
        fresh := by
          intro other member visit inside
          obtain rfl := List.mem_singleton.mp member
          unfold EntryVisit.within at inside
          rw [named] at inside
          dsimp only at inside
          split at inside
          · exact nested.1 visit inside
          · rcases List.mem_cons.mp inside with rfl | inner
            · trivial
            · exact nested.1 visit inner
        inOrder := .single numbered program.state
        known := by
          intro name final success text member
          have grows := program.state.grows
          obtain ⟨_, middle, wrote, rest⟩ := EStateM.bind_eq_ok success
          obtain ⟨rfl, rfl⟩ := EStateM.pure_eq_ok rest
          obtain rfl := List.mem_singleton.mp member
          refine below.mono ?_
          have advances := nested.2.state.grows
          rw [wrote] at advances
          exact advances }

def entryTexts (ids : List GraphQLValue × Option GraphQLValue) : List String :=
  textsOf ids.1 ++ (ids.2.map GraphQLValue.texts).getD []

def ListIDs.texts (ids : ListIDs) : List String := textsOf ids.newIDs ++ textsOf ids.nestedIDs

theorem ListIDs.mem_texts_cons {newIDs : List GraphQLValue} {nestedID : Option GraphQLValue}
    {others : ListIDs} {text : String} (member : text ∈ (others.cons newIDs nestedID).texts) :
    text ∈ entryTexts (newIDs, nestedID) ∨ text ∈ others.texts := by
  unfold ListIDs.texts ListIDs.cons at member
  rw [textsOf_append] at member
  unfold entryTexts ListIDs.texts
  cases nestedID with
  | some id =>
      simp only [textsOf, List.mem_append] at member
      simp only [Option.map_some, Option.getD_some, List.mem_append]
      tauto
  | none =>
      dsimp only at member
      split at member
      · simp only [textsOf, List.mem_append, List.not_mem_nil, or_false] at member
        simp only [List.mem_append]
        tauto
      · simp only [textsOf, GraphQLValue.texts, List.nil_append, List.mem_append] at member
        simp only [List.mem_append]
        tauto

theorem Written.unchanged {Value : Type} {texts : Value → List String} {storage : InMemoryStorage}
    (numbered : storage.Numbered) {value : Value} (none : texts value = []) :
    Written config visits texts storage [] (.ok value storage) where
  fresh := fun _ member => absurd member List.not_mem_nil
  inOrder := .nil (.refl numbered)
  known := by
    intro other final success text member
    cases success
    rw [none] at member
    exact absurd member List.not_mem_nil

theorem Written.map {Value Output : Type} {texts : Value → List String}
    {outputTexts : Output → List String} {storage : InMemoryStorage} {entries : List EntryVisit}
    {program : WriteM Value}
    (written : Written config visits texts storage entries (program storage))
    (convert : Value → Output)
    (same : ∀ value, ∀ text ∈ outputTexts (convert value), text ∈ texts value) :
    Written config visits outputTexts storage entries
      ((program >>= fun value => pure (convert value)) storage) := by
  rw [EStateM.bind_apply]
  obtain ⟨fresh, inOrder, known⟩ := written
  cases result : program storage with
  | error error middle =>
      rw [result] at inOrder
      exact ⟨fresh, inOrder, fun _ _ success => by cases success⟩
  | ok value middle =>
      rw [result] at inOrder
      refine ⟨fresh, inOrder, fun other final success text member => ?_⟩
      obtain ⟨rfl, rfl⟩ := EStateM.pure_eq_ok success
      exact known value _ result text (same value text member)

theorem writeEntry_texts (id : Option String) :
    ∀ text ∈ entryTexts ((id.map GraphQLValue.string).toList, id.map .string),
      text ∈ id.toList := by
  intro text member
  cases id with
  | none => exact absurd member List.not_mem_nil
  | some id =>
      rcases List.mem_append.mp member with flat | nested
      · simpa [textsOf, GraphQLValue.texts] using flat
      · simpa [GraphQLValue.texts] using nested

theorem mem_texts_items {value : GraphQLValue} {text : String}
    (member : text ∈ textsOf value.items) : text ∈ value.texts := by
  cases value with
  | array items => exact member
  | _ => exact absurd member List.not_mem_nil

theorem mem_textsOf_headD {values : List GraphQLValue} {text : String}
    (member : text ∈ (values.headD .undefined).texts) : text ∈ textsOf values := by
  cases values with
  | nil => exact absurd member List.not_mem_nil
  | cons value rest => exact List.mem_append_left _ member

theorem mem_textsOf_tail {values : List GraphQLValue} {text : String}
    (member : text ∈ textsOf values.tail) : text ∈ textsOf values := by
  cases values with
  | nil => exact absurd member List.not_mem_nil
  | cons value rest => exact List.mem_append_right _ member

mutual

theorem extractEntryIDs_written (sound : SoundWrite config write visits) :
    ∀ (previousID entry : GraphQLValue) (storage : InMemoryStorage), storage.Numbered →
    (∀ text ∈ previousID.texts, Below storage.rank text) →
    (∀ visited ∈ entryVisits config field write previousID entry storage,
      ∀ visit ∈ visited.within config visits, visit.Careful config) →
    Written config visits entryTexts storage
      (entryVisits config field write previousID entry storage)
      (extractEntryIDs config field write previousID entry storage)
  | previousID, .array entries, storage, numbered, known, careful => by
      unfold entryVisits at careful ⊢
      unfold extractEntryIDs
      have inner := extractNestedListIDs_written sound previousID.items entries storage numbered
        (fun text member => known text (mem_texts_items member)) careful
      exact inner.map _ fun _ _ member => member
  | _, .null, storage, numbered, _, _ | _, .undefined, storage, numbered, _, _ => by
      unfold entryVisits extractEntryIDs
      exact .unchanged numbered rfl
  | previousID, .object data, storage, numbered, known, careful => by
      unfold entryVisits at careful ⊢
      unfold extractEntryIDs
      have entry := writeEntry_written sound { field, previousID, data, storage } numbered known
        (careful _ List.mem_cons_self)
      exact entry.map _ writeEntry_texts
  | previousID, .boolean _, storage, numbered, known, careful
  | previousID, .number _, storage, numbered, known, careful
  | previousID, .string _, storage, numbered, known, careful
  | previousID, .component .., storage, numbered, known, careful => by
      unfold entryVisits at careful ⊢
      unfold extractEntryIDs
      have entry := writeEntry_written sound { field, previousID, data := [], storage }
        numbered known (careful _ List.mem_cons_self)
      exact entry.map _ writeEntry_texts

theorem extractNestedListIDs_written (sound : SoundWrite config write visits) :
    ∀ (previousIDs entries : List GraphQLValue) (storage : InMemoryStorage), storage.Numbered →
    (∀ text ∈ textsOf previousIDs, Below storage.rank text) →
    (∀ visited ∈ listVisits config field write previousIDs entries storage,
      ∀ visit ∈ visited.within config visits, visit.Careful config) →
    Written config visits ListIDs.texts storage
      (listVisits config field write previousIDs entries storage)
      (extractNestedListIDs config field write previousIDs entries storage)
  | _, [], storage, numbered, _, _ => by
      unfold listVisits extractNestedListIDs
      exact .unchanged numbered rfl
  | previousIDs, entry :: rest, storage, numbered, known, careful => by
      unfold listVisits at careful ⊢
      unfold extractNestedListIDs
      have first := extractEntryIDs_written sound (previousIDs.headD .undefined) entry storage
        numbered (fun text member => known text (mem_textsOf_headD member))
        fun visited member => careful visited (List.mem_append_left _ member)
      rw [EStateM.bind_apply]
      unfold following at careful ⊢
      cases result : extractEntryIDs config field write (previousIDs.headD .undefined) entry
          storage with
      | error error middle =>
          rw [result] at first
          simp only [List.append_nil]
          exact ⟨first.fresh, first.inOrder, fun _ _ success => by cases success⟩
      | ok ids middle =>
          simp only [result] at careful
          rw [result] at first
          have advances : storage.Advances middle := first.inOrder.advances
          have others := extractNestedListIDs_written sound previousIDs.tail rest middle
            advances.numbered
            (fun text member => (known text (mem_textsOf_tail member)).mono advances.grows)
            fun visited member => careful visited (List.mem_append_right _ member)
          have fresh : ∀ visited ∈ entryVisits config field write (previousIDs.headD .undefined)
              entry storage ++ listVisits config field write previousIDs.tail rest middle,
              ∀ visit ∈ visited.within config visits, visit.KeysFresh config := by
            intro visited member
            rcases List.mem_append.mp member with before | later
            · exact first.fresh visited before
            · exact others.fresh visited later
          have inOrder := first.inOrder.append others.inOrder
          dsimp only
          rw [EStateM.bind_apply]
          cases last : extractNestedListIDs config field write previousIDs.tail rest middle with
          | error error final =>
              rw [last] at inOrder
              exact ⟨fresh, inOrder, fun _ _ success => by cases success⟩
          | ok listed final =>
              rw [last] at inOrder
              refine ⟨fresh, inOrder, fun all final success text member => ?_⟩
              obtain ⟨rfl, rfl⟩ := EStateM.pure_eq_ok success
              rcases ListIDs.mem_texts_cons member with mine | theirs
              · have grows := others.inOrder.advances.grows
                rw [last] at grows
                exact (first.known ids middle rfl text mine).mono grows
              · exact others.known listed _ last text theirs

end

mutual

theorem entryVisits_taken :
    ∀ (previousID entry : GraphQLValue) (storage : InMemoryStorage),
    ∀ visited ∈ entryVisits config field write previousID entry storage,
      visited.field = field ∧ ∀ id, visited.taken = some id → id ∈ previousID.texts
  | previousID, .array entries, storage, visited, member => by
      unfold entryVisits at member
      obtain ⟨same, taken⟩ := listVisits_taken previousID.items entries storage visited member
      exact ⟨same, fun id owned => mem_texts_items (taken id owned)⟩
  | _, .null, _, _, member | _, .undefined, _, _, member => by
      unfold entryVisits at member
      exact absurd member List.not_mem_nil
  | previousID, .object _, _, _, member | previousID, .boolean _, _, _, member
  | previousID, .number _, _, _, member | previousID, .string _, _, _, member
  | previousID, .component .., _, _, member => by
      unfold entryVisits at member
      obtain rfl := List.mem_singleton.mp member
      refine ⟨rfl, fun id owned => ?_⟩
      unfold EntryVisit.taken at owned
      dsimp only at owned
      split at owned
      · split at owned
        · cases owned
          exact List.mem_cons_self
        · cases owned
      · cases owned

theorem listVisits_taken :
    ∀ (previousIDs entries : List GraphQLValue) (storage : InMemoryStorage),
    ∀ visited ∈ listVisits config field write previousIDs entries storage,
      visited.field = field ∧ ∀ id, visited.taken = some id → id ∈ textsOf previousIDs
  | _, [], _, _, member => by
      unfold listVisits at member
      exact absurd member List.not_mem_nil
  | previousIDs, entry :: rest, storage, visited, member => by
      unfold listVisits following at member
      rcases List.mem_append.mp member with first | later
      · obtain ⟨same, taken⟩ := entryVisits_taken (previousIDs.headD .undefined) entry storage
          visited first
        exact ⟨same, fun id owned => mem_textsOf_headD (taken id owned)⟩
      · split at later
        · obtain ⟨same, taken⟩ := listVisits_taken previousIDs.tail rest _ visited later
          exact ⟨same, fun id owned => mem_textsOf_tail (taken id owned)⟩
        · exact absurd later List.not_mem_nil

end

end Entries

theorem EntryVisit.id_of_taken {entry : EntryVisit} {id : String} (taken : entry.taken = some id) :
    entry.id = id := by
  unfold EntryVisit.id
  rw [taken, Option.getD_some]

theorem EntryVisit.id_marks {entry : EntryVisit} (generated : entry.taken = none) :
    Marks entry.id entry.storage.rank := by
  unfold EntryVisit.id
  rw [generated]
  exact ⟨_, _, rfl⟩

theorem map_id_nodup {bound : Nat} {entries : List EntryVisit}
    (start : ∀ entry ∈ entries, bound ≤ entry.storage.rank)
    (ordered : entries.Pairwise fun entry later => entry.after.rank ≤ later.storage.rank)
    (known : ∀ entry ∈ entries, ∀ id, entry.taken = some id → Below bound id)
    (different : (entries.filterMap (·.taken)).Nodup) : (entries.map (·.id)).Nodup := by
  induction entries with
  | nil => exact .nil
  | cons entry rest ih =>
      rw [List.pairwise_cons] at ordered
      have restStart := fun other member => start other (List.mem_cons_of_mem entry member)
      have restKnown := fun other member => known other (List.mem_cons_of_mem entry member)
      have restDifferent : (rest.filterMap (·.taken)).Nodup := by
        rw [List.filterMap_cons] at different
        split at different
        · exact different
        · exact (List.nodup_cons.mp different).2
      rw [List.map_cons, List.nodup_cons]
      refine ⟨fun repeated => ?_, ih restStart ordered.2 restKnown restDifferent⟩
      obtain ⟨later, member, same⟩ := List.mem_map.mp repeated
      cases mine : entry.taken with
      | some id =>
          have owned := EntryVisit.id_of_taken mine
          cases theirs : later.taken with
          | some other =>
              rw [List.filterMap_cons, mine] at different
              have equal : other = id :=
                (EntryVisit.id_of_taken theirs).symm.trans (same.trans owned)
              exact (List.nodup_cons.mp different).1
                (List.mem_filterMap.mpr ⟨later, member, equal ▸ theirs⟩)
          | none =>
              have marks := EntryVisit.id_marks theirs
              rw [same, owned] at marks
              exact absurd (known entry List.mem_cons_self id mine _ marks)
                (Nat.not_lt.mpr (restStart later member))
      | none =>
          have marks := EntryVisit.id_marks mine
          cases theirs : later.taken with
          | some other =>
              rw [← same, EntryVisit.id_of_taken theirs] at marks
              exact absurd (restKnown later member other theirs _ marks)
                (Nat.not_lt.mpr (start entry List.mem_cons_self))
          | none =>
              have other := EntryVisit.id_marks theirs
              rw [same] at other
              have before := ordered.1 later member
              have next : entry.after.rank = entry.storage.rank + 1 := by
                unfold EntryVisit.after
                rw [mine]
                rfl
              rw [next, ← marks.unique other] at before
              exact Nat.not_succ_le_self _ before

theorem embeddedIDs_nodup {config : ConfigFile} {storage final : InMemoryStorage}
    {entries : List EntryVisit} (inOrder : InOrder storage entries final)
    (known : ∀ entry ∈ entries, ∀ id, entry.taken = some id → Below storage.rank id)
    (different : (takenIDs config entries).Nodup) : (embeddedIDs config entries).Nodup := by
  refine map_id_nodup (fun entry member => ?_) (inOrder.ordered.sublist List.filter_sublist)
    (fun entry member => known entry (List.mem_filter.mp member).1) different
  exact (inOrder.during entry (List.mem_filter.mp member).1).1.grows

theorem applyListUpdate_subset
    {filter : List GraphQLValue → List GraphQLValue → List GraphQLValue}
    (fewer : ∀ keep insert, filter keep insert ⊆ insert) {optimistic : Bool}
    {updates : List String} {newIDs oldIDs : List GraphQLValue} {current : ListUpdate}
    (known : current.linkedIDs ⊆ newIDs ++ oldIDs) (update : String) :
    (applyListUpdate filter optimistic updates newIDs oldIDs current update).linkedIDs ⊆
      newIDs ++ oldIDs := by
  unfold applyListUpdate
  split
  · exact known
  · split
    · intro id member
      rcases List.mem_append.mp member with new | old
      · exact List.mem_append_left _ new
      · exact List.mem_append_right _ (fewer newIDs oldIDs old)
    · split
      · intro id member
        rcases List.mem_append.mp member with old | new
        · exact List.mem_append_right _ (fewer newIDs oldIDs old)
        · exact List.mem_append_left _ new
      · split
        · exact List.subset_append_left _ _
        · exact known

theorem foldl_applyListUpdate_subset
    {filter : List GraphQLValue → List GraphQLValue → List GraphQLValue}
    (fewer : ∀ keep insert, filter keep insert ⊆ insert) {optimistic : Bool}
    {updates : List String} {newIDs oldIDs : List GraphQLValue} (applyUpdates : List String)
    {current : ListUpdate} (known : current.linkedIDs ⊆ newIDs ++ oldIDs) :
    (applyUpdates.foldl (applyListUpdate filter optimistic updates newIDs oldIDs)
      current).linkedIDs ⊆ newIDs ++ oldIDs := by
  induction applyUpdates generalizing current with
  | nil => exact known
  | cons update rest ih => exact ih (applyListUpdate_subset fewer known update)

theorem updateList_texts (context : WriteContext) (layer : LayerID) (storage : InMemoryStorage)
    (updates : Option (List String)) (ids : ListIDs) (oldIDs : List GraphQLValue) :
    ∀ text ∈ textsOf (updateList context layer storage updates ids oldIDs).linkedIDs,
      text ∈ ids.texts ++ textsOf oldIDs := by
  unfold updateList
  split
  · next updates applyUpdates _ =>
      have among := @foldl_applyListUpdate_subset (filterIDs storage)
        (fun _ _ => List.filter_subset_self _) (isOptimistic layer storage) updates ids.newIDs
        oldIDs applyUpdates {} (List.nil_subset _)
      intro text member
      obtain ⟨item, linked, inItem⟩ := mem_textsOf.mp member
      rcases List.mem_append.mp (among linked) with new | old
      · exact List.mem_append_left _
          (List.mem_append_left _ (mem_textsOf.mpr ⟨item, new, inItem⟩))
      · exact List.mem_append_right _ (mem_textsOf.mpr ⟨item, old, inItem⟩)
  · intro text member
    exact List.mem_append_left _ (List.mem_append_right _ member)

theorem previousListIDs_texts {storage : InMemoryStorage} {updates : List String} {key : String}
    {previous : GraphQLValue} :
    ∀ text ∈ textsOf (previousListIDs storage updates key previous), text ∈ previous.texts := by
  intro text member
  refine mem_texts_items ?_
  unfold previousListIDs at member
  split at member
  · obtain ⟨item, kept, inItem⟩ := mem_textsOf.mp member
    exact mem_textsOf.mpr ⟨item, (List.mem_filter.mp kept).1, inItem⟩
  · exact member

section Writing

variable {context : WriteContext} {layer : LayerID}

theorem advancing_linkList {field : LinkedField} {list : PreparedList}
    {storage : InMemoryStorage} (numbered : storage.Numbered)
    (below : Below storage.rank field.parent)
    (linked : ∀ text ∈ textsOf list.update.linkedIDs, Below storage.rank text)
    (inserted : ∀ text ∈ textsOf list.newIDs, Below storage.rank text) :
    Advancing (linkList layer field list) storage := by
  unfold linkList
  split
  · exact advancing_writeLinkTo numbered below linked
  · next location _ =>
      generalize list.newIDs = newIDs at inserted
      induction newIDs generalizing storage with
      | nil => exact .pure numbered _
      | cons id rest ih =>
          have later {middle : InMemoryStorage} (advances : storage.Advances middle) :=
            ih advances.numbered (below.mono advances.grows)
              (fun text member => (linked text member).mono advances.grows)
              fun text member =>
                (inserted text (List.mem_append_right _ member)).mono advances.grows
          refine Advancing.bind ?_ fun _ middle _ advances => later advances
          dsimp only
          split
          · split
            · exact .pure numbered _
            · exact advancing_insertInto numbered
                (inserted _ (List.mem_append_left _ List.mem_cons_self)) location
          · exact .pure numbered _

variable {write : String → GraphQLObject → WriteM Unit} {visits : WriteVisits}

structure PreparedList.Known (list : PreparedList) (bound : Nat) : Prop where
  linked : ∀ text ∈ textsOf list.update.linkedIDs, Below bound text
  inserted : ∀ text ∈ textsOf list.newIDs, Below bound text

section Lists

variable {field : LinkedField} {updates : Option (List String)} {previous : GraphQLValue}
  {items : List GraphQLValue} {storage : InMemoryStorage}

abbrev listEntries (context : WriteContext) (write : String → GraphQLObject → WriteM Unit)
    (field : LinkedField) (updates : Option (List String)) (previous : GraphQLValue)
    (items : List GraphQLValue) (storage : InMemoryStorage) : List EntryVisit :=
  listVisits context.config field write
    (if insertsUpdates context (updates.getD []) then [] else previous.items) items storage

theorem listEntries_offered (displayed : ∀ text ∈ previous.texts, Below storage.rank text) :
    ∀ text ∈ textsOf (if insertsUpdates context (updates.getD []) then [] else previous.items),
      Below storage.rank text := by
  intro text member
  split at member
  · exact absurd member List.not_mem_nil
  · exact displayed text (mem_texts_items member)

theorem extractNestedListIDs_sound (sound : SoundWrite context.config write visits)
    (numbered : storage.Numbered)
    (displayed : ∀ text ∈ previous.texts, Below storage.rank text)
    (careful : ∀ entry ∈ listEntries context write field updates previous items storage,
      ∀ visit ∈ entry.within context.config visits, visit.Careful context.config) :
    Written context.config visits ListIDs.texts storage
      (listEntries context write field updates previous items storage)
      (extractNestedListIDs context.config field write
        (if insertsUpdates context (updates.getD []) then [] else previous.items) items
        storage) := by
  exact extractNestedListIDs_written sound _ items storage numbered
    (listEntries_offered displayed) careful

theorem keysFresh_list {entries : List EntryVisit}
    (visited : entries = listEntries context write field updates previous items storage)
    (displayed : ∀ text ∈ previous.texts, Below storage.rank text) {final : InMemoryStorage}
    (inOrder : InOrder storage entries final)
    (different : (takenIDs context.config entries).Nodup) :
    (WriteVisit.list field storage entries).KeysFresh context.config := by
  have taken := @listVisits_taken context.config field write
    (if insertsUpdates context (updates.getD []) then [] else previous.items) items storage
  refine ⟨fun entry member generated => ?_, embeddedIDs_nodup inOrder ?_ different⟩
  · unfold EntryVisit.id
    rw [generated]
    exact (inOrder.during entry member).1.numbered.fresh _ _
  · intro entry member id owned
    subst visited
    exact listEntries_offered displayed id ((taken entry member).2 id owned)

theorem prepareList_known
    (displayed : ∀ text ∈ previous.texts, Below storage.rank text)
    (written : Written context.config visits ListIDs.texts storage
      (listEntries context write field updates previous items storage)
      (extractNestedListIDs context.config field write
        (if insertsUpdates context (updates.getD []) then [] else previous.items) items storage)) :
    (prepareList context layer write updates field previous items storage).Satisfies
      (fun list final => storage.Advances final ∧ list.Known final.rank) storage.Advances := by
  have advances := written.inOrder.advances
  unfold prepareList
  apply EStateM.satisfies_bind
  change (EStateM.Result.ok storage storage).Satisfies _ _
  apply EStateM.satisfies_bind
  cases result : extractNestedListIDs context.config field write
      (if insertsUpdates context (updates.getD []) then [] else previous.items) items storage with
  | error error middle =>
      rw [result] at advances
      exact advances
  | ok ids middle =>
      rw [result] at advances
      have known := written.known ids middle result
      apply EStateM.satisfies_bind
      change (EStateM.Result.ok middle middle).Satisfies _ _
      apply EStateM.satisfies_bind
      refine (advancing_removeLostEntries advances.numbered field _ _).mono ?_
        fun _ later => advances.trans later
      intro _ final later
      refine ⟨advances.trans later, ⟨fun text member => ?_, fun text member => ?_⟩⟩
      · refine Below.mono ?_ later.grows
        rcases List.mem_append.mp (updateList_texts context layer middle updates ids _ text member)
          with new | old
        · exact known text new
        · exact (displayed text (previousListIDs_texts text old)).mono advances.grows
      · exact (known text (List.mem_append_left _ member)).mono later.grows

theorem writeList_advancing (below : Below storage.rank field.parent)
    (displayed : ∀ text ∈ previous.texts, Below storage.rank text)
    (written : Written context.config visits ListIDs.texts storage
      (listEntries context write field updates previous items storage)
      (extractNestedListIDs context.config field write
        (if insertsUpdates context (updates.getD []) then [] else previous.items) items storage)) :
    Advancing (writeList context layer write updates field previous items) storage := by
  unfold Advancing writeList
  apply EStateM.satisfies_bind
  refine (prepareList_known displayed written).mono ?_ fun _ advances => advances
  intro list middle ⟨advances, known⟩
  have linked := @advancing_linkList layer field list middle advances.numbered
    (below.mono advances.grows) known.linked known.inserted
  split
  · exact linked.mono (fun _ _ later => advances.trans later) fun _ later => advances.trans later
  · exact advances

end Lists

theorem writeObject_sound (sound : SoundWrite context.config write visits) {field : LinkedField}
    {data : GraphQLObject} {storage : InMemoryStorage} (numbered : storage.Numbered)
    (below : Below storage.rank field.parent)
    (careful : ∀ visit ∈ objectVisits context layer visits field data storage,
      visit.Careful context.config) :
    (∀ visit ∈ objectVisits context layer visits field data storage,
      visit.KeysFresh context.config) ∧
      Advancing (writeObject context layer write field data) storage := by
  unfold objectVisits at careful ⊢
  unfold writeObject
  cases named : field.linkedID context.config data with
  | error error => exact ⟨fun _ member => absurd member List.not_mem_nil, .refl numbered⟩
  | ok name =>
  cases name with
  | none =>
      refine ⟨fun _ member => absurd member List.not_mem_nil, ?_⟩
      exact advancing_writeLinkTo numbered below fun _ member => absurd member List.not_mem_nil
  | some id =>
      rw [named] at careful
      dsimp only at careful ⊢
      have linkedBelow : Below storage.rank id := careful (.record id storage) List.mem_cons_self
      have link : Advancing (writeLinkTo layer field.parent field.key (.string id)) storage := by
        refine advancing_writeLinkTo numbered below fun text member => ?_
        rw [List.mem_singleton.mp member]
        exact linkedBelow
      unfold following at careful ⊢
      cases linked : writeLinkTo layer field.parent field.key (.string id) storage with
      | error error middle =>
          refine ⟨fun visit member => ?_, link.bind fun _ _ success => ?_⟩
          · rw [List.mem_singleton.mp member]
            trivial
          · rw [linked] at success
            cases success
      | ok _ middle =>
          rw [linked] at careful
          have advances := link.state
          rw [linked] at advances
          have nested := sound id data middle advances.numbered (linkedBelow.mono advances.grows)
            fun visit member => careful visit (List.mem_cons_of_mem _ member)
          refine ⟨fun visit member => ?_, link.bind fun _ other success _ => ?_⟩
          · rcases List.mem_cons.mp member with rfl | inner
            · trivial
            · exact nested.1 visit inner
          · rw [linked] at success
            cases success
            exact nested.2

end Writing

section Fields

variable {context : WriteContext} {layer : LayerID}
  {write : SubscriptionSelection → String → GraphQLObject → WriteM Unit}
  {visits : SubscriptionSelection → WriteVisits} {parent : String}

theorem writeProperty_sound {field : SelectionField}
    (sound : ∀ selection, field.selection = some selection →
      SoundWrite context.config (write selection) (visits selection))
    {value : GraphQLValue} {storage : InMemoryStorage} (numbered : storage.Numbered)
    (below : Below storage.rank parent)
    (careful : ∀ visit ∈ propertyVisits context layer write visits parent field value storage,
      visit.Careful context.config) :
    (∀ visit ∈ propertyVisits context layer write visits parent field value storage,
      visit.KeysFresh context.config) ∧
      Advancing (writeProperty context layer write parent field value) storage := by
  unfold propertyVisits at careful ⊢
  unfold writeProperty
  dsimp only at careful ⊢
  cases branch : field.selection with
  | none =>
      refine ⟨fun _ member => absurd member List.not_mem_nil, .read ?_⟩
      exact advancing_writeScalar numbered below
  | some selection =>
      rw [branch] at careful
      have nested := sound selection branch
      dsimp only at careful ⊢
      cases value with
      | null =>
          refine ⟨fun _ member => absurd member List.not_mem_nil, .read ?_⟩
          dsimp only
          split
          · exact .refl numbered
          · exact advancing_writeLinkTo numbered below fun _ member =>
              absurd member List.not_mem_nil
      | object data =>
          have object := writeObject_sound nested numbered below careful
          exact ⟨object.1, .read object.2⟩
      | array items =>
          dsimp only at careful ⊢
          split
          · next listed =>
              rw [if_pos listed] at careful
              obtain ⟨links, different⟩ := careful _ List.mem_cons_self
              have displayed := numbered.texts links
              have written := extractNestedListIDs_sound nested numbered displayed
                fun entry member visit inside =>
                  careful visit
                    (List.mem_cons_of_mem _ (List.mem_flatMap.mpr ⟨entry, member, inside⟩))
              have list := @writeList_advancing context layer (write selection) (visits selection)
                _ _ _ _ _ below displayed written
              refine ⟨fun visit member => ?_, .read ?_⟩
              rotate_left
              · rw [if_pos listed]
                exact list
              rcases List.mem_cons.mp member with rfl | inner
              · exact keysFresh_list rfl displayed written.inOrder different
              · obtain ⟨entry, listed, inside⟩ := List.mem_flatMap.mp inner
                exact written.fresh entry listed visit inside
          · next notListed =>
              refine ⟨fun _ member => absurd member List.not_mem_nil, .read ?_⟩
              rw [if_neg notListed]
              exact .refl numbered
      | _ => exact ⟨fun _ member => absurd member List.not_mem_nil, .refl numbered⟩

theorem writeFields_sound {fields : FieldSelections}
    (sound : ∀ selection, SoundWrite context.config (write selection) (visits selection))
    {data : GraphQLObject} {storage : InMemoryStorage} (numbered : storage.Numbered)
    (below : Below storage.rank parent)
    (careful : ∀ visit ∈ fieldsVisits context layer write visits parent fields data storage,
      visit.Careful context.config) :
    (∀ visit ∈ fieldsVisits context layer write visits parent fields data storage,
      visit.KeysFresh context.config) ∧
      Advancing (writeFields context layer write parent fields data) storage := by
  induction data generalizing storage with
  | nil => exact ⟨fun _ member => absurd member List.not_mem_nil, .refl numbered⟩
  | cons property rest ih =>
      obtain ⟨name, value⟩ := property
      unfold fieldsVisits at careful ⊢
      unfold writeFields
      cases selected : fields.lookup name with
      | none =>
          rw [selected] at careful
          exact ih numbered below careful
      | some field =>
          rw [selected] at careful
          dsimp only at careful ⊢
          have first := writeProperty_sound (fun selection _ => sound selection) numbered below
            fun visit member => careful visit (List.mem_append_left _ member)
          unfold following at careful ⊢
          cases result : writeProperty context layer write parent field value storage with
          | error error middle =>
              refine ⟨fun visit member => ?_, first.2.bind fun _ _ success => ?_⟩
              · rw [List.append_nil] at member
                exact first.1 visit member
              · rw [result] at success
                cases success
          | ok _ middle =>
              rw [result] at careful
              have advances := first.2.state
              rw [result] at advances
              have later := ih advances.numbered (below.mono advances.grows)
                fun visit member => careful visit (List.mem_append_right _ member)
              refine ⟨fun visit member => ?_, first.2.bind fun _ other success _ => ?_⟩
              · rcases List.mem_append.mp member with mine | theirs
                · exact first.1 visit mine
                · exact later.1 visit theirs
              · rw [result] at success
                cases success
                exact later.2

end Fields

theorem writeSelection_sound (context : WriteContext) (layer : LayerID)
    (selection : SubscriptionSelection) :
    SoundWrite context.config (writeSelection context layer selection)
      (selectionVisits context layer selection) := by
  have bounded (depth : Nat) (selection : SubscriptionSelection) :
      SoundWrite context.config (writeSelectionWithin context layer depth selection)
        (selectionVisitsWithin context layer depth selection) := by
    induction depth generalizing selection with
    | zero =>
        intro id data storage numbered _ _
        exact ⟨fun _ member => absurd member List.not_mem_nil, .refl numbered⟩
    | succ depth ih =>
        intro parent data storage numbered below careful
        unfold selectionVisitsWithin at careful ⊢
        unfold writeSelectionWithin
        split
        · exact ⟨fun _ member => absurd member List.not_mem_nil, .refl numbered⟩
        · next enabled =>
            rw [if_neg enabled] at careful
            cases typed : getFieldsForType selection (data.property "__typename").text? with
            | none =>
                refine ⟨fun _ member => absurd member List.not_mem_nil, ?_⟩
                dsimp only
                split
                · exact .refl numbered
                · exact .refl numbered
            | some fields =>
                rw [typed] at careful
                exact writeFields_sound ih numbered below careful
  exact bounded selection.depth selection

end Houdini.Runtime.Cache
