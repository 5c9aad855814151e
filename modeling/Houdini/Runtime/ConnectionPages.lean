import Houdini.Runtime.ConnectionCache

/-! Writing the response for a page: the edges go to one end of the list, and the page
information changes on one side. -/

set_option autoImplicit false

namespace Houdini.Runtime

open Cache

theorem Leads.through {context : WriteContext} {layer : LayerID} {rank : Nat}
    {fine : String → String → FieldCell → Prop}
    {spared : (String → String → CellWrite → Prop) → Prop} (enabled : context.disabled = false)
    (closed : ∀ stores, spared stores → Closed fine stores)
    {selection : SubscriptionSelection} {parent target : String} {data : GraphQLObject}
    {field : SelectionField} {value : GraphQLValue}
    (leads : Leads context spared selection parent data target field value)
    {storage final : InMemoryStorage} (keeping : Keeping layer rank fine storage)
    (success : writeSelection context layer selection parent data storage = .ok () final) :
    ∃ middle stored, Keeping layer rank fine middle ∧
      writeProperty context layer (writeSelection context layer) target field value middle =
        .ok () stored ∧
      ∀ ranked fineAfter, (∀ stores, spared stores → Closed fineAfter stores) →
        Keeping layer ranked fineAfter stored → Keeping layer ranked fineAfter final := by
  induction leads generalizing storage final with
  | @here selection fields parent name front back field value typed selected others =>
      have first : ClosedProperties context fine fields parent front :=
        fun other sibling member field found =>
          closed _ (others other sibling (List.mem_append_left _ member) field found)
      obtain ⟨middle, stored, kept, wrote, rest⟩ :=
        writeSelection_through enabled typed selected first keeping success
      refine ⟨middle, stored, kept, wrote, fun ranked fineAfter after made => ?_⟩
      refine rest ranked fineAfter (fun other sibling member field found => ?_) made
      exact after _ (others other sibling (List.mem_append_right _ member) field found)
  | @within selection nested fields parent name record target front back data field found value
      typed selected others branch linked apart below ih =>
      have first : ClosedProperties context fine fields parent front :=
        fun other sibling member field found =>
          closed _ (others other sibling (List.mem_append_left _ member) field found)
      obtain ⟨middle, stored, kept, wrote, rest⟩ :=
        writeSelection_through enabled typed selected first keeping success
      rw [writeProperty_object kept.settled branch linked] at wrote
      have link := closed _ apart parent (field.key context.vars) (.link (.string record))
        ⟨rfl, rfl, rfl⟩ _ (kept.fine _ _)
      obtain ⟨inner, written, keptInner, wroteInner, restInner⟩ := ih (kept.putLink link) wrote
      refine ⟨inner, written, keptInner, wroteInner, fun ranked fineAfter after made => ?_⟩
      refine rest ranked fineAfter (fun other sibling member field found => ?_)
        (restInner ranked fineAfter after made)
      exact after _ (others other sibling (List.mem_append_right _ member) field found)

namespace ConnectionDocument

variable {doc : ConnectionDocument} {connection : EdgeConnection} {layer : LayerID} {ranked : Nat}
  {storage final : InMemoryStorage} {links : Option GraphQLValue} {entries : List EdgeEntry}
  {info : String → Option GraphQLValue} {load : Load}

theorem closed_info {stores : String → String → CellWrite → Prop}
    (apart : ∀ id key written, stores id key written → ¬ doc.InfoCell id key) :
    Closed (doc.InfoCached info) stores :=
  fun id key written stored _ _ sameID member => absurd ⟨sameID, member⟩ (apart id key written stored)

def ParentCached (doc : ConnectionDocument) (id key : String) (cell : FieldCell) : Prop :=
  id = doc.parent → key = doc.key → cell.link = some (.string doc.record)

def PageInfoLinked (doc : ConnectionDocument) (id key : String) (cell : FieldCell) : Prop :=
  id = doc.record → key = "pageInfo" → cell.link = some (.string doc.pageInfoRecord)

theorem closed_parent {stores : String → String → CellWrite → Prop}
    (apart : ∀ id key written, stores id key written → ¬ doc.LinkCell id key) :
    Closed (ParentCached doc) stores :=
  fun id key written stored _ _ sameID sameKey =>
    absurd (.inl ⟨sameID, sameKey⟩) (apart id key written stored)

theorem closed_pageInfoLink {stores : String → String → CellWrite → Prop}
    (apart : ∀ id key written, stores id key written → ¬ doc.LinkCell id key) :
    Closed (PageInfoLinked doc) stores :=
  fun id key written stored _ _ sameID sameKey =>
    absurd (.inr ⟨sameID, sameKey⟩) (apart id key written stored)

theorem pageInfo_scalars {pageInfo : PageInfo} {data : GraphQLObject}
    (object : pageInfo.toValue = .object data) :
    (data.map Prod.fst).Nodup ∧ ∀ name value, (name, value) ∈ data →
      name ∈ pageInfoKeys ∧ value.isArray = false := by
  obtain ⟨startCursor, endCursor, hasNextPage, hasPreviousPage⟩ := pageInfo
  cases object
  have names : pageInfoKeys.Nodup := by decide
  refine ⟨names, fun name value member => ?_⟩
  simp only [List.mem_cons, List.not_mem_nil, or_false, Prod.mk.injEq] at member
  obtain ⟨rfl, rfl⟩ | ⟨rfl, rfl⟩ | ⟨rfl, rfl⟩ | ⟨rfl, rfl⟩ := member
  · exact ⟨by decide, by cases startCursor <;> rfl⟩
  · exact ⟨by decide, by cases endCursor <;> rfl⟩
  · exact ⟨by decide, rfl⟩
  · exact ⟨by decide, rfl⟩

theorem stored_pageInfo (fits : doc.Fits connection) {pageInfo : PageInfo} {id key : String}
    {written : CellWrite}
    (stored : StoresValue (doc.context load) doc.record doc.pageInfoField pageInfo.toValue id key
      written) :
    (id = doc.record ∧ key = "pageInfo" ∧ written = .link (.string doc.pageInfoRecord)) ∨
      (id = doc.pageInfoRecord ∧ key ∈ pageInfoKeys ∧ ∃ value, written = .scalar value) := by
  obtain ⟨data, object⟩ : ∃ data, pageInfo.toValue = .object data := ⟨_, rfl⟩
  have key : doc.pageInfoField.key (doc.context load).vars = "pageInfo" :=
    key_of_keyRaw fits.pageInfoField.1 (by decide) _
  have linkedTo := fits.pageInfoLinked pageInfo data object
  have branch := fits.pageInfoField.2
  have link : (linkedField doc.pageInfoField (doc.context load).vars doc.record
      (.object data)).linkedID (doc.context load).config data = .ok (some doc.pageInfoRecord) := by
    have named : linkedType doc.pageInfoField (.object data) = doc.pageInfoField.type := by
      cases object
      rfl
    unfold linkedField
    rw [key, named]
    exact linkedTo
  rw [object] at stored
  cases stored with
  | scalar leaf | updated leaf =>
      rw [branch] at leaf
      cases leaf
  | object _ linked =>
      rw [link] at linked
      cases linked
      exact .inl ⟨rfl, key, rfl⟩
  | withinObject nested linked stored =>
      rw [link] at linked
      cases linked
      rw [branch] at nested
      cases nested
      cases stored with
      | @property _ _ _ fields name value field _ _ _ typed member selected stored =>
          have listed : fields = pageInfoFields doc.direction.updates := by
            simpa [getFieldsForType] using typed.symm
          subst listed
          have known := ((pageInfo_scalars object).2 name value member).1
          obtain ⟨leafField, found, raw, leaf, -, plain, -⟩ :=
            pageInfoFields_lookup doc.direction.updates known
          obtain rfl : field = leafField := Option.some.inj (selected.symm.trans found)
          have fieldKey : field.key (doc.context load).vars = name := key_of_keyRaw raw plain _
          refine .inr ?_
          cases stored with
          | scalar =>
              rw [fieldKey]
              exact ⟨rfl, known, _, rfl⟩
          | updated =>
              rw [fieldKey]
              exact ⟨rfl, known, _, rfl⟩
          | null branch | object branch | withinObject branch | list branch | withinList branch
          | lost branch =>
              rw [leaf] at branch
              cases branch

structure Caches (doc : ConnectionDocument) (connection : EdgeConnection) (layer : LayerID)
    (links : Option GraphQLValue) (entries : List EdgeEntry)
    (info : String → Option GraphQLValue) (storage : InMemoryStorage) : Prop where
  entered : doc.Entered connection entries storage.rank
  edges : Keeping layer 0 (doc.EdgesCached connection links entries) storage
  info : Keeping layer 0 (doc.InfoCached info) storage

/-- What leads to them is there. -/
structure LinksCached (doc : ConnectionDocument) (storage : InMemoryStorage) : Prop where
  parent : (storage.cell doc.parent doc.key).link = some (.string doc.record)
  pageInfo : (storage.cell doc.record "pageInfo").link = some (.string doc.pageInfoRecord)

theorem Entered.mono {rank other : Nat} (entered : doc.Entered connection entries rank)
    (more : rank ≤ other) : doc.Entered connection entries other := fun entry member => by
  obtain ⟨known, taken, below, placed⟩ := entered entry member
  exact ⟨known, taken, Nat.lt_of_lt_of_le below more, placed⟩

theorem pageInfo_leaves (fits : doc.Fits connection) {pageInfo : PageInfo} :
    Closed (doc.EdgesCached connection links entries)
      (StoresValue (doc.context load) doc.record doc.pageInfoField pageInfo.toValue) := by
  have elsewhere {id key : String} {written : CellWrite}
      (stored : StoresValue (doc.context load) doc.record doc.pageInfoField pageInfo.toValue id key
        written) : key ≠ "edges" ∧ key ≠ "cursor" ∧ key ≠ "node" ∧ key ≠ "id" := by
    obtain ⟨-, rfl, -⟩ | ⟨-, member, -⟩ := stored_pageInfo fits stored
    · decide
    · simp only [pageInfoKeys, List.mem_cons, List.not_mem_nil, or_false] at member
      obtain rfl | rfl | rfl | rfl := member
      all_goals decide
  refine closed_edges ?_ fun entry _ => ?_
  · exact
      { list := fun _ stored => (elsewhere stored).1 rfl
        cursor := fun _ _ _ _ _ _ stored => (elsewhere stored).2.1 rfl
        nodeID := fun _ _ _ _ _ _ _ _ _ _ stored => (elsewhere stored).2.2.2 rfl }
  · exact
      { cursor := fun _ stored => absurd rfl (elsewhere stored).2.1
        node := fun _ stored => absurd rfl (elsewhere stored).2.2.1
        nodeID := fun _ _ _ _ _ stored => absurd rfl (elsewhere stored).2.2.2 }

theorem property_connection (fits : doc.Fits connection) {name : String} {value : GraphQLValue}
    {field : SelectionField}
    (member : (name, value) ∈ doc.connectionData (connection.page load.args))
    (selected : selectedField doc.connectionSelection
      (doc.connectionData (connection.page load.args)) name = some field) :
    (name = "edges" ∧ field = doc.edgesField ∧
        value = .array ((connection.page load.args).edges.map .object)) ∨
      (name = "pageInfo" ∧ field = doc.pageInfoField ∧
        value = (EdgePage.pageInfo (connection.page load.args)).toValue) ∨
      doc.Spares connection (StoresValue (doc.context load) doc.record field value) := by
  have shape := fits.shape load
  have property : (doc.connectionData (connection.page load.args)).property name = value := by
    have found := (OrderedMap.mem_iff_lookup shape.names).mp member
    unfold GraphQLObject.property
    rw [found]
    rfl
  by_cases isEdges : name = "edges"
  · subst isEdges
    rw [shape.edges] at property
    rw [shape.edgesField] at selected
    exact .inl ⟨rfl, (Option.some.inj selected).symm, property.symm⟩
  · by_cases isPageInfo : name = "pageInfo"
    · subst isPageInfo
      rw [shape.pageInfo] at property
      rw [shape.pageInfoField] at selected
      exact .inr (.inl ⟨rfl, (Option.some.inj selected).symm, property.symm⟩)
    · exact .inr (.inr (shape.others name value member isEdges isPageInfo field selected))

theorem closed_connection (fits : doc.Fits connection) {name : String}
    {fine : String → String → FieldCell → Prop}
    (spares : ∀ stores, doc.Spares connection stores → Closed fine stores)
    (edges : name = "edges" ∨ Closed fine (StoresValue (doc.context load) doc.record
      doc.edgesField (.array ((connection.page load.args).edges.map .object))))
    (pageInfo : name = "pageInfo" ∨ Closed fine (StoresValue (doc.context load) doc.record
      doc.pageInfoField (EdgePage.pageInfo (connection.page load.args)).toValue)) :
    ClosedOthers (doc.context load) fine doc.connectionSelection doc.record name
      (doc.connectionData (connection.page load.args)) := by
  intro other value member different field selected
  obtain ⟨rfl, rfl, rfl⟩ | ⟨rfl, rfl, rfl⟩ | spared := property_connection fits member selected
  · exact edges.resolve_left different.symm
  · exact pageInfo.resolve_left different.symm
  · exact spares _ spared

theorem linkConnection_cached (fits : doc.Fits connection) {rank : Nat}
    (entered : doc.Entered connection entries rank)
    (keeping : Keeping layer ranked (fun id key cell =>
      doc.EdgesCached connection links entries id key cell ∧ doc.InfoCached info id key cell)
      storage) :
    Keeping layer ranked (fun id key cell => doc.EdgesCached connection links entries id key cell ∧
      doc.InfoCached info id key cell ∧ ParentCached doc id key cell)
      (storage.putLink doc.parent doc.key (.string doc.record)) where
  settled := keeping.settled.putLink _ _ _
  ranked := keeping.ranked
  fine := by
    obtain ⟨notRecord, notPageInfo, notID, notEdge⟩ := fits.parentApart
    intro id key
    obtain ⟨edges, pageInfo⟩ := keeping.fine id key
    rw [InMemoryStorage.cell_putLink]
    split
    · rename_i same
      obtain ⟨rfl, rfl⟩ := same
      have list : doc.ListCached connection doc.parent doc.key
          ((storage.cell doc.parent doc.key).after (.link (.string doc.record))) links := by
        constructor
        · exact fun sameID => absurd sameID notRecord
        · intro rank edge record member placed sameID sameKey
          rw [sameID, sameKey] at notEdge
          exact absurd (.cursor member placed) notEdge
        · exact fun _ _ _ _ _ _ _ _ _ _ sameKey => absurd sameKey notID
      refine ⟨⟨list, fun entry member => ?_⟩, fun sameID => absurd sameID notPageInfo,
        fun _ _ => rfl⟩
      obtain ⟨known, _, -, placed⟩ := entered entry member
      constructor
      · intro sameID sameKey
        rw [sameID, sameKey] at notEdge
        exact absurd (.cursor known placed) notEdge
      · intro sameID sameKey
        rw [sameID, sameKey] at notEdge
        exact absurd (.node known placed) notEdge
      · exact fun _ _ _ _ _ sameKey => absurd sameKey notID
    · rename_i elsewhere
      exact ⟨edges, pageInfo, fun sameID sameKey => absurd ⟨sameID, sameKey⟩ elsewhere⟩

theorem writeConnection_cached (fits : doc.Fits connection) (distinct : DistinctNodes connection)
    (loadFits : doc.LoadFits load entries) (linked : Linked links entries)
    (known : (connection.page load.args).edges ⊆ connection.edges)
    (fresh : (entries.map Prod.fst ++ (connection.page load.args).edges).Nodup)
    (entered : doc.Entered connection entries ranked)
    (edges : Keeping layer ranked (doc.EdgesCached connection links entries) storage)
    (success : writeSelection (doc.context load) layer doc.connectionSelection doc.record
      (doc.connectionData (connection.page load.args)) storage = .ok () final) :
    ∃ added : List EdgeEntry, added.map Prod.fst = (connection.page load.args).edges ∧
      doc.Entered connection (combine load entries added) final.rank ∧
      Keeping layer ranked (doc.EdgesCached connection
        (some (.array (recordLinks (combine load entries added))))
        (combine load entries added)) final := by
  have shape := fits.shape load
  have others {links : Option GraphQLValue} {entries : List EdgeEntry} {rank : Nat}
      (entered : doc.Entered connection entries rank) :
      ClosedOthers (doc.context load) (doc.EdgesCached connection links entries)
        doc.connectionSelection doc.record "edges"
        (doc.connectionData (connection.page load.args)) :=
    closed_connection fits (fun _ spares => spares.closed_edges entered) (.inl rfl)
      (.inr (pageInfo_leaves fits))
  obtain ⟨middle, stored, kept, wrote, rest⟩ := writeSelection_named rfl shape.edgesField
    shape.edges nofun shape.names (others entered) edges success
  obtain ⟨added, page, enteredAll, cached⟩ :=
    writeEdges_cached fits distinct loadFits linked known fresh entered kept wrote
  have last := rest stored.rank _ (others enteredAll)
    { settled := cached.settled, ranked := Nat.le_refl _, fine := cached.fine }
  refine ⟨added, page, enteredAll.mono last.ranked, ?_⟩
  exact
    { settled := last.settled
      ranked := Nat.le_trans cached.ranked last.ranked
      fine := last.fine }

theorem writePageInfo_cached (fits : doc.Fits connection)
    (keeping : Keeping layer ranked (doc.InfoCached info) storage)
    (success : writeSelection (doc.context load) layer doc.connectionSelection doc.record
      (doc.connectionData (connection.page load.args)) storage = .ok () final)
    {data : GraphQLObject}
    (object : (EdgePage.pageInfo (connection.page load.args)).toValue = .object data) :
    Keeping layer ranked (fun id key cell => doc.InfoCached
      (updatedInfo doc.direction.updates load.applyUpdates info data) id key cell ∧
      PageInfoLinked doc id key cell) final := by
  have shape := fits.shape load
  have others {info : String → Option GraphQLValue} :
      ClosedOthers (doc.context load) (doc.InfoCached info) doc.connectionSelection doc.record
        "pageInfo" (doc.connectionData (connection.page load.args)) :=
    closed_connection fits (fun _ spares => closed_info spares.pageInfo)
      (.inr (closed_info fun id key written stored =>
        (fits.edgesApart load id key written stored).1)) (.inl rfl)
  have othersLink : ClosedOthers (doc.context load) (PageInfoLinked doc) doc.connectionSelection
      doc.record "pageInfo" (doc.connectionData (connection.page load.args)) :=
    closed_connection fits (fun _ spares => closed_pageInfoLink spares.links)
      (.inr (closed_pageInfoLink fun id key written stored =>
        (fits.edgesApart load id key written stored).2)) (.inl rfl)
  obtain ⟨middle, stored, kept, wrote, rest⟩ := writeSelection_named rfl shape.pageInfoField
    shape.pageInfo nofun shape.names others keeping success
  refine rest ranked _ (fun other value member different field selected id key written stored cell
    cached => ⟨others other value member different field selected id key written stored cell
      cached.1, othersLink other value member different field selected id key written stored cell
      cached.2⟩) ?_
  have key : doc.pageInfoField.key (doc.context load).vars = "pageInfo" :=
    key_of_keyRaw fits.pageInfoField.1 (by decide) _
  have named : linkedType doc.pageInfoField (.object data) = doc.pageInfoField.type := by
    cases object
    rfl
  have link : LinkedField.linkedID
      { parent := doc.record, key := doc.pageInfoField.key (doc.context load).vars
        linkedType := linkedType doc.pageInfoField (.object data)
        abstract := doc.pageInfoField.abstract } (doc.context load).config data =
        .ok (some doc.pageInfoRecord) := by
    rw [key, named]
    exact fits.pageInfoLinked _ data object
  rw [object, writeProperty_object kept.settled fits.pageInfoField.2 link, key] at wrote
  have before : Keeping layer ranked (doc.InfoCached info)
      (middle.putLink doc.record "pageInfo" (.string doc.pageInfoRecord)) := by
    refine { settled := kept.settled.putLink _ _ _, ranked := kept.ranked, fine := ?_ }
    intro id name sameID member
    have other : ¬ (id = doc.record ∧ name = "pageInfo") := by
      rintro ⟨-, rfl⟩
      exact absurd member (by decide)
    rw [InMemoryStorage.cell_putLink, if_neg other]
    exact kept.fine id name sameID member
  have beforeLink : Keeping layer ranked (PageInfoLinked doc)
      (middle.putLink doc.record "pageInfo" (.string doc.pageInfoRecord)) := by
    refine { settled := kept.settled.putLink _ _ _, ranked := kept.ranked, fine := ?_ }
    intro id name sameID sameKey
    rw [InMemoryStorage.cell_putLink, if_pos ⟨sameID, sameKey⟩]
    rfl
  have closedLink : Closed (PageInfoLinked doc) (Stores (doc.context load)
      { fields := pageInfoFields doc.direction.updates } doc.pageInfoRecord data) := by
    intro id name written stores cell cached sameID sameKey
    have stored : StoresValue (doc.context load) doc.record doc.pageInfoField
        (EdgePage.pageInfo (connection.page load.args)).toValue id name written := by
      rw [object]
      exact .withinObject fits.pageInfoField.2 link stores
    obtain ⟨-, -, rfl⟩ | ⟨-, member, -⟩ := stored_pageInfo fits stored
    · rfl
    · rw [sameKey] at member
      exact absurd member (by decide)
  have linkKept := writeSelection_keeps (doc.context load) _ _ _ closedLink _ beforeLink
  rw [wrote] at linkKept
  obtain ⟨names, scalars⟩ := pageInfo_scalars object
  have enabled : (doc.context load).disabled = false := rfl
  rw [writeSelection_eq, enabled, if_neg Bool.false_ne_true] at wrote
  have infoKept := writeInfo_cached scalars names before wrote
  exact
    { settled := linkKept.settled
      ranked := linkKept.ranked
      fine := fun id name => ⟨infoKept.fine id name, linkKept.fine id name⟩ }

theorem connection_leaves_parent (fits : doc.Fits connection) :
    Closed (ParentCached doc) (Stores (doc.context load) doc.connectionSelection doc.record
      (doc.connectionData (connection.page load.args))) := by
  obtain ⟨notRecord, notPageInfo, -, -⟩ := fits.parentApart
  intro id key written stores cell cached sameID sameKey
  cases stores with
  | @property _ _ _ fields name value field _ _ _ typed member found stored =>
      have selected : selectedField doc.connectionSelection
          (doc.connectionData (connection.page load.args)) name = some field :=
        Option.bind_eq_some_iff.mpr ⟨fields, typed, found⟩
      obtain ⟨rfl, rfl, rfl⟩ | ⟨rfl, rfl, rfl⟩ | spares := property_connection fits member selected
      · exact absurd (.inl ⟨sameID, sameKey⟩) (fits.edgesApart load id key written stored).2
      · obtain ⟨isRecord, -, -⟩ | ⟨isPageInfo, -, -⟩ := stored_pageInfo fits stored
        · exact absurd (sameID.symm.trans isRecord) notRecord
        · exact absurd (sameID.symm.trans isPageInfo) notPageInfo
      · exact absurd (.inl ⟨sameID, sameKey⟩) (spares.links id key written stored)

/-- Writing the response for a page puts its edges in their place, and updates the page
information. -/
theorem writePage_cached (fits : doc.Fits connection) (distinct : DistinctNodes connection)
    (loadFits : doc.LoadFits load entries) (linked : Linked links entries)
    (known : (connection.page load.args).edges ⊆ connection.edges)
    (fresh : (entries.map Prod.fst ++ (connection.page load.args).edges).Nodup)
    (caches : Caches doc connection layer links entries info storage)
    (success : writeSelection (doc.context load) layer doc.selection rootID
      (doc.answer connection load) storage = .ok () final)
    {data : GraphQLObject}
    (object : (EdgePage.pageInfo (connection.page load.args)).toValue = .object data) :
    ∃ added : List EdgeEntry, added.map Prod.fst = (connection.page load.args).edges ∧
      Caches doc connection layer (some (.array (recordLinks (combine load entries added))))
        (combine load entries added)
        (updatedInfo doc.direction.updates load.applyUpdates info data) final ∧
      LinksCached doc final := by
  have keeping : Keeping layer storage.rank (fun id key cell =>
      doc.EdgesCached connection links entries id key cell ∧ doc.InfoCached info id key cell)
      storage :=
    { settled := caches.edges.settled
      ranked := Nat.le_refl _
      fine := fun id key => ⟨caches.edges.fine id key, caches.info.fine id key⟩ }
  have closed (stores : String → String → CellWrite → Prop)
      (spares : doc.Spares connection stores) :
      Closed (fun id key cell => doc.EdgesCached connection links entries id key cell ∧
        doc.InfoCached info id key cell) stores :=
    fun id key written stored cell cached =>
      ⟨spares.closed_edges caches.entered id key written stored cell cached.1,
        closed_info spares.pageInfo id key written stored cell cached.2⟩
  have enabled : (doc.context load).disabled = false := rfl
  obtain ⟨middle, stored, kept, wrote, rest⟩ :=
    (fits.leads load).through enabled closed keeping success
  have parentKey : doc.field.key (doc.context load).vars = doc.key := fits.key load.args
  have link : LinkedField.linkedID
      { parent := doc.parent, key := doc.field.key (doc.context load).vars
        linkedType := linkedType doc.field
          (.object (doc.connectionData (connection.page load.args)))
        abstract := doc.field.abstract } (doc.context load).config
        (doc.connectionData (connection.page load.args)) = .ok (some doc.record) :=
    (fits.shape load).linked
  rw [writeProperty_object kept.settled fits.branch link, parentKey] at wrote
  have linking := linkConnection_cached fits caches.entered kept
  have edgesLinked : Keeping layer storage.rank (doc.EdgesCached connection links entries)
      (middle.putLink doc.parent doc.key (.string doc.record)) :=
    { settled := linking.settled
      ranked := linking.ranked
      fine := fun id key => (linking.fine id key).1 }
  have infoLinked : Keeping layer 0 (doc.InfoCached info)
      (middle.putLink doc.parent doc.key (.string doc.record)) :=
    { settled := linking.settled
      ranked := Nat.zero_le _
      fine := fun id key => (linking.fine id key).2.1 }
  have parentLinked : Keeping layer 0 (ParentCached doc)
      (middle.putLink doc.parent doc.key (.string doc.record)) :=
    { settled := linking.settled
      ranked := Nat.zero_le _
      fine := fun id key => (linking.fine id key).2.2 }
  obtain ⟨added, page, entered, edges⟩ :=
    writeConnection_cached fits distinct loadFits linked known fresh caches.entered edgesLinked wrote
  have pageInfo := writePageInfo_cached fits infoLinked wrote object
  have parent := writeSelection_keeps (doc.context load) _ _ _ (connection_leaves_parent fits) _
    parentLinked
  rw [wrote] at parent
  have edgesLast := rest stored.rank _ (fun _ spares => spares.closed_edges entered)
    { settled := edges.settled, ranked := Nat.le_refl _, fine := edges.fine }
  have infoLast := rest 0 _ (fun _ spares id key written stored cell cached =>
    ⟨closed_info spares.pageInfo id key written stored cell cached.1,
      closed_pageInfoLink spares.links id key written stored cell cached.2⟩) pageInfo
  have parentLast := rest 0 _ (fun _ spares => closed_parent spares.links) parent
  refine ⟨added, page, ?_, parentLast.fine doc.parent doc.key rfl rfl,
    (infoLast.fine doc.record "pageInfo").2 rfl rfl⟩
  exact
    { entered := entered.mono edgesLast.ranked
      edges :=
        { settled := edgesLast.settled, ranked := Nat.zero_le _, fine := edgesLast.fine }
      info :=
        { settled := infoLast.settled, ranked := Nat.zero_le _
          fine := fun id key => (infoLast.fine id key).1 } }

end ConnectionDocument

end Houdini.Runtime
