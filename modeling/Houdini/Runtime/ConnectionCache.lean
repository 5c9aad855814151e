import Houdini.Runtime.ConnectionWrites

/-! What the cache knows of a connection, and how a page that is written to it adds to that. -/

set_option autoImplicit false

namespace Houdini.Runtime

open Cache

namespace ConnectionDocument

variable (doc : ConnectionDocument) (connection : EdgeConnection)

abbrev EdgeEntry := GraphQLObject × String

section Entries

variable (entry : EdgeEntry) (id key : String) (cell : FieldCell)

def CursorCached : Prop :=
  id = entry.2 → key = "cursor" → cell.scalar = some (.string (connection.cursor entry.1))

def NodeCached : Prop :=
  id = entry.2 → key = "node" →
    (entry.1.property "node" = .null → cell.value = .null) ∧
      ∀ node, doc.NodeAt entry.2 entry.1 node → cell.link = some (.string node)

def NodeIDCached : Prop :=
  ∀ node value, doc.NodeAt entry.2 entry.1 node → nodeID entry.1 = some value → id = node →
    key = "id" → cell.scalar = some value

structure EntryCached : Prop where
  cursor : CursorCached connection entry id key cell
  node : doc.NodeCached entry id key cell
  nodeID : doc.NodeIDCached entry id key cell

structure ListCached (links : Option GraphQLValue) : Prop where
  list : id = doc.record → key = "edges" → cell = { link := links }
  cursor : ∀ rank edge record, edge ∈ connection.edges → doc.EdgeAt rank edge record →
    id = record → key = "cursor" → cell.link = none
  nodeID : ∀ rank edge record node value, edge ∈ connection.edges → doc.EdgeAt rank edge record →
    doc.NodeAt record edge node → nodeID edge = some value → id = node → key = "id" →
    cell.link = none

end Entries

def EdgesCached (links : Option GraphQLValue) (entries : List EdgeEntry) (id key : String)
    (cell : FieldCell) : Prop :=
  doc.ListCached connection id key cell links ∧
    ∀ entry ∈ entries, doc.EntryCached connection entry id key cell

def Entered (entries : List EdgeEntry) (rank : Nat) : Prop :=
  ∀ entry ∈ entries, entry.1 ∈ connection.edges ∧ ∃ taken < rank, doc.EdgeAt taken entry.1 entry.2

/-- An edge gets nothing but what it has. -/
structure Agrees (entry : EdgeEntry) (stores : String → String → CellWrite → Prop) : Prop where
  cursor : ∀ written, stores entry.2 "cursor" written →
    written = .scalar (.string (connection.cursor entry.1))
  node : ∀ written, stores entry.2 "node" written →
    (entry.1.property "node" = .null → written = .link .null) ∧
      ∀ node, doc.NodeAt entry.2 entry.1 node → written = .link (.string node)
  nodeID : ∀ node value written, doc.NodeAt entry.2 entry.1 node → nodeID entry.1 = some value →
    stores node "id" written → written = .scalar value

structure LeavesList (stores : String → String → CellWrite → Prop) : Prop where
  list : ∀ written, ¬ stores doc.record "edges" written
  cursor : ∀ rank edge record link, edge ∈ connection.edges → doc.EdgeAt rank edge record →
    ¬ stores record "cursor" (.link link)
  nodeID : ∀ rank edge record node value link, edge ∈ connection.edges →
    doc.EdgeAt rank edge record → doc.NodeAt record edge node → nodeID edge = some value →
    ¬ stores node "id" (.link link)

section Closed

variable {doc connection} {entry : EdgeEntry} {stores : String → String → CellWrite → Prop}

theorem Agrees.closed_cursor (agrees : doc.Agrees connection entry stores) :
    Closed (CursorCached connection entry) stores := by
  intro id key written stored cell _ sameID sameKey
  subst sameID sameKey
  rw [agrees.cursor written stored]
  rfl

theorem Agrees.closed_node (agrees : doc.Agrees connection entry stores) :
    Closed (doc.NodeCached entry) stores := by
  intro id key written stored cell _ sameID sameKey
  subst sameID sameKey
  obtain ⟨null, linked⟩ := agrees.node written stored
  constructor
  · intro nothing
    rw [null nothing]
    exact FieldCell.value_of_link _ nofun
  · intro node placed
    rw [linked node placed]
    rfl

theorem Agrees.closed_nodeID (agrees : doc.Agrees connection entry stores) :
    Closed (doc.NodeIDCached entry) stores := by
  intro id key written stored cell _ node value placed identified sameID sameKey
  subst sameID sameKey
  rw [agrees.nodeID _ value written placed identified stored]
  rfl

theorem Agrees.closed (agrees : doc.Agrees connection entry stores) :
    Closed (doc.EntryCached connection entry) stores :=
  fun id key written stored cell cached =>
    { cursor := agrees.closed_cursor id key written stored cell cached.cursor
      node := agrees.closed_node id key written stored cell cached.node
      nodeID := agrees.closed_nodeID id key written stored cell cached.nodeID }

theorem LeavesList.closed (leaves : doc.LeavesList connection stores) (links : Option GraphQLValue) :
    Closed (fun id key cell => doc.ListCached connection id key cell links) stores := by
  have unlinked (cell : FieldCell) (written : CellWrite) (empty : cell.link = none)
      (other : ∀ link, written ≠ .link link) : (cell.after written).link = none := by
    cases written with
    | link value => exact absurd rfl (other value)
    | scalar => exact empty
    | remove => rfl
  intro id key written stored cell cached
  constructor
  · intro sameID sameKey
    subst sameID sameKey
    exact absurd stored (leaves.list written)
  · intro rank edge record member placed sameID sameKey
    subst sameID sameKey
    refine unlinked cell written (cached.cursor rank edge _ member placed rfl rfl) ?_
    intro link same
    subst same
    exact leaves.cursor rank edge _ link member placed stored
  · intro rank edge record node value member placed reached identified sameID sameKey
    subst sameID sameKey
    refine unlinked cell written
      (cached.nodeID rank edge record _ value member placed reached identified rfl rfl) ?_
    intro link same
    subst same
    exact leaves.nodeID rank edge record _ value link member placed reached identified stored

theorem closed_edges {links : Option GraphQLValue} {entries : List EdgeEntry}
    (leaves : doc.LeavesList connection stores)
    (agrees : ∀ entry ∈ entries, doc.Agrees connection entry stores) :
    Closed (doc.EdgesCached connection links entries) stores :=
  fun id key written stored cell cached =>
    ⟨leaves.closed links id key written stored cell cached.1, fun entry member =>
      (agrees entry member).closed id key written stored cell (cached.2 entry member)⟩

theorem Spares.leavesList (spares : doc.Spares connection stores) :
    doc.LeavesList connection stores where
  list := fun written stored => spares.edges _ _ written stored .list
  cursor := fun _ _ _ _ member placed stored =>
    spares.edges _ _ _ stored (.cursor member placed)
  nodeID := by
    intro rank edge record node value link member placed reached identified stored
    cases spares.nodeIDs rank edge record node value _ member placed reached identified stored

theorem Spares.agrees (spares : doc.Spares connection stores) {rank : Nat}
    (member : entry.1 ∈ connection.edges) (placed : doc.EdgeAt rank entry.1 entry.2) :
    doc.Agrees connection entry stores where
  cursor := fun written stored => absurd (.cursor member placed) (spares.edges _ _ written stored)
  node := fun written stored => absurd (.node member placed) (spares.edges _ _ written stored)
  nodeID := fun node value written reached identified stored =>
    spares.nodeIDs rank _ _ node value written member placed reached identified stored

theorem Spares.closed_edges (spares : doc.Spares connection stores) {rank : Nat}
    {links : Option GraphQLValue} {entries : List EdgeEntry}
    (entered : doc.Entered connection entries rank) :
    Closed (doc.EdgesCached connection links entries) stores :=
  ConnectionDocument.closed_edges spares.leavesList fun entry member => by
    obtain ⟨known, taken, _, placed⟩ := entered entry member
    exact spares.agrees known placed

end Closed

section Edge

variable {doc connection} {load : Load} {rank : Nat} {edge : GraphQLObject} {record : String}

theorem EdgeApart.agrees_other (apart : doc.EdgeApart connection load rank edge record)
    {entry : EdgeEntry} {taken : Nat} (member : entry.1 ∈ connection.edges)
    (placed : doc.EdgeAt taken entry.1 entry.2) (different : edge ≠ entry.1)
    (ranked : rank ≠ taken) (separate : record ≠ entry.2) :
    doc.Agrees connection entry
      (Stores (doc.context load) doc.edgeSelection record edge) where
  cursor := fun written stored =>
    absurd (apart.own _ _ written stored (.cursor member placed)).1.symm separate
  node := fun written stored =>
    absurd (apart.own _ _ written stored (.node member placed)).1.symm separate
  nodeID := fun node value written reached identified stored =>
    apart.nodeIDs taken _ _ node value written member
      (iff_of_false different ranked) placed reached identified stored

theorem EdgeApart.agrees_self (apart : doc.EdgeApart connection load rank edge record)
    (member : edge ∈ connection.edges) (placed : doc.EdgeAt rank edge record) :
    doc.Agrees connection (edge, record)
      (Stores (doc.context load) doc.edgeSelection record edge) where
  cursor := by
    intro written stored
    obtain ⟨-, ⟨-, same⟩ | ⟨other, -⟩⟩ := apart.own _ _ written stored (.cursor member placed)
    · exact same
    · exact absurd other (by decide)
  node := by
    intro written stored
    obtain ⟨-, ⟨other, -⟩ | ⟨-, same⟩⟩ := apart.own _ _ written stored (.node member placed)
    · exact absurd other (by decide)
    · exact same
  nodeID := fun node value written reached identified stored =>
    apart.nodeIDs rank _ _ node value written member (iff_of_true rfl rfl) placed reached identified
      stored

theorem EdgeApart.leavesList (apart : doc.EdgeApart connection load rank edge record) :
    doc.LeavesList connection (Stores (doc.context load) doc.edgeSelection record edge) where
  list := by
    intro written stored
    obtain ⟨-, ⟨other, -⟩ | ⟨other, -⟩⟩ := apart.own _ _ written stored .list
    · exact absurd other (by decide)
    · exact absurd other (by decide)
  cursor := by
    intro rank edge record link member placed stored
    obtain ⟨-, ⟨-, scalar⟩ | ⟨other, -⟩⟩ := apart.own _ _ _ stored (.cursor member placed)
    · cases scalar
    · exact absurd other (by decide)
  nodeID := fun taken _ _ node value link member placed reached identified =>
    apart.unlinked taken _ _ node value link member placed reached identified

theorem key_of_keyRaw {field : SelectionField} {key : String} (raw : field.keyRaw = key)
    (plain : key.toList.contains '$' = false) (vars : GraphQLObject) : field.key vars = key := by
  unfold SelectionField.key evaluateKey
  rw [raw, if_neg (by rw [plain]; exact Bool.false_ne_true)]

section Written

variable {layer : LayerID} {ranked : Nat} {storage final : InMemoryStorage}

theorem writeLeaf_cached {selection : SubscriptionSelection} {parent name : String}
    {data : GraphQLObject} {value : GraphQLValue} {field : SelectionField}
    {fine : String → String → FieldCell → Prop} {context : WriteContext}
    (enabled : context.disabled = false)
    (selected : selectedField selection data name = some field) (leaf : IsLeaf field name)
    (plain : name.toList.contains '$' = false) (named : name ≠ "__typename")
    (found : data.property name = value) (defined : value ≠ .undefined)
    (before : Closed fine (Stores context selection parent data))
    (same : ∀ written, Stores context selection parent data parent name written →
      written = .scalar value)
    (keeping : Keeping layer ranked fine storage)
    (success : writeSelection context layer selection parent data storage = .ok () final) :
    (final.cell parent name).scalar = some value := by
  have after : Closed (fun id key cell => id = parent → key = name → cell.scalar = some value)
      (Stores context selection parent data) := by
    intro id key written stored cell _ sameID sameKey
    subst sameID sameKey
    rw [same written stored]
    rfl
  have key := key_of_keyRaw leaf.keyRaw plain context.vars
  have kept := @writeSelection_property _ _ _ _ ranked _ _ _ _ _ _ _
    enabled selected found defined before
    after ?_ _ _ keeping success
  · exact kept.fine parent name rfl rfl
  · intro storage final kept wrote
    have unchanged : scalarValue context.applyUpdates field.updates
        (storage.value parent (field.key context.vars)) value = .ok value := by
      rw [leaf.updates]
      rfl
    rw [writeProperty_scalar kept.settled leaf.leaf (by rw [key]; exact named) unchanged,
      key] at wrote
    cases wrote
    exact
      { settled := kept.settled.putScalar parent name value
        ranked := kept.ranked
        fine := by
          intro id name' sameID sameKey
          rw [InMemoryStorage.cell_putScalar, if_pos ⟨sameID, sameKey⟩]
          rfl }

theorem NodeAt.unique {node other : String} (reached : doc.NodeAt record edge node)
    (otherReached : doc.NodeAt record edge other) : node = other := by
  obtain ⟨field, object, selected, found, linked⟩ := reached
  obtain ⟨otherField, otherObject, otherSelected, otherFound, otherLinked⟩ := otherReached
  obtain rfl : field = otherField := Option.some.inj (selected.symm.trans otherSelected)
  obtain rfl : object = otherObject := by simpa using found.symm.trans otherFound
  simpa using linked.symm.trans otherLinked

theorem writeNode_cached (fits : doc.EdgeFits connection edge)
    (placed : doc.EdgeAt rank edge record)
    (agrees : doc.Agrees connection (edge, record)
      (Stores (doc.context load) doc.edgeSelection record edge))
    (keeping : Keeping layer ranked (fun _ _ _ => True) storage)
    (success : writeSelection (doc.context load) layer doc.edgeSelection record edge storage =
      .ok () final) :
    Keeping layer ranked (fun id key cell => doc.NodeCached (edge, record) id key cell ∧
      doc.NodeIDCached (edge, record) id key cell) final := by
  obtain ⟨field, selection, selected, raw, branch, identified⟩ := fits.nodeField
  have key : field.key (doc.context load).vars = "node" := key_of_keyRaw raw (by decide) _
  have closed : Closed (fun id key cell => doc.NodeCached (edge, record) id key cell ∧
      doc.NodeIDCached (edge, record) id key cell)
      (Stores (doc.context load) doc.edgeSelection record edge) :=
    fun id key written stored cell cached =>
      ⟨agrees.closed_node id key written stored cell cached.1,
        agrees.closed_nodeID id key written stored cell cached.2⟩
  obtain nothing | ⟨node, found⟩ := fits.node
  · have unreached (id : String) : ¬ doc.NodeAt record edge id := by
      rintro ⟨_, _, _, found, _⟩
      rw [nothing] at found
      cases found
    refine writeSelection_property rfl selected nothing nofun (fun _ _ _ _ _ _ => trivial) closed ?_
      keeping success
    intro storage final kept wrote
    rw [writeProperty_null kept.settled branch, key] at wrote
    have cached : NodeCached doc (edge, record) record "node" (final.cell record "node") ∧
        Keeping layer ranked (fun _ _ _ => True) final := by
      by_cases null : storage.value record "node" = .null
      · rw [if_pos null] at wrote
        cases wrote
        rw [kept.settled.value_eq] at null
        exact ⟨fun _ _ => ⟨fun _ => null, fun id reached => absurd reached (unreached id)⟩, kept⟩
      · rw [if_neg null] at wrote
        cases wrote
        refine ⟨fun _ _ => ⟨fun _ => ?_, fun id reached => absurd reached (unreached id)⟩,
          kept.putLink trivial⟩
        rw [InMemoryStorage.cell_putLink, if_pos ⟨rfl, rfl⟩]
        exact FieldCell.value_of_link _ GraphQLValue.noConfusion
    refine { settled := cached.2.settled, ranked := cached.2.ranked, fine := ?_ }
    intro id name
    refine ⟨fun sameID sameKey => ?_, fun id _ reached => absurd reached (unreached id)⟩
    subst sameID sameKey
    exact cached.1 rfl rfl
  · obtain ⟨_, placed', reached⟩ := fits.placed rank
    obtain rfl : record = _ := by simpa using placed.symm.trans placed'
    obtain ⟨id, reached⟩ := reached node found
    refine writeSelection_property rfl selected found nofun (fun _ _ _ _ _ _ => trivial) closed ?_
      keeping success
    intro storage final kept wrote
    obtain ⟨linkField, object, linkSelected, linkFound, linked⟩ := reached
    obtain rfl : field = linkField := Option.some.inj (selected.symm.trans linkSelected)
    obtain rfl : node = object := by simpa using found.symm.trans linkFound
    have reached : doc.NodeAt record edge id :=
      ⟨field, node, selected, found, linked⟩
    have link : LinkedField.linkedID
        { parent := record, key := field.key (doc.context load).vars
          linkedType := linkedType field (.object node), abstract := field.abstract }
        (doc.context load).config node = .ok (some id) := by
      rw [key]
      exact linked
    rw [writeProperty_object kept.settled branch link, key] at wrote
    obtain ⟨defined, idField, idSelected, leaf⟩ := identified node found
    have lift {name written} (stored : Stores (doc.context load) selection id node id name written) :
        Stores (doc.context load) doc.edgeSelection record edge id name written :=
      stored.within selected found branch link
    have inside : Closed (doc.NodeCached (edge, record))
        (Stores (doc.context load) selection id node) :=
      fun id key written stored =>
        agrees.closed_node id key written (stored.within selected found branch link)
    have before : Keeping layer ranked (doc.NodeCached (edge, record))
        (storage.putLink record "node" (.string id)) :=
      { settled := kept.settled.putLink record "node" _
        ranked := kept.ranked
        fine := by
          intro other name sameID sameKey
          subst sameID sameKey
          rw [InMemoryStorage.cell_putLink, if_pos ⟨rfl, rfl⟩]
          refine ⟨fun nothing => ?_, fun other otherReached => ?_⟩
          · rw [found] at nothing
            cases nothing
          · rw [reached.unique otherReached]
            rfl }
    have value : nodeID edge = some (GraphQLObject.property node "id") := by
      unfold nodeID
      rw [found]
    have last := writeSelection_keeps (doc.context load) selection id node inside _ before
    rw [wrote] at last
    have scalar := writeLeaf_cached rfl idSelected leaf (by decide) (by decide) rfl defined inside
      (fun written stored => agrees.nodeID id _ written reached value (lift stored)) before wrote
    refine { settled := last.settled, ranked := last.ranked, fine := fun other name => ?_ }
    refine ⟨last.fine other name, fun otherNode otherValue otherReached otherIdentified => ?_⟩
    intro sameID sameKey
    subst sameID sameKey
    obtain rfl := reached.unique otherReached
    rw [scalar]
    exact value.symm.trans otherIdentified

theorem writeEdge_cached {links : Option GraphQLValue} {entries : List EdgeEntry}
    (fits : doc.Fits connection) (member : edge ∈ connection.edges)
    (placed : doc.EdgeAt rank edge record)
    (others : ∀ entry ∈ entries, entry.1 ∈ connection.edges ∧ edge ≠ entry.1 ∧
      ∃ taken, rank ≠ taken ∧ doc.EdgeAt taken entry.1 entry.2)
    (keeping : Keeping layer ranked (doc.EdgesCached connection links entries) storage)
    (success : writeSelection (doc.context load) layer doc.edgeSelection record edge storage =
      .ok () final) :
    Keeping layer ranked (doc.EdgesCached connection links (entries ++ [(edge, record)])) final := by
  have apart := fits.edgeApart load rank edge member record placed
  have agrees := apart.agrees_self member placed
  have others_agree (entry : EdgeEntry) (held : entry ∈ entries) :
      doc.Agrees connection entry (Stores (doc.context load) doc.edgeSelection record edge) := by
    obtain ⟨known, different, taken, apartRank, placedEntry⟩ := others entry held
    have separate := fits.recordsApart rank taken apartRank edge member entry.1 known different
      record entry.2 placed placedEntry
    exact apart.agrees_other known placedEntry different apartRank separate
  have closed := @closed_edges _ _ _ links _ apart.leavesList others_agree
  have kept := writeSelection_keeps (doc.context load) doc.edgeSelection record edge closed
    storage keeping
  rw [success] at kept
  obtain ⟨field, selected, leaf⟩ := (fits.edge edge member).cursorField
  have cursor := writeLeaf_cached rfl selected leaf (by decide) (by decide)
    (fits.edge edge member).cursor nofun closed agrees.cursor keeping success
  have node := @writeNode_cached _ _ _ _ _ _ _ ranked _ _ (fits.edge edge member) placed agrees
    { settled := keeping.settled, ranked := keeping.ranked, fine := fun _ _ => trivial } success
  refine { settled := kept.settled, ranked := kept.ranked, fine := fun id key => ?_ }
  refine ⟨(kept.fine id key).1, fun entry held => ?_⟩
  obtain old | new := List.mem_append.mp held
  · exact (kept.fine id key).2 entry old
  · obtain rfl := List.mem_singleton.mp new
    refine { cursor := ?_, node := (node.fine id key).1, nodeID := (node.fine id key).2 }
    intro sameID sameKey
    subst sameID sameKey
    exact cursor

def recordLinks (entries : List EdgeEntry) : List GraphQLValue :=
  entries.map fun entry => .string entry.2

@[simp] theorem recordLinks_append (entries added : List EdgeEntry) :
    recordLinks (entries ++ added) = recordLinks entries ++ recordLinks added :=
  List.map_append

theorem extractEdges_cached {links : Option GraphQLValue} (fits : doc.Fits connection)
    {edges : List GraphQLObject} (known : edges ⊆ connection.edges) {entries : List EdgeEntry}
    (fresh : (entries.map Prod.fst ++ edges).Nodup)
    (entered : doc.Entered connection entries storage.rank)
    (keeping : Keeping layer ranked (doc.EdgesCached connection links entries) storage)
    {ids : ListIDs}
    (success : extractNestedListIDs doc.config doc.edgeList
      (writeSelection (doc.context load) layer doc.edgeSelection) [] (edges.map .object) storage =
        .ok ids final) :
    ∃ added : List EdgeEntry, added.map Prod.fst = edges ∧ ids.newIDs = recordLinks added ∧
      ids.nestedIDs = recordLinks added ∧ doc.Entered connection (entries ++ added) final.rank ∧
      Keeping layer ranked (doc.EdgesCached connection links (entries ++ added)) final := by
  induction edges generalizing storage entries ids with
  | nil =>
      cases success
      exact ⟨[], rfl, rfl, rfl, by rwa [List.append_nil], by rwa [List.append_nil]⟩
  | cons edge rest ih =>
      have member := known List.mem_cons_self
      obtain ⟨record, placed, -⟩ := (fits.edge edge member).placed storage.rank
      rw [List.map_cons, extractNestedListIDs] at success
      obtain ⟨first, middle, wrote, remaining⟩ := EStateM.bind_eq_ok success
      obtain ⟨others, last, extracted, finished⟩ := EStateM.bind_eq_ok remaining
      obtain ⟨rfl, rfl⟩ := EStateM.pure_eq_ok finished
      have stored : writeSelection (doc.context load) layer doc.edgeSelection record edge
          storage.nextRank.2 = .ok () middle ∧
          first = ([.string record], some (.string record)) := by
        have generated : embeddedEntry doc.edgeList .undefined storage =
            .ok (embeddedEntryID doc.record "edges" storage.rank) storage.nextRank.2 := rfl
        have placed : doc.edgeList.entryID doc.config
          (embeddedEntryID doc.record "edges" storage.rank) edge = .ok (some record) := placed
        rw [List.headD_nil, extractEntryIDs] at wrote
        obtain ⟨id, _, entry, returned⟩ := EStateM.bind_eq_ok wrote
        rw [writeEntry, EStateM.bind_of_ok generated, placed] at entry
        obtain ⟨_, _, object, kept⟩ := EStateM.bind_eq_ok entry
        obtain ⟨rfl, rfl⟩ := EStateM.pure_eq_ok kept
        obtain ⟨rfl, rfl⟩ := EStateM.pure_eq_ok returned
        exact ⟨object, rfl⟩
      have new : ∀ entry ∈ entries, edge ≠ entry.1 := by
        intro entry held same
        have apart := (List.nodup_append.mp fresh).2.2
        exact apart entry.1 (List.mem_map_of_mem held) edge List.mem_cons_self same.symm
      have cached := @writeEdge_cached _ _ _ _ _ _ _ (storage.rank + 1) _ _ _ _ fits member placed
        (fun entry held => by
          obtain ⟨knownEntry, taken, below, placedEntry⟩ := entered entry held
          exact ⟨knownEntry, new entry held, taken, by omega, placedEntry⟩)
        { settled := keeping.nextRank.settled
          ranked := Nat.le_refl _
          fine := keeping.fine } stored.1
      have enteredNow : doc.Entered connection (entries ++ [(edge, record)]) middle.rank := by
        intro entry held
        obtain old | latest := List.mem_append.mp held
        · obtain ⟨knownEntry, taken, below, placedEntry⟩ := entered entry old
          exact ⟨knownEntry, taken, by have := cached.ranked; omega, placedEntry⟩
        · obtain rfl := List.mem_singleton.mp latest
          exact ⟨member, storage.rank, cached.ranked, placed⟩
      have freshNow : ((entries ++ [(edge, record)]).map Prod.fst ++ rest).Nodup := by
        simpa using fresh
      obtain ⟨added, edges, newIDs, nestedIDs, enteredLast, keepingLast⟩ :=
        ih (fun other held => known (List.mem_cons_of_mem _ held)) freshNow enteredNow
          { settled := cached.settled
            ranked := by have := cached.ranked; have := keeping.ranked; omega
            fine := cached.fine } extracted
      refine ⟨(edge, record) :: added, by rw [List.map_cons, edges], ?_, ?_, ?_, ?_⟩
      · rw [stored.2]
        simp [ListIDs.cons, newIDs, recordLinks]
      · rw [stored.2]
        simp [ListIDs.cons, nestedIDs, recordLinks]
      · simpa using enteredLast
      · simpa using keepingLast

end Written

end Edge

section List

variable {doc connection} {layer : LayerID} {ranked rank : Nat} {storage final : InMemoryStorage}
  {links : Option GraphQLValue} {entries : List EdgeEntry}

theorem entryID_ne_empty {field : LinkedField} {config : ConfigFile} {embedded id : String}
    {data : GraphQLObject} (owned : embedded ≠ "")
    (given : field.entryID config embedded data = .ok (some id)) : id ≠ "" := by
  unfold LinkedField.entryID at given
  dsimp only at given
  split at given
  · cases given
  · split at given
    · cases given
      exact owned
    · exact recordID_ne_empty (by simpa using given)

theorem linkedID_ne_empty {field : LinkedField} {config : ConfigFile} {id : String}
    {data : GraphQLObject} (given : field.linkedID config data = .ok (some id)) : id ≠ "" := by
  unfold LinkedField.linkedID at given
  split at given
  · cases given
  · split at given
    · cases given
      unfold embeddedID
      intro empty
      have text := congrArg String.toList empty
      simp [String.toList_append] at text
    · exact recordID_ne_empty (by simpa using given)

theorem EdgeAt.ne_empty {edge : GraphQLObject} {record : String}
    (placed : doc.EdgeAt rank edge record) : record ≠ "" := by
  refine entryID_ne_empty ?_ placed
  unfold embeddedEntryID
  intro empty
  have text := congrArg String.toList empty
  simp [String.toList_append] at text

theorem edgeNodeID_cached (fits : doc.Fits connection) (entered : doc.Entered connection entries rank)
    (keeping : Keeping layer ranked (doc.EdgesCached connection links entries) storage)
    {entry : EdgeEntry} (member : entry ∈ entries) :
    edgeNodeID storage (.string entry.2) = nodeID entry.1 := by
  obtain ⟨known, taken, -, placed⟩ := entered entry member
  have fine (id key : String) := (keeping.fine id key).2 entry member
  have read (id key : String) : (storage.get id key).value = (storage.cell id key).value :=
    keeping.settled.value_eq id key
  have some : (GraphQLValue.string entry.2).truthy = true := bne_iff_ne.mpr placed.ne_empty
  have node := (fine entry.2 "node").node rfl rfl
  unfold edgeNodeID nodeID
  rw [some]
  simp only [Bool.not_true, Bool.false_eq_true, ↓reduceIte, GraphQLValue.propertyKey, read]
  obtain nothing | ⟨object, found⟩ := (fits.edge entry.1 known).node
  · rw [node.1 nothing, nothing]
    rfl
  · obtain ⟨record, placed', reaches⟩ := (fits.edge entry.1 known).placed taken
    obtain rfl : entry.2 = record := by simpa using placed.symm.trans placed'
    obtain ⟨id, reached⟩ := reaches object found
    have linked : (storage.cell entry.2 "node").value = .string id := by
      have link := node.2 id reached
      generalize storage.cell entry.2 "node" = cell at link
      cases cell
      cases link
      exact FieldCell.value_of_link _ GraphQLValue.noConfusion
    have value : nodeID entry.1 = Option.some (GraphQLObject.property object "id") := by
      unfold nodeID
      rw [found]
    have scalar := (fine id "id").nodeID id _ reached value rfl rfl
    have unlinked := (keeping.fine id "id").1.nodeID taken entry.1 entry.2 id _ known placed reached
      value rfl rfl
    have stored : (storage.cell id "id").value = GraphQLObject.property object "id" := by
      generalize storage.cell id "id" = cell at scalar unlinked
      cases cell
      cases scalar
      cases unlinked
      rfl
    have identified : id ≠ "" := by
      obtain ⟨_, _, _, _, link⟩ := reached
      exact linkedID_ne_empty link
    have there : (GraphQLValue.string id).truthy = true := bne_iff_ne.mpr identified
    rw [linked, there, found]
    simp only [Bool.not_true, Bool.false_eq_true, ↓reduceIte, stored]

def DistinctNodes (connection : EdgeConnection) : Prop :=
  (connection.edges.filterMap nodeID).Nodup

theorem eq_of_nodeID {edges : List GraphQLObject} (distinct : (edges.filterMap nodeID).Nodup)
    {edge other : GraphQLObject} (member : edge ∈ edges) (otherMember : other ∈ edges)
    {id : GraphQLValue} (identified : nodeID edge = some id)
    (otherIdentified : nodeID other = some id) : edge = other := by
  induction edges with
  | nil => cases member
  | cons first rest ih =>
      have among {entry : GraphQLObject} (held : entry ∈ rest) (named : nodeID entry = some id) :
          id ∈ rest.filterMap nodeID := List.mem_filterMap.mpr ⟨entry, held, named⟩
      obtain rfl | later := List.mem_cons.mp member
      · obtain rfl | otherLater := List.mem_cons.mp otherMember
        · rfl
        · rw [List.filterMap_cons_some identified] at distinct
          exact absurd (among otherLater otherIdentified) (List.nodup_cons.mp distinct).1
      · obtain rfl | otherLater := List.mem_cons.mp otherMember
        · rw [List.filterMap_cons_some otherIdentified] at distinct
          exact absurd (among later identified) (List.nodup_cons.mp distinct).1
        · refine ih (distinct.sublist ?_) later otherLater
          exact (List.sublist_cons_self first rest).filterMap nodeID

theorem filterIDs_cached (fits : doc.Fits connection) (distinct : DistinctNodes connection)
    {added : List EdgeEntry} (entered : doc.Entered connection (entries ++ added) rank)
    (fresh : (entries.map Prod.fst ++ added.map Prod.fst).Nodup)
    (keeping : Keeping layer ranked (doc.EdgesCached connection links (entries ++ added)) storage) :
    filterIDs storage (recordLinks added) (recordLinks entries) = recordLinks entries := by
  unfold filterIDs
  refine List.filter_eq_self.mpr fun id member => ?_
  obtain ⟨entry, held, rfl⟩ := List.mem_map.mp member
  have old : entry ∈ entries ++ added := List.mem_append_left _ held
  rw [edgeNodeID_cached fits entered keeping old]
  cases identified : nodeID entry.1 with
  | none => rfl
  | some value =>
      dsimp only
      rw [Bool.not_eq_true', ← Bool.not_eq_true, List.contains_iff_mem]
      intro existing
      obtain ⟨other, listed, found⟩ := List.mem_filterMap.mp existing
      obtain ⟨newer, new, rfl⟩ := List.mem_map.mp listed
      have later : newer ∈ entries ++ added := List.mem_append_right _ new
      rw [edgeNodeID_cached fits entered keeping later] at found
      have same := eq_of_nodeID distinct (entered entry old).1 (entered newer later).1 identified
        found
      exact (List.nodup_append.mp fresh).2.2 entry.1 (List.mem_map_of_mem held) newer.1
        (List.mem_map_of_mem new) same

def LoadFits (doc : ConnectionDocument) (load : Load) (entries : List EdgeEntry) : Prop :=
  (load.applyUpdates = none ∧ entries = []) ∨
    ∃ update ∈ doc.direction.updates, load.applyUpdates = some [update]

def combine {Entry : Type} (load : Load) (entries added : List Entry) : List Entry :=
  if load.applyUpdates = some ["prepend"] then added ++ entries else entries ++ added

theorem mem_combine {Entry : Type} {load : Load} {entries added : List Entry} {entry : Entry} :
    entry ∈ combine load entries added ↔ entry ∈ entries ++ added := by
  unfold combine
  split
  · rw [List.mem_append, List.mem_append, or_comm]
  · rfl

theorem recordLinks_combine (load : Load) (entries added : List EdgeEntry) :
    recordLinks (combine load entries added) =
      combine load (recordLinks entries) (recordLinks added) := by
  unfold combine
  split <;> exact recordLinks_append _ _

theorem updateList_cached {load : Load} (fits : doc.Fits connection)
    (loadFits : LoadFits doc load entries) (settled : storage.Settled layer)
    {added : List EdgeEntry} {ids : ListIDs} (newIDs : ids.newIDs = recordLinks added)
    (nestedIDs : ids.nestedIDs = recordLinks added)
    (kept : filterIDs storage (recordLinks added) (recordLinks entries) = recordLinks entries) :
    updateList (doc.context load) layer storage doc.edgesField.updates ids (recordLinks entries) =
      { linkedIDs := recordLinks (combine load entries added) } := by
  have updates : doc.edgesField.updates = some doc.direction.updates := by
    rw [fits.edgesField.2.1]
    cases doc.direction <;> rfl
  have optimistic := isOptimistic_settled settled
  unfold updateList
  rw [updates, recordLinks_combine]
  obtain ⟨initial, rfl⟩ | ⟨update, supported, updated⟩ := loadFits
  · have applied : (doc.context load).applyUpdates = none := initial
    rw [applied, nestedIDs]
    unfold combine
    rw [initial]
    rfl
  · have applied : (doc.context load).applyUpdates = some [update] := updated
    have contained : doc.direction.updates.contains update = true := by
      rwa [List.contains_iff_mem]
    have known : update = "append" ∨ update = "prepend" := by
      have either (direction : RefetchDirection) (member : update ∈ direction.updates) :
          update = "append" ∨ update = "prepend" := by
        cases direction with
        | forward => exact .inl (List.mem_singleton.mp member)
        | backward => exact .inr (List.mem_singleton.mp member)
        | both => simpa [RefetchDirection.updates] using member
      exact either doc.direction supported
    rw [applied]
    simp only [List.foldl_cons, List.foldl_nil]
    unfold applyListUpdate combine
    rw [contained, newIDs, kept, optimistic, updated]
    obtain rfl | rfl := known <;> rfl

def Linked (links : Option GraphQLValue) (entries : List EdgeEntry) : Prop :=
  links = some (.array (recordLinks entries)) ∨ (links = none ∧ entries = [])

theorem Linked.items (linked : Linked links entries) {cell : FieldCell}
    (held : cell = { link := links }) :
    cell.value.items = recordLinks entries ∧ (cell.value = .undefined ∨ cell.value.isArray = true) ∧
      cell.value ≠ .null := by
  subst held
  obtain rfl | ⟨rfl, rfl⟩ := linked
  · have shown : ({ link := some (.array (recordLinks entries)) } : FieldCell).value =
        .array (recordLinks entries) := rfl
    rw [shown]
    exact ⟨rfl, .inr rfl, nofun⟩
  · exact ⟨rfl, .inl rfl, nofun⟩

theorem mem_flatten_recordLinks {entry : EdgeEntry} (member : entry ∈ entries)
    (named : entry.2 ≠ "") :
    GraphQLValue.string entry.2 ∈ GraphQLValue.flatten (recordLinks entries) := by
  induction entries with
  | nil => cases member
  | cons first rest ih =>
      have split : GraphQLValue.flatten (recordLinks (first :: rest)) =
          GraphQLValue.flattenEntry (.string first.2) ++
            GraphQLValue.flatten (recordLinks rest) := rfl
      rw [split]
      obtain rfl | later := List.mem_cons.mp member
      · have kept : GraphQLValue.flattenEntry (.string entry.2) = [.string entry.2] := by
          have there : (GraphQLValue.string entry.2).truthy = true := bne_iff_ne.mpr named
          unfold GraphQLValue.flattenEntry
          rw [if_pos there]
        rw [kept]
        exact List.mem_append_left _ (List.mem_singleton.mpr rfl)
      · exact List.mem_append_right _ (ih later)

theorem lostEntries_combine {added : List EdgeEntry} (load : Load) (field : LinkedField)
    (named : ∀ entry ∈ entries, entry.2 ≠ "") :
    lostEntries field (recordLinks entries) (recordLinks (combine load entries added)) = [] := by
  unfold lostEntries
  refine List.filter_eq_nil_iff.mpr fun id member => ?_
  obtain ⟨link, listed, text⟩ := List.mem_filterMap.mp member
  obtain ⟨entry, held, rfl⟩ := List.mem_map.mp listed
  obtain rfl : entry.2 = id := by simpa [GraphQLValue.text?] using text
  have still : GraphQLValue.string entry.2 ∈
      GraphQLValue.flatten (recordLinks (combine load entries added)) :=
    mem_flatten_recordLinks (mem_combine.mpr (List.mem_append_left _ held)) (named entry held)
  rw [List.contains_iff_mem.mpr still]
  exact Bool.false_ne_true

theorem keeping_relink (keeping : Keeping layer ranked (doc.EdgesCached connection links entries)
      storage) (value : GraphQLValue) :
    Keeping layer ranked (doc.EdgesCached connection (some value) entries)
      (storage.putLink doc.record "edges" value) where
  settled := keeping.settled.putLink _ _ _
  ranked := keeping.ranked
  fine := by
    intro id key
    obtain ⟨list, cached⟩ := keeping.fine id key
    rw [InMemoryStorage.cell_putLink]
    split
    · rename_i same
      obtain ⟨rfl, rfl⟩ := same
      refine ⟨⟨fun _ _ => ?_, fun _ _ _ _ _ _ other => ?_, fun _ _ _ _ _ _ _ _ _ _ other => ?_⟩,
        fun entry member => ⟨fun _ other => ?_, fun _ other => ?_, fun _ _ _ _ _ other => ?_⟩⟩
      · rw [list.list rfl rfl]
        rfl
      all_goals exact absurd other (by decide)
    · rename_i elsewhere
      refine ⟨⟨fun sameID sameKey => ?_, list.cursor, list.nodeID⟩, cached⟩
      exact absurd ⟨sameID, sameKey⟩ elsewhere

theorem writeEdges_cached {load : Load} (fits : doc.Fits connection)
    (distinct : DistinctNodes connection) (loadFits : LoadFits doc load entries)
    (linked : Linked links entries) {edges : List GraphQLObject}
    (known : edges ⊆ connection.edges) (fresh : (entries.map Prod.fst ++ edges).Nodup)
    (entered : doc.Entered connection entries ranked)
    (keeping : Keeping layer ranked (doc.EdgesCached connection links entries) storage)
    (success : writeProperty (doc.context load) layer (writeSelection (doc.context load) layer)
      doc.record doc.edgesField (.array (edges.map .object)) storage = .ok () final) :
    ∃ added : List EdgeEntry, added.map Prod.fst = edges ∧
      doc.Entered connection (combine load entries added) final.rank ∧
      Keeping layer ranked (doc.EdgesCached connection
        (some (.array (recordLinks (combine load entries added))))
        (combine load entries added)) final := by
  have get (storage : InMemoryStorage) :
      (get : WriteM InMemoryStorage) storage = .ok storage storage := rfl
  have key : doc.edgesField.key (doc.context load).vars = "edges" :=
    key_of_keyRaw fits.edgesField.1 (by decide) _
  have held := (keeping.fine doc.record "edges").1.list rfl rfl
  obtain ⟨items, listed, nonnull⟩ := linked.items held
  have previous : (storage.get doc.record "edges").value =
      (storage.cell doc.record "edges").value := keeping.settled.value_eq _ _
  unfold writeProperty at success
  rw [EStateM.bind_of_ok (get storage), key, previous, fits.edgesField.2.2] at success
  dsimp only at success
  have accepted : ((storage.cell doc.record "edges").value == .undefined ||
      (storage.cell doc.record "edges").value == .null ||
      (storage.cell doc.record "edges").value.isArray) = true := by
    obtain nothing | array := listed
    · rw [nothing]
      rfl
    · rw [array, Bool.or_true]
  rw [if_pos accepted] at success
  unfold writeList at success
  obtain ⟨list, middle, prepared, linking⟩ := EStateM.bind_eq_ok success
  unfold prepareList at prepared
  rw [EStateM.bind_of_ok (get storage), previousListIDs_settled keeping.settled, items] at prepared
  have none_replaced : (if insertsUpdates (doc.context load) (doc.edgesField.updates.getD []) = true
      then [] else recordLinks entries) = [] := by
    obtain ⟨-, rfl⟩ | ⟨update, supported, updated⟩ := loadFits
    · exact ite_self _
    · refine if_pos ?_
      have updates : doc.edgesField.updates = some doc.direction.updates := by
        rw [fits.edgesField.2.1]
        cases doc.direction <;> rfl
      have applied : (doc.context load).applyUpdates = some [update] := updated
      unfold insertsUpdates
      rw [applied, updates]
      cases direction : doc.direction with
      | forward =>
          rw [direction] at supported
          rw [List.mem_singleton.mp supported]
          rfl
      | backward =>
          rw [direction] at supported
          rw [List.mem_singleton.mp supported]
          rfl
      | both =>
          rw [direction] at supported
          obtain rfl | rfl : update = "append" ∨ update = "prepend" := by
            simpa [RefetchDirection.updates] using supported
          · rfl
          · rfl
  rw [none_replaced] at prepared
  obtain ⟨ids, extracted, wrote, rest⟩ := EStateM.bind_eq_ok prepared
  have enteredNow : doc.Entered connection entries storage.rank := fun entry member => by
    obtain ⟨knownEntry, taken, below, placed⟩ := entered entry member
    exact ⟨knownEntry, taken, Nat.lt_of_lt_of_le below keeping.ranked, placed⟩
  obtain ⟨added, rfl, newIDs, nestedIDs, enteredAll, cached⟩ :=
    extractEdges_cached fits known fresh enteredNow keeping wrote
  have named (entry : EdgeEntry) (member : entry ∈ entries) : entry.2 ≠ "" := by
    obtain ⟨-, _, -, placed⟩ := enteredNow entry member
    exact placed.ne_empty
  have update := updateList_cached fits loadFits cached.settled newIDs nestedIDs
    (filterIDs_cached fits distinct enteredAll fresh cached)
  have stays (field : LinkedField) :
      removeLostEntries layer field (recordLinks entries)
        (recordLinks (combine load entries added)) extracted = .ok () extracted := by
    unfold removeLostEntries
    rw [isOptimistic_settled cached.settled, lostEntries_combine load field named]
    rfl
  rw [EStateM.bind_of_ok (get extracted)] at rest
  rw [update] at rest
  rw [EStateM.bind_of_ok (stays _)] at rest
  obtain ⟨rfl, rfl⟩ := EStateM.pure_eq_ok rest
  have enteredCombined : doc.Entered connection (combine load entries added) middle.rank :=
    fun entry member => enteredAll entry (mem_combine.mp member)
  have combined : Keeping layer ranked
      (doc.EdgesCached connection links (combine load entries added)) middle :=
    { settled := cached.settled
      ranked := cached.ranked
      fine := fun id key => ⟨(cached.fine id key).1, fun entry member =>
        (cached.fine id key).2 entry (mem_combine.mp member)⟩ }
  dsimp only at linking
  split at linking
  · unfold linkList at linking
    dsimp only at linking
    rw [writeLinkTo_settled combined.settled] at linking
    cases linking
    exact ⟨added, rfl, enteredCombined, keeping_relink combined _⟩
  · rename_i unchanged
    cases linking
    rw [Bool.not_eq_true, Bool.or_eq_false_iff, Bool.or_eq_false_iff] at unchanged
    obtain ⟨⟨sameIDs, -⟩, some⟩ := unchanged
    have same : recordLinks (combine load entries added) = recordLinks entries := by
      simpa using sameIDs
    have held : links = Option.some (.array (recordLinks (combine load entries added))) := by
      obtain already | ⟨-, rfl⟩ := linked
      · rw [already, same]
      · have nothing : added = [] := by
          unfold combine at same
          split at same <;> simpa [recordLinks] using same
        rw [newIDs, nothing] at some
        cases some
    refine ⟨added, rfl, enteredCombined, ?_⟩
    rw [held] at combined
    exact combined

end List

section PageInfo

def InfoCached (info : String → Option GraphQLValue) (id key : String) (cell : FieldCell) : Prop :=
  id = doc.pageInfoRecord → key ∈ pageInfoKeys → cell = { scalar := info key }

def writtenInfo (updates : List String) (applyUpdates : Option (List String))
    (previous : GraphQLValue) (name : String) (value : GraphQLValue) : GraphQLValue :=
  match printedUpdates name updates, applyUpdates with
  | some updates, some applyUpdates =>
      if applyUpdates.all updates.contains then value else previous
  | _, _ => value

def updatedInfo (updates : List String) (applyUpdates : Option (List String))
    (info : String → Option GraphQLValue) (data : GraphQLObject) (key : String) :
    Option GraphQLValue :=
  match data.lookup key with
  | some value =>
      some (writtenInfo updates applyUpdates ((info key).getD .undefined) key value)
  | none => info key

theorem scalarValue_plain (name : String) (updates : List String)
    (applyUpdates : Option (List String)) (previous : GraphQLValue) {value : GraphQLValue}
    (plain : value.isArray = false) :
    scalarValue applyUpdates (printedUpdates name updates) previous value =
      .ok (writtenInfo updates applyUpdates previous name value) := by
  unfold scalarValue writtenInfo
  cases printedUpdates name updates with
  | none => rfl
  | some printed =>
      cases applyUpdates with
      | none => rfl
      | some applied =>
          cases value with
          | array => cases plain
          | _ =>
              dsimp only
              split <;> rfl

theorem pageInfoFields_lookup (updates : List String) {name : String}
    (member : name ∈ pageInfoKeys) :
    ∃ field, (pageInfoFields updates).lookup name = some field ∧ field.keyRaw = name ∧
      field.selection = none ∧ field.updates = printedUpdates name updates ∧
      name.toList.contains '$' = false ∧ name ≠ "__typename" := by
  simp only [pageInfoKeys, List.mem_cons, List.not_mem_nil, or_false] at member
  obtain rfl | rfl | rfl | rfl := member
  all_goals exact ⟨_, rfl, rfl, rfl, rfl, by decide, by decide⟩

variable {doc} {layer : LayerID} {ranked : Nat} {storage final : InMemoryStorage}
  {info : String → Option GraphQLValue}

theorem writeInfo_cached {context : WriteContext}
    {write : SubscriptionSelection → String → GraphQLObject → WriteM Unit} {data : GraphQLObject}
    {updates : List String} (known : ∀ name value, (name, value) ∈ data →
      name ∈ pageInfoKeys ∧ value.isArray = false) (distinct : (data.map Prod.fst).Nodup)
    (keeping : Keeping layer ranked (doc.InfoCached info) storage)
    (success : Cache.writeFields context layer write doc.pageInfoRecord (pageInfoFields updates) data
      storage = .ok () final) :
    Keeping layer ranked (doc.InfoCached (updatedInfo updates context.applyUpdates info data))
      final := by
  induction data generalizing storage info with
  | nil =>
      cases success
      exact keeping
  | cons property rest ih =>
      obtain ⟨name, value⟩ := property
      obtain ⟨member, plain⟩ := known name value List.mem_cons_self
      obtain ⟨field, found, raw, leaf, printed, fixed, named⟩ :=
        pageInfoFields_lookup updates member
      rw [List.map_cons, List.nodup_cons] at distinct
      have key : field.key context.vars = name := key_of_keyRaw raw fixed _
      have previous : storage.value doc.pageInfoRecord name = (info name).getD .undefined := by
        rw [keeping.settled.value_eq, keeping.fine doc.pageInfoRecord name rfl member]
        rfl
      have scalar := scalarValue_plain name updates context.applyUpdates
        ((info name).getD .undefined) plain
      rw [Cache.writeFields, found] at success
      dsimp only at success
      rw [EStateM.bind_of_ok (writeProperty_scalar keeping.settled leaf (by rw [key]; exact named)
        (by rw [key, previous, printed]; exact scalar)), key] at success
      have kept : Keeping layer ranked
          (doc.InfoCached fun other => if other = name then some (writtenInfo updates
            context.applyUpdates ((info name).getD .undefined) name value) else info other)
          (storage.putScalar doc.pageInfoRecord name (writtenInfo updates context.applyUpdates
            ((info name).getD .undefined) name value)) :=
        { settled := keeping.settled.putScalar _ _ _
          ranked := keeping.ranked
          fine := by
            intro id other sameID otherMember
            rw [InMemoryStorage.cell_putScalar, keeping.fine id other sameID otherMember]
            dsimp only
            by_cases same : other = name
            · rw [if_pos ⟨sameID, same⟩, if_pos same]
              rfl
            · rw [if_neg fun both => same both.2, if_neg same] }
      have last := ih (fun other value held => known other value (List.mem_cons_of_mem _ held))
        distinct.2 kept success
      have agree (other : String) :
          updatedInfo updates context.applyUpdates (fun other => if other = name then
            some (writtenInfo updates context.applyUpdates ((info name).getD .undefined) name value)
            else info other) rest other =
          updatedInfo updates context.applyUpdates info ((name, value) :: rest) other := by
        unfold updatedInfo
        rw [List.lookup_cons]
        by_cases same : other = name
        · subst same
          have absent : rest.lookup other = none :=
            OrderedMap.lookup_eq_none_of_not_mem distinct.1
          rw [absent]
          simp
        · have different : (other == name) = false := beq_eq_false_iff_ne.mpr same
          simp only [different, if_neg same]
      exact
        { settled := last.settled
          ranked := last.ranked
          fine := by
            intro id other sameID otherMember
            rw [last.fine id other sameID otherMember, agree other] }

end PageInfo

end ConnectionDocument

end Houdini.Runtime
