import Houdini.Runtime.Cache.StoredCells
import Houdini.Runtime.Pagination

/-! Writing the pages of a connection to the cache: what becomes of its edges, and of what it
knows about the pages around them. -/

set_option autoImplicit false

namespace Houdini.Runtime

open Cache

def RefetchDirection.updates : RefetchDirection → List String
  | .forward => ["append"]
  | .backward => ["prepend"]
  | .both => ["append", "prepend"]

/-- The updates that are printed for a field of a connection, or of its page information, which
only updates in one direction. -/
def printedUpdates (name : String) (updates : List String) : Option (List String) :=
  if updates.isEmpty ∨ name = "pageInfo" ∨ name = "__typename" then none
  else
    let effectiveUpdates :=
      if name = "endCursor" ∨ name = "hasNextPage" then updates.filter (· == "append")
      else if name = "startCursor" then updates.filter (· == "prepend")
      else if name = "hasPreviousPage" then ["prepend"]
      else updates
    if effectiveUpdates.isEmpty then none else some effectiveUpdates

abbrev EdgeConnection := CursorConnection GraphQLObject String

abbrev EdgePage := ConnectionPage GraphQLObject String

def EdgePage.pageInfo (page : EdgePage) : PageInfo where
  startCursor := page.startCursor
  endCursor := page.endCursor
  hasNextPage := page.hasNextPage
  hasPreviousPage := page.hasPreviousPage

structure ConnectionDocument where
  spec : RefetchSpec
  infinite : spec.mode = .infinite
  direction : RefetchDirection
  printed : spec.direction = some direction
  config : ConfigFile := {}
  selection : SubscriptionSelection
  /-- The variables that a page is asked for with. -/
  vars : CursorVariables → GraphQLObject
  response : CursorVariables → EdgePage → GraphQLObject
  /-- The record that the connection is a field of. -/
  parent : String
  field : SelectionField
  key : String
  /-- The record of the connection. -/
  record : String
  connectionSelection : SubscriptionSelection
  /-- The object of the connection in a response. -/
  connectionData : EdgePage → GraphQLObject
  edgesField : SelectionField
  edgeSelection : SubscriptionSelection
  pageInfoField : SelectionField
  pageInfoRecord : String

/-- A field for a scalar that is replaced by every write. -/
structure IsLeaf (field : SelectionField) (key : String) : Prop where
  keyRaw : field.keyRaw = key
  leaf : field.selection = none
  updates : field.updates = none

namespace ConnectionDocument

def pageInfoFields (updates : List String) : FieldSelections :=
  let field (name type : String) (nullable : Bool) : String × SelectionField :=
    (name, { type, keyRaw := name, updates := printedUpdates name updates, nullable
             visible := true })
  [field "endCursor" "String" true, field "hasNextPage" "Boolean" false,
    field "hasPreviousPage" "Boolean" false, field "startCursor" "String" true]

def pageInfoKeys : List String := ["startCursor", "endCursor", "hasNextPage", "hasPreviousPage"]

/-- A page that is asked for, and the updates that it is written with. -/
structure Load where
  args : CursorVariables
  applyUpdates : Option (List String) := none
  deriving DecidableEq

variable (doc : ConnectionDocument) (connection : EdgeConnection)

def context (load : Load) : WriteContext where
  config := doc.config
  vars := doc.vars load.args
  applyUpdates := load.applyUpdates

def answer (load : Load) : GraphQLObject := doc.response load.args (connection.page load.args)

def writePage (load : Load) : WriteM Unit :=
  write (doc.context load) doc.selection (doc.answer connection load)

def cachedRecord (storage : InMemoryStorage) : String :=
  (storage.value doc.parent doc.key).propertyKey

def cachedEdges (storage : InMemoryStorage) : List (GraphQLValue × Option GraphQLValue) :=
  (storage.value (doc.cachedRecord storage) "edges").items.map fun edge =>
    (storage.value edge.propertyKey "cursor", edgeNodeID storage edge)

def cachedPageInfo (storage : InMemoryStorage) : PageInfo :=
  let record := (storage.value (doc.cachedRecord storage) "pageInfo").propertyKey
  { startCursor := (storage.value record "startCursor").text?
    endCursor := (storage.value record "endCursor").text?
    hasNextPage := (storage.value record "hasNextPage").truthy
    hasPreviousPage := (storage.value record "hasPreviousPage").truthy }

def nodeID (edge : GraphQLObject) : Option GraphQLValue :=
  match edge.property "node" with
  | .object node => some (GraphQLObject.property node "id")
  | _ => none

def edgeList : LinkedField where
  parent := doc.record
  key := "edges"
  linkedType := doc.edgesField.type
  abstract := doc.edgesField.abstract

def EdgeAt (rank : Nat) (edge : GraphQLObject) (record : String) : Prop :=
  doc.edgeList.entryID doc.config (embeddedEntryID doc.record "edges" rank) edge =
    .ok (some record)

def NodeAt (record : String) (edge : GraphQLObject) (id : String) : Prop :=
  ∃ field node, selectedField doc.edgeSelection edge "node" = some field ∧
    edge.property "node" = .object node ∧
    LinkedField.linkedID
      { parent := record, key := "node", linkedType := linkedType field (.object node)
        abstract := field.abstract } doc.config node = .ok (some id)

inductive EdgeCell : String → String → Prop
  | list : EdgeCell doc.record "edges"
  | cursor {rank : Nat} {edge : GraphQLObject} {record : String} (member : edge ∈ connection.edges)
      (placed : doc.EdgeAt rank edge record) : EdgeCell record "cursor"
  | node {rank : Nat} {edge : GraphQLObject} {record : String} (member : edge ∈ connection.edges)
      (placed : doc.EdgeAt rank edge record) : EdgeCell record "node"

def InfoCell (id key : String) : Prop := id = doc.pageInfoRecord ∧ key ∈ pageInfoKeys

def LinkCell (id key : String) : Prop :=
  (id = doc.parent ∧ key = doc.key) ∨ (id = doc.record ∧ key = "pageInfo")

def KeepsNodeIDs (stores : String → String → CellWrite → Prop) : Prop :=
  ∀ rank edge record id value written, edge ∈ connection.edges → doc.EdgeAt rank edge record →
    doc.NodeAt record edge id → nodeID edge = some value → stores id "id" written →
    written = .scalar value

/-- What has nothing to do with the connection leaves it alone. -/
structure Spares (stores : String → String → CellWrite → Prop) : Prop where
  edges : ∀ id key written, stores id key written → ¬ doc.EdgeCell connection id key
  pageInfo : ∀ id key written, stores id key written → ¬ doc.InfoCell id key
  links : ∀ id key written, stores id key written → ¬ doc.LinkCell id key
  nodeIDs : doc.KeepsNodeIDs connection stores

end ConnectionDocument

/-- The response has a value for the field of some record, and what is around it is spared. -/
inductive Leads (context : WriteContext) (spared : (String → String → CellWrite → Prop) → Prop) :
    SubscriptionSelection → String → GraphQLObject → String → SelectionField → GraphQLValue → Prop
  | here {selection : SubscriptionSelection} {fields : FieldSelections} {parent name : String}
      {front back : GraphQLObject} {field : SelectionField} {value : GraphQLValue}
      (typed : getFieldsForType selection
        (GraphQLObject.property (front ++ (name, value) :: back) "__typename").text? = some fields)
      (selected : fields.lookup name = some field)
      (others : ∀ other sibling, (other, sibling) ∈ front ++ back → ∀ field,
        fields.lookup other = some field → spared (StoresValue context parent field sibling)) :
      Leads context spared selection parent (front ++ (name, value) :: back) parent field value
  | within {selection nested : SubscriptionSelection} {fields : FieldSelections}
      {parent name record target : String} {front back data : GraphQLObject}
      {field found : SelectionField} {value : GraphQLValue}
      (typed : getFieldsForType selection
        (GraphQLObject.property (front ++ (name, .object data) :: back) "__typename").text? =
          some fields)
      (selected : fields.lookup name = some field)
      (others : ∀ other sibling, (other, sibling) ∈ front ++ back → ∀ field,
        fields.lookup other = some field → spared (StoresValue context parent field sibling))
      (branch : field.selection = some nested)
      (linked : (linkedField field context.vars parent (.object data)).linkedID context.config
        data = .ok (some record))
      (apart : spared fun id key written => id = parent ∧ key = field.key context.vars ∧
        written = .link (.string record))
      (below : Leads context spared nested record data target found value) :
      Leads context spared selection parent (front ++ (name, .object data) :: back) target found
        value

namespace ConnectionDocument

variable (doc : ConnectionDocument) (connection : EdgeConnection)

/-- The object of the connection is as it was compiled: with the edges of the page and its page
information, and nothing else that has to do with them. -/
structure ConnectionFits (load : Load) (page : EdgePage) (data : GraphQLObject) : Prop where
  linked : (linkedField doc.field (doc.vars load.args) doc.parent (.object data)).linkedID
    doc.config data = .ok (some doc.record)
  names : (data.map Prod.fst).Nodup
  edges : data.property "edges" = .array (page.edges.map .object)
  edgesField : selectedField doc.connectionSelection data "edges" = some doc.edgesField
  pageInfo : data.property "pageInfo" = page.pageInfo.toValue
  pageInfoField : selectedField doc.connectionSelection data "pageInfo" = some doc.pageInfoField
  others : ∀ name value, (name, value) ∈ data → name ≠ "edges" → name ≠ "pageInfo" →
    ∀ field, selectedField doc.connectionSelection data name = some field →
      doc.Spares connection (StoresValue (doc.context load) doc.record field value)

/-- An edge has a cursor and a node, and a node has an id. -/
structure EdgeFits (edge : GraphQLObject) : Prop where
  cursor : edge.property "cursor" = .string (connection.cursor edge)
  cursorField : ∃ field, selectedField doc.edgeSelection edge "cursor" = some field ∧
    IsLeaf field "cursor"
  node : edge.property "node" = .null ∨ ∃ node, edge.property "node" = .object node
  nodeField : ∃ field selection, selectedField doc.edgeSelection edge "node" = some field ∧
    field.keyRaw = "node" ∧ field.selection = some selection ∧
    ∀ node, edge.property "node" = .object node →
      GraphQLObject.property node "id" ≠ GraphQLValue.undefined ∧ ∃ idField, selectedField selection node "id" = some idField ∧ IsLeaf idField "id"
  placed : ∀ rank, ∃ record, doc.EdgeAt rank edge record ∧
    ∀ node, edge.property "node" = .object node → ∃ id, doc.NodeAt record edge id

/-- Writing an edge does not disturb the connection otherwise. -/
structure EdgeApart (load : Load) (rank : Nat) (edge : GraphQLObject) (record : String) :
    Prop where
  own : ∀ id key written, Stores (doc.context load) doc.edgeSelection record edge id key written →
    doc.EdgeCell connection id key → id = record ∧
      (key = "cursor" ∧ written = .scalar (.string (connection.cursor edge)) ∨
        key = "node" ∧ (edge.property "node" = .null → written = .link .null) ∧
          ∀ node, doc.NodeAt record edge node → written = .link (.string node))
  unlinked : ∀ otherRank other otherRecord id value link, other ∈ connection.edges →
    doc.EdgeAt otherRank other otherRecord → doc.NodeAt otherRecord other id →
    nodeID other = some value →
    ¬ Stores (doc.context load) doc.edgeSelection record edge id "id" (.link link)
  nodeIDs : ∀ otherRank other otherRecord id value written, other ∈ connection.edges →
    (edge = other ↔ rank = otherRank) → doc.EdgeAt otherRank other otherRecord →
    doc.NodeAt otherRecord other id → nodeID other = some value →
    Stores (doc.context load) doc.edgeSelection record edge id "id" written →
    written = .scalar value

structure Fits : Prop where
  key : ∀ args, doc.field.key (doc.vars args) = doc.key
  branch : doc.field.selection = some doc.connectionSelection
  edgesField : doc.edgesField.keyRaw = "edges" ∧
    doc.edgesField.updates = printedUpdates "edges" doc.direction.updates ∧
    doc.edgesField.selection = some doc.edgeSelection
  pageInfoField : doc.pageInfoField.keyRaw = "pageInfo" ∧
    doc.pageInfoField.selection = some { fields := pageInfoFields doc.direction.updates }
  pageInfoLinked : ∀ (pageInfo : PageInfo) data, pageInfo.toValue = .object data →
    LinkedField.linkedID
      { parent := doc.record, key := "pageInfo", linkedType := doc.pageInfoField.type
        abstract := doc.pageInfoField.abstract } doc.config data = .ok (some doc.pageInfoRecord)
  leads : ∀ load, Leads (doc.context load) (doc.Spares connection) doc.selection rootID
    (doc.answer connection load) doc.parent doc.field
    (.object (doc.connectionData (connection.page load.args)))
  shape : ∀ load, doc.ConnectionFits connection load (connection.page load.args)
    (doc.connectionData (connection.page load.args))
  edge : ∀ edge ∈ connection.edges, doc.EdgeFits connection edge
  edgeApart : ∀ load rank, ∀ edge ∈ connection.edges, ∀ record, doc.EdgeAt rank edge record →
    doc.EdgeApart connection load rank edge record
  recordsApart : ∀ rank other, rank ≠ other → ∀ edge ∈ connection.edges,
    ∀ otherEdge ∈ connection.edges, edge ≠ otherEdge → ∀ record otherRecord,
    doc.EdgeAt rank edge record → doc.EdgeAt other otherEdge otherRecord → record ≠ otherRecord
  edgesApart : ∀ load id key written,
    StoresValue (doc.context load) doc.record doc.edgesField
      (.array ((connection.page load.args).edges.map .object)) id key written →
    ¬ doc.InfoCell id key ∧ ¬ doc.LinkCell id key
  parentApart : doc.parent ≠ doc.record ∧ doc.parent ≠ doc.pageInfoRecord ∧ doc.key ≠ "id" ∧
    ¬ doc.EdgeCell connection doc.parent doc.key

end ConnectionDocument

end Houdini.Runtime
