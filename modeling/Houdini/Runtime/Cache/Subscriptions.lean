import Houdini.Data.OrderedMap
import Houdini.Runtime.Selection

/-! Who depends on which fields of which records. A subscriber is known by the identity of
its `onMessage`. -/

set_option autoImplicit false

namespace Houdini.Runtime.Cache

structure SubscriptionSpec where
  rootType : String
  selection : SubscriptionSelection
  onMessage : Nat
  parentID : Option String := none
  /-- The properties of the function that gives the variables. -/
  «variables» : Option GraphQLObject := none

abbrev FieldSelection := SubscriptionSpec × Option FieldSelections

/-- The subscribers of one field. Masked parents are never notified, but the field is part of
their data. -/
structure FieldSubscribers where
  selections : List FieldSelection := []
  referenceCounts : OrderedMap Nat Nat := ∅
  maskedParentSelections : List FieldSelection := []
  maskedParentReferenceCounts : OrderedMap Nat Nat := ∅

/-- Two ids can share one table of subscribers, so a record holds the position of its table. -/
structure InMemorySubscriptions where
  tables : List (OrderedMap String FieldSubscribers) := []
  subscribers : OrderedMap String Nat := ∅

namespace FieldSubscribers

def visit (counts : OrderedMap Nat Nat) (spec : SubscriptionSpec) : OrderedMap Nat Nat :=
  counts.set spec.onMessage ((counts.get? spec.onMessage).getD 0 + 1)

def add (field : FieldSubscribers) (selection : FieldSelection) (masked : Bool) :
    FieldSubscribers :=
  if masked then
    { field with
      maskedParentSelections :=
        if field.maskedParentReferenceCounts.contains selection.1.onMessage then
          field.maskedParentSelections
        else field.maskedParentSelections ++ [selection]
      maskedParentReferenceCounts := visit field.maskedParentReferenceCounts selection.1 }
  else
    { field with
      selections :=
        if field.referenceCounts.contains selection.1.onMessage then field.selections
        else field.selections ++ [selection]
      referenceCounts := visit field.referenceCounts selection.1 }

def leave (selections : List FieldSelection) (counts : OrderedMap Nat Nat) (onMessage count : Nat) :
    List FieldSelection × OrderedMap Nat Nat :=
  if count ≤ 1 then
    (selections.filter fun selection => selection.1.onMessage != onMessage, counts.erase onMessage)
  else (selections, counts.set onMessage (count - 1))

def leaveSelections (field : FieldSubscribers) (onMessage count : Nat) : FieldSubscribers :=
  let (selections, referenceCounts) := leave field.selections field.referenceCounts onMessage count
  { field with selections, referenceCounts }

def leaveMaskedParents (field : FieldSubscribers) (onMessage count : Nat) : FieldSubscribers :=
  let (maskedParentSelections, maskedParentReferenceCounts) :=
    leave field.maskedParentSelections field.maskedParentReferenceCounts onMessage count
  { field with maskedParentSelections, maskedParentReferenceCounts }

/-- A removal prefers the counts of its own kind, and falls back to the others. -/
def remove (preferMasked : Bool) (field : FieldSubscribers) (spec : SubscriptionSpec) :
    FieldSubscribers :=
  let onMessage := spec.onMessage
  match field.referenceCounts.get? onMessage, field.maskedParentReferenceCounts.get? onMessage with
  | none, none => field
  | some count, none => field.leaveSelections onMessage count
  | none, some count => field.leaveMaskedParents onMessage count
  | some count, some maskedCount =>
      if preferMasked then field.leaveMaskedParents onMessage maskedCount
      else field.leaveSelections onMessage count

end FieldSubscribers

namespace InMemorySubscriptions

def table? (subscriptions : InMemorySubscriptions) (id : String) :
    Option (OrderedMap String FieldSubscribers) :=
  (subscriptions.subscribers.get? id).bind (subscriptions.tables[·]?)

def field? (subscriptions : InMemorySubscriptions) (id field : String) : Option FieldSubscribers :=
  (subscriptions.table? id).bind (·.get? field)

def get (subscriptions : InMemorySubscriptions) (id field : String) : List FieldSelection :=
  ((subscriptions.field? id field).map (·.selections)).getD []

def getMaskedParents (subscriptions : InMemorySubscriptions) (id field : String) :
    List FieldSelection :=
  ((subscriptions.field? id field).map (·.maskedParentSelections)).getD []

def ensureTable (subscriptions : InMemorySubscriptions) (id : String) :
    Nat × InMemorySubscriptions :=
  match subscriptions.subscribers.get? id with
  | some position => (position, subscriptions)
  | none =>
      let position := subscriptions.tables.length
      (position,
        { tables := subscriptions.tables ++ [∅]
          subscribers := subscriptions.subscribers.set id position })

def addFieldSubscription (subscriptions : InMemorySubscriptions) (id key : String)
    (selection : FieldSelection) (masked : Bool) : InMemorySubscriptions :=
  let (position, subscriptions) := subscriptions.ensureTable id
  { subscriptions with
    tables := subscriptions.tables.modify position fun table =>
      table.set key (((table.get? key).getD {}).add selection masked) }

def copySubscribers (subscriptions : InMemorySubscriptions) (source target : String) :
    InMemorySubscriptions :=
  match subscriptions.subscribers.get? source with
  | some position =>
      { subscriptions with subscribers := subscriptions.subscribers.set target position }
  | none =>
      { tables := subscriptions.tables ++ [∅]
        subscribers := subscriptions.subscribers.set target subscriptions.tables.length }

/-- A field without references leaves the table, and a record with an empty table is forgotten. -/
def removeSubscribers (subscriptions : InMemorySubscriptions) (id fieldName : String)
    (specs : List SubscriptionSpec) (preferMasked : Bool) : InMemorySubscriptions :=
  match subscriptions.subscribers.get? id with
  | none => subscriptions
  | some position =>
      match subscriptions.field? id fieldName with
      | none => subscriptions
      | some field =>
          let left := specs.foldl (FieldSubscribers.remove preferMasked) field
          let table := (subscriptions.table? id).getD ∅
          let table :=
            if left.referenceCounts.isEmpty && left.maskedParentReferenceCounts.isEmpty then
              table.erase fieldName
            else table.set fieldName left
          { tables := subscriptions.tables.set position table
            subscribers :=
              if table.isEmpty then subscriptions.subscribers.erase id
              else subscriptions.subscribers }

end InMemorySubscriptions

end Houdini.Runtime.Cache
