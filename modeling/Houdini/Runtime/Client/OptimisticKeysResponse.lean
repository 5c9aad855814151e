import Houdini.Runtime.Client.OptimisticKeysProperties

/-! The places of a response that are visited for the keys of a mutation. -/

set_option autoImplicit false

namespace Houdini.Runtime

namespace GraphQLValue

def at? : GraphQLValue → List Client.PathSegment → Option GraphQLValue
  | value, [] => some value
  | .object fields, .field name :: rest => (fields.lookup name).bind (at? · rest)
  | .array items, .index position :: rest => (flattenList items)[position]?.bind (at? · rest)
  | _, _ => none

theorem distinctNames_of_mem {item : GraphQLValue} {items : List GraphQLValue}
    (distinct : distinctNamesItems items = true) (member : item ∈ items) :
    item.distinctNames = true := by
  induction items with
  | nil => cases member
  | cons first rest ih =>
      obtain ⟨own, others⟩ := Bool.and_eq_true_iff.mp distinct
      rcases List.mem_cons.mp member with rfl | later
      · exact own
      · exact ih others later

private theorem distinctNamesItems_of_forall {items : List GraphQLValue}
    (distinct : ∀ item ∈ items, item.distinctNames = true) : distinctNamesItems items = true := by
  induction items with
  | nil => rfl
  | cons first rest ih =>
      rw [distinctNamesItems, distinct first List.mem_cons_self,
        ih fun item member => distinct item (List.mem_cons_of_mem _ member)]
      rfl

theorem distinctNames_of_mem_flattenList {item : GraphQLValue} {items : List GraphQLValue}
    (distinct : distinctNamesItems items = true) (member : item ∈ flattenList items) :
    item.distinctNames = true := by
  unfold flattenList at member
  generalize nestingItems items + 1 = levels at member
  induction levels generalizing items with
  | zero => cases member
  | succ levels ih =>
      rcases List.mem_append.mp member with own | deeper
      · exact distinctNames_of_mem distinct (List.mem_filter.mp own).1
      · refine ih (distinctNamesItems_of_forall fun inner inside => ?_) deeper
        obtain ⟨list, listMember, inList⟩ := List.mem_flatMap.mp inside
        have listDistinct := distinctNames_of_mem distinct listMember
        cases list with
        | array items => exact distinctNames_of_mem listDistinct inList
        | _ => cases inList

theorem distinctNames_of_mem_fields {name : String} {value : GraphQLValue}
    {fields : List (String × GraphQLValue)} (distinct : distinctNamesFields fields = true)
    (member : (name, value) ∈ fields) : value.distinctNames = true := by
  induction fields with
  | nil => cases member
  | cons first rest ih =>
      obtain ⟨own, others⟩ := Bool.and_eq_true_iff.mp distinct
      rcases List.mem_cons.mp member with rfl | later
      · exact own
      · exact ih others later

end GraphQLValue

namespace Client

open GraphQLValue

section Visits

variable {Visit : Type}
variable {walk : SubscriptionSelection → GraphQLObject → ResponsePath → List Visit}

theorem mem_nestedVisits {path : ResponsePath} {selection : Option SubscriptionSelection}
    {value : GraphQLValue} {visit : Visit} (member : visit ∈ nestedVisits walk path selection value) :
    ∃ selection fields,
      (value = .object fields ∧ visit ∈ walk selection fields path) ∨
      ∃ items index, value = .array items ∧ (flattenList items)[index]? = some (.object fields) ∧
        visit ∈ walk selection fields (path ++ [.index index]) := by
  cases selection with
  | none => cases member
  | some selection =>
      cases value with
      | array items =>
          obtain ⟨⟨item, index⟩, inside, visited⟩ := List.mem_flatMap.mp member
          have found := List.mem_zipIdx_iff_getElem?.mp inside
          cases item with
          | object fields => exact ⟨selection, fields, .inr ⟨items, index, rfl, found, visited⟩⟩
          | _ => cases visited
      | object fields => exact ⟨selection, fields, .inl ⟨rfl, member⟩⟩
      | _ => cases member

end Visits

def ResponseVisit.path? : ResponseVisit → Option ResponsePath
  | .text path _ => some path
  | .malformed => none

private def Reaches
    (walk : SubscriptionSelection → GraphQLObject → ResponsePath → List ResponseVisit) : Prop :=
  ∀ selection response path visited text,
    (GraphQLValue.object response).distinctNames = true →
      ResponseVisit.text visited text ∈ walk selection response path →
        ∃ rest, visited = path ++ rest ∧
          (GraphQLValue.object response).at? rest = some (.string text)

section Paths

variable {walk : SubscriptionSelection → GraphQLObject → ResponsePath → List ResponseVisit}

private theorem at?_of_mem_nestedVisits (reaches : Reaches walk) {path visited : ResponsePath}
    {selection : Option SubscriptionSelection} {value : GraphQLValue} {text : String}
    (distinct : value.distinctNames = true)
    (member : ResponseVisit.text visited text ∈ nestedVisits walk path selection value) :
    ∃ rest, visited = path ++ rest ∧ value.at? rest = some (.string text) := by
  obtain ⟨_, fields, ⟨rfl, inside⟩ | ⟨items, index, rfl, item, inside⟩⟩ := mem_nestedVisits member
  · exact reaches _ fields path visited text distinct inside
  · have itemDistinct := distinctNames_of_mem_flattenList distinct (List.mem_of_getElem? item)
    obtain ⟨rest, rfl, reached⟩ := reaches _ fields _ visited text itemDistinct inside
    refine ⟨.index index :: rest, by simp, ?_⟩
    rw [at?, item]
    exact reached

private theorem at?_of_mem_propertyVisits (reaches : Reaches walk) {path visited : ResponsePath}
    {targetSelection : Option FieldSelections} {property : String × GraphQLValue} {text : String}
    (distinct : property.2.distinctNames = true)
    (member : ResponseVisit.text visited text ∈
      propertyVisits walk path targetSelection property) :
    ∃ rest, visited = path ++ .field property.1 :: rest ∧
      property.2.at? rest = some (.string text) := by
  obtain ⟨name, value⟩ := property
  rcases List.mem_append.mp member with own | nested
  · cases value with
    | string value =>
        cases List.mem_singleton.mp own
        exact ⟨[], rfl, rfl⟩
    | _ => cases own
  · cases targetSelection with
    | none => cases List.mem_singleton.mp nested
    | some targetSelection =>
        obtain ⟨rest, rfl, reached⟩ := at?_of_mem_nestedVisits reaches distinct nested
        exact ⟨rest, by simp, reached⟩

private theorem reaches_responseVisits (fuel : Nat) : Reaches (responseVisits fuel) := by
  induction fuel with
  | zero => nofun
  | succ fuel ih =>
      intro selection response path visited text distinct member
      obtain ⟨unique, inner⟩ := Bool.and_eq_true_iff.mp distinct
      obtain ⟨⟨name, value⟩, field, inside⟩ := List.mem_flatMap.mp member
      have found : response.lookup name = some value :=
        (OrderedMap.mem_iff_lookup (of_decide_eq_true unique)).mp field
      obtain ⟨rest, rfl, reached⟩ :=
        at?_of_mem_propertyVisits ih (distinctNames_of_mem_fields inner field) inside
      refine ⟨.field name :: rest, rfl, ?_⟩
      rw [at?, found]
      exact reached

theorem at?_of_mem_responseVisits {fuel : Nat} {selection : SubscriptionSelection}
    {response : GraphQLObject} {path : ResponsePath} {text : String}
    (distinct : (GraphQLValue.object response).distinctNames = true)
    (member : ResponseVisit.text path text ∈ responseVisits fuel selection response []) :
    (GraphQLValue.object response).at? path = some (.string text) := by
  obtain ⟨rest, rfl, reached⟩ :=
    reaches_responseVisits fuel selection response [] path text distinct member
  exact reached

def visitedPaths (visits : List ResponseVisit) : List ResponsePath :=
  visits.filterMap ResponseVisit.path?

theorem mem_visitedPaths {visits : List ResponseVisit} {path : ResponsePath} :
    path ∈ visitedPaths visits ↔ ∃ text, ResponseVisit.text path text ∈ visits := by
  unfold visitedPaths
  rw [List.mem_filterMap]
  constructor
  · rintro ⟨visit, member, same⟩
    cases visit with
    | text visited text =>
        cases same
        exact ⟨text, member⟩
    | malformed => cases same
  · rintro ⟨text, member⟩
    exact ⟨_, member, rfl⟩

private theorem visitedPaths_flatMap {Item : Type} (items : List Item)
    (visits : Item → List ResponseVisit) :
    visitedPaths (items.flatMap visits) = items.flatMap fun item => visitedPaths (visits item) :=
  List.filterMap_flatMap

private def VisitsOnce
    (walk : SubscriptionSelection → GraphQLObject → ResponsePath → List ResponseVisit) : Prop :=
  ∀ selection response path, (GraphQLValue.object response).distinctNames = true →
    (visitedPaths (walk selection response path)).Nodup

private theorem disjoint_below {path : ResponsePath} {left right : PathSegment}
    {leftPaths rightPaths : List ResponsePath} (different : left ≠ right)
    (belowLeft : ∀ visited ∈ leftPaths, ∃ rest, visited = path ++ left :: rest)
    (belowRight : ∀ visited ∈ rightPaths, ∃ rest, visited = path ++ right :: rest) :
    List.Disjoint leftPaths rightPaths := by
  intro visited inLeft inRight
  obtain ⟨rest, rfl⟩ := belowLeft visited inLeft
  obtain ⟨rest', same⟩ := belowRight _ inRight
  have segments := List.append_cancel_left same
  exact different (List.cons.inj segments).1

private theorem nodup_items (reaches : Reaches walk) (once : VisitsOnce walk)
    (path : ResponsePath) (selection : SubscriptionSelection) {items : List GraphQLValue}
    (distinct : distinctNamesItems items = true) :
    (visitedPaths (nestedVisits walk path (some selection) (.array items))).Nodup := by
  unfold nestedVisits
  rw [visitedPaths_flatMap, List.nodup_flatMap]
  have itemDistinct : ∀ entry ∈ (flattenList items).zipIdx, entry.1.distinctNames = true :=
    fun entry member => distinctNames_of_mem_flattenList distinct
      (List.mem_of_getElem? (List.mem_zipIdx_iff_getElem?.mp member))
  constructor
  · intro (item, index) member
    have own := itemDistinct _ member
    cases item with
    | object fields => exact once selection fields _ own
    | _ => exact List.nodup_nil
  · have indices : (flattenList items).zipIdx.Pairwise fun left right => left.2 ≠ right.2 := by
      rw [← List.pairwise_map, List.zipIdx_map_snd]
      exact List.nodup_range'
    refine indices.imp_of_mem fun {left right} leftMember rightMember different => ?_
    have below : ∀ entry ∈ (flattenList items).zipIdx,
        ∀ visited ∈ visitedPaths (itemVisits (walk selection) path entry),
          ∃ rest, visited = path ++ PathSegment.index entry.2 :: rest := by
      intro (item, index) member visited inside
      obtain ⟨text, inside⟩ := mem_visitedPaths.mp inside
      have own := itemDistinct _ member
      cases item with
      | object fields =>
          obtain ⟨rest, rfl, _⟩ := reaches selection fields _ visited text own inside
          exact ⟨rest, by simp⟩
      | _ => cases inside
    have steps : PathSegment.index left.2 ≠ .index right.2 := fun same =>
      different (PathSegment.index.inj same)
    exact disjoint_below steps (below left leftMember) (below right rightMember)

private theorem nodup_nestedVisits (reaches : Reaches walk) (once : VisitsOnce walk)
    (path : ResponsePath) (selection : Option SubscriptionSelection) {value : GraphQLValue}
    (distinct : value.distinctNames = true) :
    (visitedPaths (nestedVisits walk path selection value)).Nodup := by
  cases selection with
  | none => exact List.nodup_nil
  | some selection =>
      cases value with
      | object fields => exact once selection fields path distinct
      | array items => exact nodup_items reaches once path selection distinct
      | _ => exact List.nodup_nil

private theorem nodup_propertyVisits (reaches : Reaches walk) (once : VisitsOnce walk)
    (path : ResponsePath) (targetSelection : Option FieldSelections)
    {property : String × GraphQLValue} (distinct : property.2.distinctNames = true) :
    (visitedPaths (propertyVisits walk path targetSelection property)).Nodup := by
  obtain ⟨name, value⟩ := property
  unfold propertyVisits visitedPaths
  rw [List.filterMap_append]
  cases targetSelection with
  | none =>
      cases value with
      | string text => exact List.nodup_singleton _
      | _ => exact List.nodup_nil
  | some targetSelection =>
      have nested := @nodup_nestedVisits walk reaches once (path ++ [.field name])
        ((targetSelection.lookup name).bind (·.selection)) value distinct
      cases value with
      | string text =>
          have none : ∀ selection : Option SubscriptionSelection,
              nestedVisits walk (path ++ [.field name]) selection (.string text) = [] := by
            intro selection
            cases selection <;> rfl
          simp only [none]
          exact List.nodup_singleton _
      | _ => exact nested

private theorem once_responseVisits (fuel : Nat) : VisitsOnce (responseVisits fuel) := by
  induction fuel with
  | zero => exact fun _ _ _ _ => List.nodup_nil
  | succ fuel ih =>
      intro selection response path distinct
      obtain ⟨unique, inner⟩ := Bool.and_eq_true_iff.mp distinct
      have reaches := reaches_responseVisits fuel
      unfold responseVisits
      rw [visitedPaths_flatMap, List.nodup_flatMap]
      constructor
      · intro property member
        exact nodup_propertyVisits reaches ih path _ (distinctNames_of_mem_fields inner member)
      · have names : response.Pairwise fun left right => left.1 ≠ right.1 :=
          List.pairwise_map.mp (of_decide_eq_true unique)
        refine names.imp_of_mem fun {left right} leftMember rightMember different => ?_
        have below : ∀ property ∈ response, ∀ visited ∈ visitedPaths
            (propertyVisits (responseVisits fuel) path
              (getFieldsForType selection (GraphQLObject.property response "__typename").text?)
              property),
            ∃ rest, visited = path ++ PathSegment.field property.1 :: rest := by
          intro property member visited inside
          obtain ⟨text, inside⟩ := mem_visitedPaths.mp inside
          obtain ⟨rest, same, _⟩ :=
            at?_of_mem_propertyVisits reaches (distinctNames_of_mem_fields inner member) inside
          exact ⟨rest, same⟩
        have steps : PathSegment.field left.1 ≠ .field right.1 := fun same =>
          different (PathSegment.field.inj same)
        exact disjoint_below steps (below left leftMember) (below right rightMember)

theorem nodup_responseVisits (fuel : Nat) (selection : SubscriptionSelection)
    {response : GraphQLObject} (distinct : (GraphQLValue.object response).distinctNames = true) :
    (visitedPaths (responseVisits fuel selection response [])).Nodup :=
  once_responseVisits fuel selection response [] distinct

end Paths

end Client

end Houdini.Runtime
