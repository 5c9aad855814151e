import Mathlib.Data.List.Basic

/-! The script values that travel through the runtime: response data, stored
fields and links, and evaluated variables. -/

set_option autoImplicit false

namespace Houdini.Runtime

/-- `GraphQLValue` together with what a stored field can hold: links are
strings, nested lists of links are arrays, and a component field holds the
closure built by `defaultComponentField`. A number is kept as the text
`JSON.stringify` prints for it, which determines the number. -/
inductive GraphQLValue where
  | undefined
  | null
  | boolean (value : Bool)
  | number (text : String)
  | string (value : String)
  | array (items : List GraphQLValue)
  | object (fields : List (String × GraphQLValue))
  | component (key prop fragment parent : String) (arguments : List (String × GraphQLValue))
  deriving Repr

abbrev GraphQLObject := List (String × GraphQLValue)

namespace GraphQLValue

instance : Inhabited GraphQLValue := ⟨.undefined⟩

mutual

def same : GraphQLValue → GraphQLValue → Bool
  | .undefined, .undefined => true
  | .null, .null => true
  | .boolean left, .boolean right => left == right
  | .number left, .number right => left == right
  | .string left, .string right => left == right
  | .array left, .array right => sameItems left right
  | .object left, .object right => sameFields left right
  | .component key prop fragment parent left, .component key' prop' fragment' parent' right =>
      key == key' && prop == prop' && fragment == fragment' && parent == parent' &&
        sameFields left right
  | _, _ => false

def sameItems : List GraphQLValue → List GraphQLValue → Bool
  | [], [] => true
  | left :: lefts, right :: rights => same left right && sameItems lefts rights
  | _, _ => false

def sameFields : List (String × GraphQLValue) → List (String × GraphQLValue) → Bool
  | [], [] => true
  | (name, left) :: lefts, (name', right) :: rights =>
      name == name' && same left right && sameFields lefts rights
  | _, _ => false

end

mutual

theorem same_iff : ∀ left right : GraphQLValue, same left right = true ↔ left = right
  | .undefined, right | .null, right | .boolean _, right | .number _, right
  | .string _, right => by cases right <;> simp [same]
  | .array left, right => by
      cases right <;> simp [same]
      case array right => exact sameItems_iff left right
  | .object left, right => by
      cases right <;> simp [same]
      case object right => exact sameFields_iff left right
  | .component key prop fragment parent left, right => by
      cases right <;> simp [same]
      case component key' prop' fragment' parent' right =>
        rw [sameFields_iff left right]
        tauto

theorem sameItems_iff : ∀ left right : List GraphQLValue,
    sameItems left right = true ↔ left = right
  | [], right => by cases right <;> simp [sameItems]
  | left :: lefts, right => by
      cases right with
      | nil => simp [sameItems]
      | cons right rights => simp [sameItems, same_iff left right, sameItems_iff lefts rights]

theorem sameFields_iff : ∀ left right : List (String × GraphQLValue),
    sameFields left right = true ↔ left = right
  | [], right => by cases right <;> simp [sameFields]
  | (name, left) :: lefts, right => by
      cases right with
      | nil => simp [sameFields]
      | cons entry rights =>
          obtain ⟨name', right⟩ := entry
          simp [sameFields, same_iff left right, sameFields_iff lefts rights, and_assoc]

end

instance : DecidableEq GraphQLValue := fun left right =>
  decidable_of_iff (same left right = true) (same_iff left right)

/-- `typeof value !== 'undefined'` -/
def isDefined : GraphQLValue → Bool
  | .undefined => false
  | _ => true

def isArray : GraphQLValue → Bool
  | .array _ => true
  | _ => false

def isComponent : GraphQLValue → Bool
  | .component .. => true
  | _ => false

/-- The truthiness of a value: `undefined`, `null`, `false`, `0` and the empty
string are falsy. -/
def truthy : GraphQLValue → Bool
  | .undefined | .null => false
  | .boolean value => value
  | .number text => text != "0"
  | .string value => value != ""
  | .array _ | .object _ | .component .. => true

def items : GraphQLValue → List GraphQLValue
  | .array items => items
  | _ => []

@[simp] theorem isDefined_undefined : isDefined .undefined = false := rfl

theorem isDefined_eq_false_iff {value : GraphQLValue} :
    value.isDefined = false ↔ value = .undefined := by
  cases value <;> simp [isDefined]

theorem isDefined_iff {value : GraphQLValue} : value.isDefined = true ↔ value ≠ .undefined := by
  cases value <;> simp [isDefined]

theorem isArray_iff {value : GraphQLValue} :
    value.isArray = true ↔ ∃ items, value = .array items := by
  cases value <;> simp [isArray]

mutual

def flatten : List GraphQLValue → List GraphQLValue
  | [] => []
  | element :: rest => flattenEntry element ++ flatten rest

def flattenEntry : GraphQLValue → List GraphQLValue
  | .array items => flatten items
  | element => if element.truthy then [element] else []

end

def flattenLinks : GraphQLValue → List GraphQLValue
  | .array items => flatten items
  | value => flatten [value]

mutual

/-- The text a value is coerced to, in a template or when it indexes an object. -/
def propertyKey : GraphQLValue → String
  | .string value | .number value => value
  | .boolean value => if value then "true" else "false"
  | .undefined => "undefined"
  | .null => "null"
  | .array items => joinItems items
  | .object _ => "[object Object]"
  | .component key .. => key

def joinItems : List GraphQLValue → String
  | [] => ""
  | [item] => itemText item
  | item :: rest => itemText item ++ "," ++ joinItems rest

/-- `null` and `undefined` have no text inside of an array. -/
def itemText : GraphQLValue → String
  | .undefined | .null => ""
  | .string value | .number value => value
  | .boolean value => if value then "true" else "false"
  | .array items => joinItems items
  | .object _ => "[object Object]"
  | .component key .. => key

end

end GraphQLValue

def GraphQLObject.property (object : GraphQLObject) (name : String) : GraphQLValue :=
  (object.lookup name).getD .undefined

def GraphQLObject.setProperty (object : GraphQLObject) (name : String) (value : GraphQLValue) :
    GraphQLObject :=
  match object with
  | [] => [(name, value)]
  | (candidate, current) :: rest =>
      if candidate = name then (name, value) :: rest
      else (candidate, current) :: GraphQLObject.setProperty rest name value

theorem GraphQLObject.property_setProperty (object : GraphQLObject) (name other : String)
    (value : GraphQLValue) :
    (object.setProperty name value).property other =
      if other = name then value else object.property other := by
  induction object with
  | nil =>
      by_cases same : other = name
      · simp [setProperty, property, same]
      · have different : (other == name) = false := beq_eq_false_iff_ne.mpr same
        simp [setProperty, property, List.lookup_cons, different, same]
  | cons entry rest ih =>
      obtain ⟨candidate, current⟩ := entry
      unfold setProperty
      unfold property at ih ⊢
      by_cases found : candidate = name
      · rw [if_pos found, List.lookup_cons, List.lookup_cons, found]
        by_cases same : other = name
        · simp [same]
        · have different : (other == name) = false := beq_eq_false_iff_ne.mpr same
          simp [different, same]
      · rw [if_neg found, List.lookup_cons, List.lookup_cons]
        by_cases same : other = candidate
        · subst same
          simp [found]
        · have different : (other == candidate) = false := beq_eq_false_iff_ne.mpr same
          simp only [different]
          exact ih

def GraphQLValue.member (value : GraphQLValue) (name : String) : GraphQLValue :=
  match value with
  | .object fields => GraphQLObject.property fields name
  | _ => .undefined

def GraphQLValue.text? : GraphQLValue → Option String
  | .string text => some text
  | _ => none

end Houdini.Runtime
