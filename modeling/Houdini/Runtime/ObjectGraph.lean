import Mathlib.Data.Fintype.Card

/-! Objects that may contain themselves, and how they are compared. A comparison keeps a table with
the last partner of each object on its left. -/

set_option autoImplicit false

namespace Houdini.Runtime.ObjectGraph

variable {Primitive : Type} {size : Nat}

inductive Value (Primitive : Type) (size : Nat) where
  | primitive (value : Primitive)
  | object (id : Fin size)
  deriving DecidableEq

/-- An invalid `Date` has no time. -/
inductive Kind where
  | plain
  | array
  | date (time : Option Int)
  deriving DecidableEq

/-- The own properties in the order of `Reflect.ownKeys`. Those of an array are its indices and its
length. -/
structure Obj (Primitive : Type) (size : Nat) where
  kind : Kind := .plain
  properties : List (String × Value Primitive size)
  nodup : (properties.map Prod.fst).Nodup
  bare : ∀ time, kind = .date time → properties = []

abbrev Graph (Primitive : Type) (size : Nat) := Fin size → Obj Primitive size

abbrev Partners (size : Nat) := Fin size → Option (Fin size)

/-- Times are compared with `===`, by which no invalid one is equal to another. -/
def sameTime : Option Int → Option Int → Bool
  | some left, some right => left = right
  | _, _ => false

variable [DecidableEq Primitive]

/-- The loop over the keys on the left. A key that the other object only inherits is that of a
function or of a prototype, which no value here is equal to. -/
def compareKeys
    (compare : Partners size → Value Primitive size → Value Primitive size →
      Option (Bool × Partners size))
    (others : List (String × Value Primitive size)) :
    Partners size → List (String × Value Primitive size) → Option (Bool × Partners size)
  | map, [] => some (true, map)
  | map, (key, value) :: rest =>
      match others.lookup key with
      | none => some (false, map)
      | some other =>
          match compare map value other with
          | some (true, map) => compareKeys compare others map rest
          | result => result

/-- There is no result if the calls nest too deeply. Primitive values that are told apart by
`Object.is` are different here. -/
def deepEquals (graph : Graph Primitive size) :
    Nat → Partners size → Value Primitive size → Value Primitive size →
      Option (Bool × Partners size)
  | 0, _, _, _ => none
  | depth + 1, map, objA, objB =>
      if objA = objB then some (true, map)
      else
        match objA, objB with
        | .object a, .object b =>
            match (graph a).kind, (graph b).kind with
            | .date timeA, .date timeB => some (sameTime timeA timeB, map)
            | _, _ =>
                if map a = some b then some (true, map)
                else
                  let map := Function.update map a (some b)
                  if (graph a).properties.length ≠ (graph b).properties.length then
                    some (false, map)
                  else
                    compareKeys (deepEquals graph depth) (graph b).properties map
                      (graph a).properties
        | _, _ => some (false, map)

end Houdini.Runtime.ObjectGraph
