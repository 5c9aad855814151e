import Houdini.Data.OrderedMap

/-! Caches of a bounded size. The entry that was not used for the longest time has to go. -/

set_option autoImplicit false

universe u v

structure LruCache (Key : Type u) (Value : Type v) where
  capacity : Nat
  map : OrderedMap Key Value

namespace LruCache

variable {Key : Type u} {Value : Type v} [DecidableEq Key]

def empty (capacity : Nat) : LruCache Key Value := { capacity, map := ∅ }

def find? (cache : LruCache Key Value) (key : Key) : Option Value := cache.map.get? key

def has (cache : LruCache Key Value) (key : Key) : Bool := (cache.find? key).isSome

def dropOldest (capacity : Nat) (map : OrderedMap Key Value) : OrderedMap Key Value :=
  match map.entries with
  | [] => map
  | (oldest, _) :: rest => if capacity ≤ rest.length then map.erase oldest else map

def set (cache : LruCache Key Value) (key : Key) (value : Value) : LruCache Key Value :=
  { cache with map := dropOldest cache.capacity ((cache.map.erase key).set key value) }

def touch (cache : LruCache Key Value) (key : Key) : LruCache Key Value :=
  match cache.find? key with
  | none => cache
  | some value => { cache with map := (cache.map.erase key).set key value }

def delete (cache : LruCache Key Value) (key : Key) : LruCache Key Value :=
  { cache with map := cache.map.erase key }

def clear (cache : LruCache Key Value) : LruCache Key Value := { cache with map := ∅ }

@[simp] theorem find?_delete_self (cache : LruCache Key Value) (key : Key) :
    (cache.delete key).find? key = none := OrderedMap.get?_erase_self _ _

theorem find?_delete_of_ne (cache : LruCache Key Value) {key other : Key} (apart : other ≠ key) :
    (cache.delete key).find? other = cache.find? other := OrderedMap.get?_erase_of_ne _ apart

theorem find?_of_delete {cache : LruCache Key Value} {key other : Key} {value : Value}
    (found : (cache.delete key).find? other = some value) :
    other ≠ key ∧ cache.find? other = some value := by
  by_cases same : other = key
  · rw [same, find?_delete_self] at found
    cases found
  · rw [find?_delete_of_ne cache same] at found
    exact ⟨same, found⟩

@[simp] theorem find?_touch (cache : LruCache Key Value) (key other : Key) :
    (cache.touch key).find? other = cache.find? other := by
  unfold touch
  cases found : cache.find? key with
  | none => rfl
  | some value =>
      change ((cache.map.erase key).set key value).get? other = cache.map.get? other
      by_cases same : other = key
      · rw [same, OrderedMap.get?_set_self]
        exact found.symm
      · rw [OrderedMap.get?_set_of_ne _ _ same, OrderedMap.get?_erase_of_ne _ same]

theorem get?_of_dropOldest {capacity : Nat} {map : OrderedMap Key Value} {key : Key} {value : Value}
    (found : (dropOldest capacity map).get? key = some value) : map.get? key = some value := by
  unfold dropOldest at found
  split at found
  · exact found
  · next oldest _ rest _ =>
      split at found
      · by_cases same : key = oldest
        · rw [same, OrderedMap.get?_erase_self] at found
          cases found
        · rwa [OrderedMap.get?_erase_of_ne _ same] at found
      · exact found

theorem find?_of_set {cache : LruCache Key Value} {key other : Key} {value found : Value}
    (success : (cache.set key value).find? other = some found) :
    (other = key ∧ found = value) ∨ (other ≠ key ∧ cache.find? other = some found) := by
  have kept : ((cache.map.erase key).set key value).get? other = some found :=
    get?_of_dropOldest success
  by_cases same : other = key
  · rw [same, OrderedMap.get?_set_self] at kept
    exact Or.inl ⟨same, (Option.some.inj kept).symm⟩
  · rw [OrderedMap.get?_set_of_ne _ _ same, OrderedMap.get?_erase_of_ne _ same] at kept
    exact Or.inr ⟨same, kept⟩

end LruCache
