import Houdini.Plugin.Documents.Collected
import Houdini.Plugin.FragmentArguments.Hash
import Houdini.Plugin.Json
import Mathlib.Data.List.Sort
import Mathlib.Data.String.Basic

/-! The names of the fragments that the spreads with arguments are pointed to. -/

set_option autoImplicit false

namespace Houdini.Plugin

structure FragmentDocument where
  name : String
  docArgs : List (String × Option ArgumentValue) := []

/-- `json.Marshal` sorts the keys of a map. -/
abbrev keyOrder (first second : String × String) : Prop := first.1 ≤ second.1

structure WithSpread where
  fragment : FragmentDocument
  withArgs : List (String × ArgumentValue)

namespace WithSpread

def covers (spread : WithSpread) (name : String) : Bool := spread.withArgs.any (·.1 == name)

def collectArgs {Value : Type} (spread : WithSpread) (collect : ArgumentValue → Value) :
    OrderedMap String Value :=
  let passed := spread.withArgs.foldl (fun args arg => args.set arg.1 (collect arg.2)) ∅
  spread.fragment.docArgs.foldl (fun args docArg =>
    match docArg.2 with
    | some value => if spread.covers docArg.1 then args else args.set docArg.1 (collect value)
    | none => args) passed

def fragmentScope (spread : WithSpread) : OrderedMap String ArgumentValue := spread.collectArgs id

def fragmentHashArgs (spread : WithSpread) : OrderedMap String String :=
  spread.collectArgs ArgumentValue.raw

def hashedText (spread : WithSpread) : String :=
  String.ofList (jsonEntries (spread.fragmentHashArgs.entries.insertionSort keyOrder))

def newFragmentName (spread : WithSpread) : String :=
  spread.fragment.name ++ "_" ++ murmurHash spread.hashedText

def argumentText (spread : WithSpread) (name : String) : Option String :=
  (spread.fragmentScope.get? name).map ArgumentValue.raw

private theorem get?_collectArgs {Value : Type} (spread : WithSpread)
    (collect : ArgumentValue → Value) (name : String) :
    (spread.collectArgs collect).get? name = (spread.fragmentScope.get? name).map collect := by
  have passed (withArgs : List (String × ArgumentValue)) (args : OrderedMap String Value)
      (scope : OrderedMap String ArgumentValue)
      (same : args.get? name = (scope.get? name).map collect) :
      (withArgs.foldl (fun args arg => args.set arg.1 (collect arg.2)) args).get? name =
        ((withArgs.foldl (fun args arg => args.set arg.1 arg.2) scope).get? name).map collect := by
    induction withArgs generalizing args scope with
    | nil => exact same
    | cons arg rest ih =>
        refine ih _ _ ?_
        rw [OrderedMap.get?_set, OrderedMap.get?_set]
        split
        · rfl
        · exact same
  have defaults (docArgs : List (String × Option ArgumentValue)) (args : OrderedMap String Value)
      (scope : OrderedMap String ArgumentValue)
      (same : args.get? name = (scope.get? name).map collect) :
      (docArgs.foldl (fun args docArg =>
          match docArg.2 with
          | some value =>
              if spread.covers docArg.1 then args else args.set docArg.1 (collect value)
          | none => args) args).get? name =
        ((docArgs.foldl (fun args docArg =>
          match docArg.2 with
          | some value => if spread.covers docArg.1 then args else args.set docArg.1 value
          | none => args) scope).get? name).map collect := by
    induction docArgs generalizing args scope with
    | nil => exact same
    | cons docArg rest ih =>
        obtain ⟨declared, defaultValue⟩ := docArg
        refine ih _ _ ?_
        cases defaultValue with
        | none => exact same
        | some value =>
            dsimp only
            split
            · exact same
            · rw [OrderedMap.get?_set, OrderedMap.get?_set]
              split
              · rfl
              · exact same
  exact defaults _ _ _ (passed _ _ _ rfl)

private instance : Std.Total keyOrder := ⟨fun first second => le_total first.1 second.1⟩

private instance : IsTrans (String × String) keyOrder :=
  ⟨fun _ _ _ first second => le_trans first second⟩

private theorem entries_of_sorted {args others : OrderedMap String String}
    (same : args.entries.insertionSort keyOrder = others.entries.insertionSort keyOrder)
    (name : String) : args.get? name = others.get? name := by
  have members (entry : String × String) : entry ∈ args.entries ↔ entry ∈ others.entries := by
    rw [← List.mem_insertionSort keyOrder, same, List.mem_insertionSort]
  refine Option.ext fun text => ?_
  rw [← OrderedMap.mem_entries_iff, ← OrderedMap.mem_entries_iff]
  exact members (name, text)

private theorem sorted_of_get? {args others : OrderedMap String String}
    (same : ∀ name, args.get? name = others.get? name) :
    args.entries.insertionSort keyOrder = others.entries.insertionSort keyOrder := by
  have members (entry : String × String) : entry ∈ args.entries ↔ entry ∈ others.entries := by
    rw [OrderedMap.mem_entries_iff, OrderedMap.mem_entries_iff, same]
  have perm : args.entries.Perm others.entries :=
    (List.perm_ext_iff_of_nodup args.nodupKeys.of_map others.nodupKeys.of_map).mpr members
  refine List.Perm.eq_of_pairwise ?_ (List.pairwise_insertionSort keyOrder _)
    (List.pairwise_insertionSort keyOrder _)
    ((List.perm_insertionSort _ _).trans (perm.trans (List.perm_insertionSort _ _).symm))
  intro first second firstMember secondMember below above
  have sameKey : first.1 = second.1 := le_antisymm below above
  have firstFound := OrderedMap.mem_entries_iff.mp ((List.mem_insertionSort _).mp firstMember)
  have secondFound := OrderedMap.mem_entries_iff.mp ((List.mem_insertionSort _).mp secondMember)
  rw [same, sameKey, secondFound] at firstFound
  exact Prod.ext sameKey (Option.some.inj firstFound).symm

private theorem fragmentName_unique {name other hash otherHash : List Char}
    (clean : '_' ∉ hash) (otherClean : '_' ∉ otherHash)
    (same : name ++ '_' :: hash = other ++ '_' :: otherHash) : name = other ∧ hash = otherHash := by
  induction name generalizing other with
  | nil =>
      cases other with
      | nil => exact ⟨rfl, (List.cons.inj same).2⟩
      | cons char rest =>
          have below := (List.cons.inj same).2
          rw [below] at clean
          simp at clean
  | cons char rest ih =>
      cases other with
      | nil =>
          have below := (List.cons.inj same).2
          rw [← below] at otherClean
          simp at otherClean
      | cons otherChar otherRest =>
          obtain ⟨rfl, below⟩ := List.cons.inj same
          obtain ⟨rfl, hashes⟩ := ih below
          exact ⟨rfl, hashes⟩

/-- Without collisions, two spreads get the same name just if they name the same fragment and
pass the same texts. -/
theorem newFragmentName_eq_iff {spread other : WithSpread}
    (noCollision : murmurHash spread.hashedText = murmurHash other.hashedText →
      spread.hashedText = other.hashedText) :
    spread.newFragmentName = other.newFragmentName ↔
      spread.fragment.name = other.fragment.name ∧
        ∀ name, spread.argumentText name = other.argumentText name := by
  have texts (spread : WithSpread) (name : String) :
      spread.fragmentHashArgs.get? name = spread.argumentText name :=
    spread.get?_collectArgs ArgumentValue.raw name
  constructor
  · intro same
    have chars := congrArg String.toList same
    unfold newFragmentName at chars
    simp only [String.toList_append, List.append_assoc] at chars
    obtain ⟨names, hashes⟩ := fragmentName_unique (underscore_not_mem_murmurHash _)
      (underscore_not_mem_murmurHash _) chars
    have hashed := noCollision (String.toList_injective hashes)
    have sorted := jsonEntries_inj (String.ofList_injective hashed)
    refine ⟨String.toList_injective names, fun name => ?_⟩
    rw [← texts, ← texts, entries_of_sorted sorted]
  · intro same
    have hashed : spread.hashedText = other.hashedText := by
      unfold hashedText
      have sameTexts (name : String) :
          spread.fragmentHashArgs.get? name = other.fragmentHashArgs.get? name := by
        rw [texts, texts, same.2]
      rw [sorted_of_get? sameTexts]
    unfold newFragmentName
    rw [same.1, hashed]

def PassesSame (spread other : WithSpread) : Prop :=
  ∀ docArg ∈ spread.fragment.docArgs,
    spread.fragmentScope.get? docArg.1 = other.fragmentScope.get? docArg.1

/-- Two spreads only share a fragment that suits both, just if no two different values that they
pass to one fragment have the same texts. -/
theorem newFragmentName_suits_iff (spread other : WithSpread)
    (unique : spread.fragment.name = other.fragment.name → spread.fragment = other.fragment)
    (noCollision : murmurHash spread.hashedText = murmurHash other.hashedText →
      spread.hashedText = other.hashedText) :
    (spread.newFragmentName = other.newFragmentName →
        spread.fragment = other.fragment ∧ spread.PassesSame other) ↔
      (spread.fragment = other.fragment → spread.PassesSame other ∨
        ∃ name, spread.argumentText name ≠ other.argumentText name) := by
  rw [newFragmentName_eq_iff noCollision]
  constructor
  · intro suits sameFragment
    by_cases texts : ∀ name, spread.argumentText name = other.argumentText name
    · exact .inl (suits ⟨by rw [sameFragment], texts⟩).2
    · exact .inr (not_forall.mp texts)
  · intro told named
    have sameFragment := unique named.1
    refine ⟨sameFragment, ?_⟩
    rcases told sameFragment with same | ⟨name, different⟩
    · exact same
    · exact absurd (named.2 name) different

def userInfo : FragmentDocument where
  name := "UserInfo"
  docArgs := [("filter", none), ("name", some (.leaf .string "Hello"))]

/-- The fragment is spread `@with(filter: \x7bage: ...\x7d)`. -/
def usersOfAge (age : String) : WithSpread where
  fragment := userInfo
  withArgs := [("filter", .object [("age", .leaf .int age)])]

def usersNamed (name : String) : WithSpread where
  fragment := userInfo
  withArgs := [("name", .leaf .string name)]

theorem newFragmentName_suits_usersNamed :
    ((usersNamed "Ada").newFragmentName = (usersOfAge "1").newFragmentName →
        userInfo = userInfo ∧ (usersNamed "Ada").PassesSame (usersOfAge "1")) ↔
      (userInfo = userInfo → (usersNamed "Ada").PassesSame (usersOfAge "1") ∨
        ∃ name, (usersNamed "Ada").argumentText name ≠ (usersOfAge "1").argumentText name) :=
  newFragmentName_suits_iff (usersNamed "Ada") (usersOfAge "1") (fun _ => rfl)
    fun collision => absurd collision (by decide +kernel)

/-- Users of different ages are asked for with one fragment. -/
theorem newFragmentName_shared_usersOfAge :
    (usersOfAge "1").newFragmentName = (usersOfAge "2").newFragmentName ∧
      (usersOfAge "1").fragment = (usersOfAge "2").fragment ∧
      ¬ (usersOfAge "1").PassesSame (usersOfAge "2") := by
  refine ⟨rfl, rfl, fun same => ?_⟩
  have filter : some (ArgumentValue.object [("age", .leaf .int "1")]) =
      some (.object [("age", .leaf .int "2")]) := same ("filter", none) List.mem_cons_self
  simp [ArgumentValue.object, ArgumentValue.leaf] at filter

end WithSpread

end Houdini.Plugin
