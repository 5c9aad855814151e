import Houdini.Data.OrderedMap
import Houdini.Runtime.ObjectGraph

/-! When the comparison of two object graphs ends, and whether it tells them apart. -/

set_option autoImplicit false

namespace Houdini.Runtime.ObjectGraph

variable {Primitive : Type} {size : Nat} {graph : Graph Primitive size}

def SameKeys (left right : Obj Primitive size) : Prop :=
  ∀ key, key ∈ left.properties.map Prod.fst ↔ key ∈ right.properties.map Prod.fst

def Related (related : Value Primitive size → Value Primitive size → Prop)
    (left right : Obj Primitive size) : Prop :=
  ∀ key value other, (key, value) ∈ left.properties → (key, other) ∈ right.properties →
    related value other

def Matches (graph : Graph Primitive size)
    (related : Value Primitive size → Value Primitive size → Prop) :
    Value Primitive size → Value Primitive size → Prop
  | .primitive left, .primitive right => left = right
  | .object a, .object b => (graph a).kind = (graph b).kind ∧ SameKeys (graph a) (graph b) ∧
      Related related (graph a) (graph b)
  | _, _ => False

def Bisimilar (graph : Graph Primitive size) (left right : Value Primitive size) : Prop :=
  ∃ related : Value Primitive size → Value Primitive size → Prop,
    (∀ left right, related left right → Matches graph related left right) ∧ related left right

theorem Bisimilar.refl (value : Value Primitive size) : Bisimilar graph value value := by
  refine ⟨Eq, fun left right same => ?_, rfl⟩
  subst same
  cases left with
  | primitive => rfl
  | object a =>
      refine ⟨rfl, fun key => Iff.rfl, fun key value other member otherMember => ?_⟩
      have found := (OrderedMap.mem_iff_lookup (graph a).nodup).mp member
      rw [(OrderedMap.mem_iff_lookup (graph a).nodup).mp otherMember] at found
      exact (Option.some.inj found).symm

def Kind.Dates (left right : Kind) : Prop :=
  ∃ timeA timeB, left = .date timeA ∧ right = .date timeB

/-- The kinds of objects are not compared, and dates by their times alone. -/
def Resembles (graph : Graph Primitive size)
    (related : Value Primitive size → Value Primitive size → Prop) :
    Value Primitive size → Value Primitive size → Prop
  | .primitive left, .primitive right => left = right
  | .object a, .object b => a = b ∨
      (∃ time, (graph a).kind = .date (some time) ∧ (graph b).kind = .date (some time)) ∨
      (¬ Kind.Dates (graph a).kind (graph b).kind ∧ SameKeys (graph a) (graph b) ∧
        Related related (graph a) (graph b))
  | _, _ => False

def LooksEqual (graph : Graph Primitive size) (left right : Value Primitive size) : Prop :=
  ∃ related : Value Primitive size → Value Primitive size → Prop,
    (∀ left right, related left right → Resembles graph related left right) ∧ related left right

/-- The pairs of values that are found under the same keys. Nothing is compared inside of one
object. -/
inductive Paired (graph : Graph Primitive size) (left right : Value Primitive size) :
    Value Primitive size → Value Primitive size → Prop where
  | here : Paired graph left right left right
  | inside {a b : Fin size} {key : String} {value other : Value Primitive size}
      (outer : Paired graph left right (.object a) (.object b)) (different : a ≠ b)
      (member : (key, value) ∈ (graph a).properties)
      (otherMember : (key, other) ∈ (graph b).properties) :
      Paired graph left right value other

def Compared (graph : Graph Primitive size) (left right : Value Primitive size)
    (a b : Fin size) : Prop :=
  Paired graph left right (.object a) (.object b) ∧ a ≠ b

theorem LooksEqual.resembles {left right : Value Primitive size}
    (looks : LooksEqual graph left right) :
    Resembles graph (LooksEqual graph) left right := by
  obtain ⟨related, closed, start⟩ := looks
  have layer := closed left right start
  cases left with
  | primitive =>
      cases right with
      | primitive => exact layer
      | object => exact layer
  | object a =>
      cases right with
      | primitive => exact layer
      | object b =>
          rcases layer with same | dates | ⟨kinds, keys, values⟩
          · exact .inl same
          · exact .inr (.inl dates)
          · exact .inr (.inr ⟨kinds, keys, fun key value other member otherMember =>
              ⟨related, closed, values key value other member otherMember⟩⟩)

theorem Bisimilar.matches' {left right : Value Primitive size}
    (bisimilar : Bisimilar graph left right) :
    Matches graph (Bisimilar graph) left right := by
  obtain ⟨related, closed, start⟩ := bisimilar
  have layer := closed left right start
  cases left with
  | primitive =>
      cases right with
      | primitive => exact layer
      | object => exact layer
  | object a =>
      cases right with
      | primitive => exact layer
      | object b =>
          obtain ⟨kinds, keys, values⟩ := layer
          exact ⟨kinds, keys, fun key value other member otherMember =>
            ⟨related, closed, values key value other member otherMember⟩⟩

theorem LooksEqual.bisimilar {left right : Value Primitive size}
    (looks : LooksEqual graph left right)
    (kinds : ∀ a b, Compared graph left right a b → (graph a).kind = (graph b).kind) :
    Bisimilar graph left right := by
  refine ⟨fun value other => value = other ∨
    (Paired graph left right value other ∧ LooksEqual graph value other), ?_, .inr ⟨.here, looks⟩⟩
  intro value other related
  have refl : ∀ a : Fin size, Matches graph (fun value other => value = other ∨
      (Paired graph left right value other ∧ LooksEqual graph value other))
      (.object a) (.object a) := by
    intro a
    have reflexive : Bisimilar graph (.object a) (.object a) := Bisimilar.refl _
    obtain ⟨same, keys, values⟩ := reflexive.matches'
    refine ⟨same, keys, fun key value other member otherMember => .inl ?_⟩
    have found := (OrderedMap.mem_iff_lookup (graph a).nodup).mp member
    rw [(OrderedMap.mem_iff_lookup (graph a).nodup).mp otherMember] at found
    exact (Option.some.inj found).symm
  cases related with
  | inl same =>
      subst same
      cases value with
      | primitive => rfl
      | object a => exact refl a
  | inr both =>
      obtain ⟨paired, alike⟩ := both
      have layer := alike.resembles
      cases value with
      | primitive =>
          cases other with
          | primitive => exact layer
          | object => exact layer
      | object a =>
          cases other with
          | primitive => exact layer
          | object b =>
              by_cases one : a = b
              · subst one
                exact refl a
              · rcases layer with same | dates | ⟨_, keys, values⟩
                · exact absurd same one
                · obtain ⟨time, first, second⟩ := dates
                  refine ⟨first.trans second.symm, fun key => ?_, fun key value other member => ?_⟩
                  · rw [(graph a).bare _ first, (graph b).bare _ second]
                  · rw [(graph a).bare _ first] at member
                    cases member
                · exact ⟨kinds a b ⟨paired, one⟩, keys, fun key value other member otherMember =>
                    .inr ⟨.inside paired one member otherMember,
                      values key value other member otherMember⟩⟩

theorem Bisimilar.looksEqual {left right : Value Primitive size}
    (bisimilar : Bisimilar graph left right)
    (valid : ∀ a b, Compared graph left right a b → (graph a).kind ≠ .date none) :
    LooksEqual graph left right := by
  refine ⟨fun value other => Paired graph left right value other ∧ Bisimilar graph value other ∨
    value = other, fun value other related => ?_, .inl ⟨.here, bisimilar⟩⟩
  cases related with
  | inr same =>
      subst same
      cases value with
      | primitive => rfl
      | object a => exact .inl rfl
  | inl both =>
      obtain ⟨paired, alike⟩ := both
      have layer := alike.matches'
      cases value with
      | primitive =>
          cases other with
          | primitive => exact layer
          | object => exact layer
      | object a =>
          cases other with
          | primitive => exact layer
          | object b =>
              by_cases one : a = b
              · exact .inl one
              · obtain ⟨kinds, keys, values⟩ := layer
                right
                by_cases dates : Kind.Dates (graph a).kind (graph b).kind
                · left
                  obtain ⟨time, _, first, _⟩ := dates
                  cases time with
                  | none => exact absurd first (valid a b ⟨paired, one⟩)
                  | some time => exact ⟨time, first, kinds ▸ first⟩
                · right
                  exact ⟨dates, keys, fun key value other member otherMember =>
                    .inl ⟨.inside paired one member otherMember,
                      values key value other member otherMember⟩⟩

theorem LooksEqual.paired {left right value other : Value Primitive size}
    (looks : LooksEqual graph left right) (paired : Paired graph left right value other) :
    LooksEqual graph value other := by
  induction paired with
  | here => exact looks
  | @inside a b key value other outer different member otherMember ih =>
      rcases ih.resembles with same | dates | ⟨_, _, values⟩
      · exact absurd same different
      · obtain ⟨time, first, _⟩ := dates
        rw [(graph a).bare _ first] at member
        cases member
      · exact values key value other member otherMember

theorem Bisimilar.paired {left right value other : Value Primitive size}
    (bisimilar : Bisimilar graph left right) (paired : Paired graph left right value other) :
    Bisimilar graph value other := by
  induction paired with
  | here => exact bisimilar
  | inside _ _ member otherMember ih =>
      obtain ⟨_, _, values⟩ := ih.matches'
      exact values _ _ _ member otherMember

/-- When looking equal is being equal: no objects of two kinds that nothing else tells apart, and no
invalid dates in values that are equal. -/
theorem looksEqual_iff_bisimilar_iff (left right : Value Primitive size) :
    (LooksEqual graph left right ↔ Bisimilar graph left right) ↔
      (LooksEqual graph left right →
        ∀ a b, Compared graph left right a b → (graph a).kind = (graph b).kind) ∧
      (Bisimilar graph left right →
        ∀ a b, Compared graph left right a b → (graph a).kind ≠ .date none) := by
  constructor
  · intro same
    constructor
    · intro looks a b compared
      exact ((same.mp looks).paired compared.1).matches'.1
    · intro bisimilar a b compared invalid
      have kinds := (bisimilar.paired compared.1).matches'.1
      rcases ((same.mpr bisimilar).paired compared.1).resembles with one | dates | ⟨dates, _⟩
      · exact compared.2 one
      · obtain ⟨time, first, _⟩ := dates
        rw [invalid] at first
        cases first
      · exact dates ⟨none, none, invalid, kinds ▸ invalid⟩
  · intro clear
    exact ⟨fun looks => looks.bisimilar (clear.1 looks),
      fun bisimilar => bisimilar.looksEqual (clear.2 bisimilar)⟩

section Calls

variable [DecidableEq Primitive] {depth : Nat} {map : Partners size} {a b : Fin size}

theorem deepEquals_self (value : Value Primitive size) :
    deepEquals graph (depth + 1) map value value = some (true, map) := by
  unfold deepEquals
  rw [if_pos rfl]

theorem deepEquals_primitive {left right : Value Primitive size} (different : left ≠ right)
    (primitive : ∀ a b, ¬ (left = .object a ∧ right = .object b)) :
    deepEquals graph (depth + 1) map left right = some (false, map) := by
  unfold deepEquals
  rw [if_neg different]
  split
  · exact absurd ⟨rfl, rfl⟩ (primitive _ _)
  · rfl

theorem deepEquals_dates (different : a ≠ b) {timeA timeB : Option Int}
    (kindA : (graph a).kind = .date timeA) (kindB : (graph b).kind = .date timeB) :
    deepEquals graph (depth + 1) map (.object a) (.object b) =
      some (sameTime timeA timeB, map) := by
  rw [deepEquals, if_neg (by simpa using different)]
  simp only [kindA, kindB]

theorem deepEquals_objects (different : a ≠ b)
    (undated : ¬ Kind.Dates (graph a).kind (graph b).kind) :
    deepEquals graph (depth + 1) map (.object a) (.object b) =
      if map a = some b then some (true, map)
      else if (graph a).properties.length ≠ (graph b).properties.length then
        some (false, Function.update map a (some b))
      else
        compareKeys (deepEquals graph depth) (graph b).properties
          (Function.update map a (some b)) (graph a).properties := by
  rw [deepEquals, if_neg (by simpa using different)]
  dsimp only
  split
  · next timeA timeB kindA kindB => exact absurd ⟨timeA, timeB, kindA, kindB⟩ undated
  · rfl

theorem sameTime_eq_true {timeA timeB : Option Int} (same : sameTime timeA timeB = true) :
    ∃ time, timeA = some time ∧ timeB = some time := by
  cases timeA with
  | none => cases same
  | some left =>
      cases timeB with
      | none => cases same
      | some right =>
          obtain rfl : left = right := by simpa [sameTime] using same
          exact ⟨left, rfl, rfl⟩

end Calls

section Sound

def Joined (graph : Graph Primitive size) (entered : Fin size → Fin size → Prop)
    (left right : Value Primitive size) : Prop :=
  left = right ∨ ∃ a b, left = .object a ∧ right = .object b ∧
    (entered a b ∨
      ∃ time, (graph a).kind = .date (some time) ∧ (graph b).kind = .date (some time))

def Explored (graph : Graph Primitive size) (entered : Fin size → Fin size → Prop)
    (a b : Fin size) : Prop :=
  ¬ Kind.Dates (graph a).kind (graph b).kind ∧
    (graph a).properties.length = (graph b).properties.length ∧
    ∀ property ∈ (graph a).properties, ∃ other,
      (graph b).properties.lookup property.1 = some other ∧ Joined graph entered property.2 other

variable {entered wider : Fin size → Fin size → Prop}

theorem Joined.mono {left right : Value Primitive size} (joined : Joined graph entered left right)
    (widens : ∀ a b, entered a b → wider a b) : Joined graph wider left right := by
  rcases joined with same | ⟨a, b, first, second, either⟩
  · exact .inl same
  · exact .inr ⟨a, b, first, second, either.imp_left (widens a b)⟩

theorem Explored.mono {a b : Fin size} (explored : Explored graph entered a b)
    (widens : ∀ a b, entered a b → wider a b) : Explored graph wider a b := by
  obtain ⟨undated, lengths, values⟩ := explored
  refine ⟨undated, lengths, fun property member => ?_⟩
  obtain ⟨other, found, joined⟩ := values property member
  exact ⟨other, found, joined.mono widens⟩

/-- More pairs are entered behind a call. The new ones are explored, and the table has entered pairs
only. -/
structure Enters (graph : Graph Primitive size) (entered after : Fin size → Fin size → Prop)
    (map : Partners size) : Prop where
  widens : ∀ a b, entered a b → after a b
  table : ∀ a b, map a = some b → after a b
  new : ∀ a b, after a b → entered a b ∨ Explored graph after a b

variable [DecidableEq Primitive]

omit [DecidableEq Primitive] in
theorem compareKeys_enters {compare : Partners size → Value Primitive size →
      Value Primitive size → Option (Bool × Partners size)}
    (sound : ∀ (map : Partners size) left right result (entered : Fin size → Fin size → Prop),
      compare map left right = some (true, result) →
      (∀ a b, map a = some b → entered a b) →
      ∃ after, Enters graph entered after result ∧ Joined graph after left right)
    (others : List (String × Value Primitive size)) {map result : Partners size}
    {properties : List (String × Value Primitive size)}
    (equal : compareKeys compare others map properties = some (true, result))
    (table : ∀ a b, map a = some b → entered a b) :
    ∃ after, Enters graph entered after result ∧ ∀ property ∈ properties, ∃ other,
      others.lookup property.1 = some other ∧ Joined graph after property.2 other := by
  induction properties generalizing map entered with
  | nil =>
      cases equal
      refine ⟨entered, ⟨fun _ _ known => known, table, fun _ _ known => .inl known⟩, ?_⟩
      intro property member
      cases member
  | cons property rest ih =>
      obtain ⟨key, value⟩ := property
      rw [compareKeys] at equal
      cases found : others.lookup key with
      | none =>
          rw [found] at equal
          cases equal
      | some other =>
          rw [found] at equal
          dsimp only at equal
          cases compared : compare map value other with
          | none =>
              rw [compared] at equal
              cases equal
          | some outcome =>
              obtain ⟨same, between⟩ := outcome
              rw [compared] at equal
              cases same with
              | false => cases equal
              | true =>
                  obtain ⟨middle, enters, joined⟩ := sound map value other between entered
                    compared table
                  obtain ⟨after, entersRest, values⟩ := ih equal enters.table
                  refine ⟨after, ⟨fun a b known => ?_, entersRest.table, fun a b known => ?_⟩,
                    fun property member => ?_⟩
                  · exact entersRest.widens a b (enters.widens a b known)
                  · cases entersRest.new a b known with
                    | inr explored => exact .inr explored
                    | inl before =>
                        exact (enters.new a b before).imp_right fun explored =>
                          explored.mono entersRest.widens
                  · cases List.mem_cons.mp member with
                    | inl first =>
                        subst first
                        exact ⟨other, found, joined.mono entersRest.widens⟩
                    | inr later => exact values property later

theorem deepEquals_enters (depth : Nat) : ∀ (map : Partners size) (left right : Value Primitive size)
    (result : Partners size) (entered : Fin size → Fin size → Prop),
    deepEquals graph depth map left right = some (true, result) →
    (∀ a b, map a = some b → entered a b) →
    ∃ after, Enters graph entered after result ∧ Joined graph after left right := by
  induction depth with
  | zero =>
      intro map left right result entered equal
      cases equal
  | succ depth ih =>
      intro map left right result entered equal table
      by_cases same : left = right
      · subst same
        rw [deepEquals_self] at equal
        cases equal
        exact ⟨entered, ⟨fun _ _ known => known, table, fun _ _ known => .inl known⟩, .inl rfl⟩
      · by_cases objects : ∃ a b, left = .object a ∧ right = .object b
        · obtain ⟨a, b, rfl, rfl⟩ := objects
          have different : a ≠ b := fun equal => same (by rw [equal])
          by_cases dates : Kind.Dates (graph a).kind (graph b).kind
          · obtain ⟨timeA, timeB, kindA, kindB⟩ := dates
            rw [deepEquals_dates different kindA kindB, Option.some.injEq, Prod.mk.injEq] at equal
            obtain ⟨time, rfl, rfl⟩ := sameTime_eq_true equal.1
            rw [← equal.2]
            exact ⟨entered, ⟨fun _ _ known => known, table, fun _ _ known => .inl known⟩,
              .inr ⟨a, b, rfl, rfl, .inr ⟨time, kindA, kindB⟩⟩⟩
          · rw [deepEquals_objects different dates] at equal
            by_cases known : map a = some b
            · rw [if_pos known] at equal
              cases equal
              exact ⟨entered, ⟨fun _ _ known => known, table, fun _ _ known => .inl known⟩,
                .inr ⟨a, b, rfl, rfl, .inl (table a b known)⟩⟩
            · rw [if_neg known] at equal
              by_cases lengths : (graph a).properties.length = (graph b).properties.length
              · rw [if_neg (by simpa using lengths)] at equal
                have start : ∀ c d, Function.update map a (some b) c = some d →
                    entered c d ∨ (c = a ∧ d = b) := by
                  intro c d found
                  by_cases first : c = a
                  · subst first
                    rw [Function.update_self, Option.some.injEq] at found
                    exact .inr ⟨rfl, found.symm⟩
                  · rw [Function.update_of_ne first] at found
                    exact .inl (table c d found)
                obtain ⟨after, enters, values⟩ := compareKeys_enters ih _ equal start
                refine ⟨after, ⟨fun c d before => enters.widens c d (.inl before), enters.table,
                  fun c d reached => ?_⟩, .inr ⟨a, b, rfl, rfl, .inl ?_⟩⟩
                · rcases enters.new c d reached with (before | here) | explored
                  · exact .inl before
                  · obtain ⟨rfl, rfl⟩ := here
                    exact .inr ⟨dates, lengths, values⟩
                  · exact .inr explored
                · exact enters.widens a b (.inr ⟨rfl, rfl⟩)
              · rw [if_pos lengths] at equal
                cases equal
        · rw [deepEquals_primitive same fun a b both => objects ⟨a, b, both⟩] at equal
          cases equal

omit [DecidableEq Primitive] in
theorem sameKeys_of_lookup {left right : Obj Primitive size}
    (lengths : left.properties.length = right.properties.length)
    (found : ∀ property ∈ left.properties, ∃ other, right.properties.lookup property.1 = some other) :
    SameKeys left right := by
  have within : left.properties.map Prod.fst ⊆ right.properties.map Prod.fst := by
    intro key member
    obtain ⟨property, listed, rfl⟩ := List.mem_map.mp member
    obtain ⟨other, present⟩ := found property listed
    have paired := (OrderedMap.mem_iff_lookup right.nodup).mpr present
    exact List.mem_map.mpr ⟨(property.1, other), paired, rfl⟩
  have permuted := (List.subperm_of_subset left.nodup within).perm_of_length_le
    (by rw [List.length_map, List.length_map, lengths])
  exact fun key => permuted.mem_iff

theorem looksEqual_of_deepEquals {depth : Nat} {left right : Value Primitive size}
    {result : Partners size}
    (equal : deepEquals graph depth (fun _ => none) left right = some (true, result)) :
    LooksEqual graph left right := by
  obtain ⟨after, enters, joined⟩ := deepEquals_enters depth _ left right result
    (fun _ _ => False) equal fun _ _ found => by cases found
  refine ⟨Joined graph after, fun value other related => ?_, joined⟩
  rcases related with same | ⟨a, b, rfl, rfl, either⟩
  · subst same
    cases value with
    | primitive => rfl
    | object a => exact .inl rfl
  · right
    cases either with
    | inr dates => exact .inl dates
    | inl known =>
        right
        obtain ⟨undated, lengths, values⟩ := (enters.new a b known).resolve_left id
        refine ⟨undated, sameKeys_of_lookup lengths fun property member => ?_, ?_⟩
        · obtain ⟨other, found, _⟩ := values property member
          exact ⟨other, found⟩
        · intro key value other member otherMember
          obtain ⟨partner, found, joined⟩ := values (key, value) member
          rw [(OrderedMap.mem_iff_lookup (graph b).nodup).mp otherMember] at found
          cases found
          exact joined

end Sound

section Complete

variable [DecidableEq Primitive]

omit [DecidableEq Primitive] in
theorem compareKeys_true {compare : Partners size → Value Primitive size →
      Value Primitive size → Option (Bool × Partners size)}
    (complete : ∀ (map : Partners size) left right outcome, LooksEqual graph left right →
      compare map left right = some outcome → outcome.1 = true)
    (others : List (String × Value Primitive size)) {map : Partners size}
    {outcome : Bool × Partners size} {properties : List (String × Value Primitive size)}
    (alike : ∀ property ∈ properties, ∃ other,
      others.lookup property.1 = some other ∧ LooksEqual graph property.2 other)
    (ended : compareKeys compare others map properties = some outcome) : outcome.1 = true := by
  induction properties generalizing map with
  | nil =>
      cases ended
      rfl
  | cons property rest ih =>
      obtain ⟨key, value⟩ := property
      obtain ⟨other, found, looks⟩ := alike (key, value) List.mem_cons_self
      rw [compareKeys, found] at ended
      dsimp only at ended
      cases compared : compare map value other with
      | none =>
          rw [compared] at ended
          cases ended
      | some result =>
          have same := complete map value other result looks compared
          obtain ⟨flag, between⟩ := result
          dsimp only at same
          subst same
          rw [compared] at ended
          exact ih (fun property member => alike property (List.mem_cons_of_mem _ member)) ended

theorem deepEquals_true (depth : Nat) : ∀ (map : Partners size)
    (left right : Value Primitive size) (outcome : Bool × Partners size),
    LooksEqual graph left right → deepEquals graph depth map left right = some outcome →
    outcome.1 = true := by
  induction depth with
  | zero =>
      intro map left right outcome looks ended
      cases ended
  | succ depth ih =>
      intro map left right outcome looks ended
      by_cases same : left = right
      · subst same
        rw [deepEquals_self] at ended
        cases ended
        rfl
      · have layer := looks.resembles
        cases left with
        | primitive left =>
            cases right with
            | primitive right => exact absurd (congrArg Value.primitive layer) same
            | object => exact layer.elim
        | object a =>
            cases right with
            | primitive => exact layer.elim
            | object b =>
                have different : a ≠ b := fun equal => same (by rw [equal])
                rcases layer with one | ⟨time, kindA, kindB⟩ | ⟨undated, keys, values⟩
                · exact absurd one different
                · rw [deepEquals_dates different kindA kindB] at ended
                  cases ended
                  simp [sameTime]
                · rw [deepEquals_objects different undated] at ended
                  by_cases known : map a = some b
                  · rw [if_pos known] at ended
                    cases ended
                    rfl
                  · have lengths : (graph a).properties.length =
                        (graph b).properties.length := by
                      have permuted : ((graph a).properties.map Prod.fst).Perm
                          ((graph b).properties.map Prod.fst) :=
                        (List.perm_ext_iff_of_nodup (graph a).nodup (graph b).nodup).mpr keys
                      simpa using permuted.length_eq
                    rw [if_neg known, if_neg (by simpa using lengths)] at ended
                    refine compareKeys_true ih _ (fun property member => ?_) ended
                    have present := (keys property.1).mp
                      (List.mem_map_of_mem (f := Prod.fst) member)
                    obtain ⟨partner, listed, name⟩ := List.mem_map.mp present
                    have paired : (property.1, partner.2) ∈ (graph b).properties := by
                      rw [← name]
                      exact listed
                    exact ⟨partner.2, (OrderedMap.mem_iff_lookup (graph b).nodup).mp paired,
                      values property.1 property.2 partner.2 member paired⟩

end Complete

section Ends

def Edge (graph : Graph Primitive size) (a b : Fin size) : Prop :=
  ∃ key, (key, Value.object b) ∈ (graph a).properties

def OnCycle (graph : Graph Primitive size) (a : Fin size) : Prop :=
  Relation.TransGen (Edge graph) a a

def OnePartner (graph : Graph Primitive size) (left right : Value Primitive size) : Prop :=
  ∀ a b c, OnCycle graph a → Compared graph left right a b → Compared graph left right a c → b = c

variable {left right : Value Primitive size}

/-- The table has compared objects only, and partners for those that the call is inside of and that
contain themselves. -/
structure Tabled (graph : Graph Primitive size) (left right : Value Primitive size)
    (outer : List (Fin size)) (map : Partners size) : Prop where
  compared : ∀ a b, map a = some b → Compared graph left right a b
  outer : ∀ a ∈ outer, OnCycle graph a → map a ≠ none

def Ends (graph : Graph Primitive size) (left right : Value Primitive size)
    (map : Partners size) (result : Option (Bool × Partners size)) : Prop :=
  ∃ outcome, result = some outcome ∧
    (∀ a b, outcome.2 a = some b → Compared graph left right a b) ∧
    ∀ a, map a ≠ none → outcome.2 a ≠ none

theorem compareKeys_ends {compare : Partners size → Value Primitive size →
      Value Primitive size → Option (Bool × Partners size)} {outer : List (Fin size)}
    {others properties : List (String × Value Primitive size)}
    (ends : ∀ map value other, Tabled graph left right outer map →
      (∃ key, (key, value) ∈ properties ∧ others.lookup key = some other) →
      Ends graph left right map (compare map value other))
    {map : Partners size} (tabled : Tabled graph left right outer map) :
    Ends graph left right map (compareKeys compare others map properties) := by
  induction properties generalizing map with
  | nil => exact ⟨(true, map), rfl, tabled.compared, fun _ known => known⟩
  | cons property rest ih =>
      obtain ⟨key, value⟩ := property
      rw [compareKeys]
      cases found : others.lookup key with
      | none => exact ⟨(false, map), rfl, tabled.compared, fun _ known => known⟩
      | some other =>
          obtain ⟨outcome, result, compared, kept⟩ :=
            ends map value other tabled ⟨key, List.mem_cons_self, found⟩
          obtain ⟨same, between⟩ := outcome
          dsimp only
          rw [result]
          cases same with
          | false => exact ⟨(false, between), rfl, compared, kept⟩
          | true =>
              have later : Tabled graph left right outer between :=
                ⟨compared, fun a member cyclic => kept a (tabled.outer a member cyclic)⟩
              obtain ⟨outcome, result, comparedRest, keptRest⟩ :=
                ih (fun map value other tabled among => by
                  obtain ⟨key, member, present⟩ := among
                  exact ends map value other tabled
                    ⟨key, List.mem_cons_of_mem _ member, present⟩) later
              exact ⟨outcome, result, comparedRest, fun a known => keptRest a (kept a known)⟩

variable [DecidableEq Primitive]

/-- The calls that one is inside of are for different objects, so there are not more of them than
objects. -/
theorem deepEquals_ends (onePartner : OnePartner graph left right) (depth : Nat) :
    ∀ (outer : List (Fin size)) (map : Partners size) (value other : Value Primitive size),
    Paired graph left right value other → outer.Nodup →
    (∀ a ∈ outer, ∀ b, value = .object b → Relation.TransGen (Edge graph) a b) →
    Tabled graph left right outer map → size < depth + outer.length →
    Ends graph left right map (deepEquals graph depth map value other) := by
  induction depth with
  | zero =>
      intro outer map value other paired unique inside tabled room
      have bound := unique.length_le_card
      rw [Fintype.card_fin] at bound
      omega
  | succ depth ih =>
      intro outer map value other paired unique inside tabled room
      by_cases same : value = other
      · subst same
        rw [deepEquals_self]
        exact ⟨_, rfl, tabled.compared, fun _ known => known⟩
      · by_cases objects : ∃ a b, value = .object a ∧ other = .object b
        · obtain ⟨a, b, rfl, rfl⟩ := objects
          have different : a ≠ b := fun equal => same (by rw [equal])
          by_cases dates : Kind.Dates (graph a).kind (graph b).kind
          · obtain ⟨timeA, timeB, kindA, kindB⟩ := dates
            rw [deepEquals_dates different kindA kindB]
            exact ⟨_, rfl, tabled.compared, fun _ known => known⟩
          · rw [deepEquals_objects different dates]
            by_cases known : map a = some b
            · rw [if_pos known]
              exact ⟨_, rfl, tabled.compared, fun _ known => known⟩
            · rw [if_neg known]
              have compared : ∀ c d, Function.update map a (some b) c = some d →
                  Compared graph left right c d := by
                intro c d found
                by_cases first : c = a
                · subst first
                  rw [Function.update_self, Option.some.injEq] at found
                  subst found
                  exact ⟨paired, different⟩
                · rw [Function.update_of_ne first] at found
                  exact tabled.compared c d found
              have kept : ∀ c, map c ≠ none → Function.update map a (some b) c ≠ none := by
                intro c before
                by_cases first : c = a
                · rw [first, Function.update_self]
                  exact Option.some_ne_none b
                · rw [Function.update_of_ne first]
                  exact before
              split
              · exact ⟨_, rfl, compared, kept⟩
              · have new : a ∉ outer := by
                  intro member
                  have cyclic : OnCycle graph a := inside a member a rfl
                  cases entry : map a with
                  | none => exact tabled.outer a member cyclic entry
                  | some c =>
                      have equal := onePartner a b c cyclic ⟨paired, different⟩
                        (tabled.compared a c entry)
                      exact known (by rw [entry, equal])
                have deeper : Tabled graph left right (a :: outer)
                    (Function.update map a (some b)) := by
                  refine ⟨compared, fun c member cyclic => ?_⟩
                  cases List.mem_cons.mp member with
                  | inl first =>
                      rw [first, Function.update_self]
                      exact Option.some_ne_none b
                  | inr before => exact kept c (tabled.outer c before cyclic)
                have inner : ∀ map value other, Tabled graph left right (a :: outer) map →
                    (∃ key, (key, value) ∈ (graph a).properties ∧
                      (graph b).properties.lookup key = some other) →
                    Ends graph left right map (deepEquals graph depth map value other) := by
                  intro map value other tabled among
                  obtain ⟨key, member, found⟩ := among
                  have otherMember := (OrderedMap.mem_iff_lookup (graph b).nodup).mpr found
                  refine ih (a :: outer) map value other
                    (.inside paired different member otherMember)
                    (List.nodup_cons.mpr ⟨new, unique⟩) (fun c among d equal => ?_) tabled ?_
                  · have edge : Edge graph a d := ⟨key, equal ▸ member⟩
                    cases List.mem_cons.mp among with
                    | inl first =>
                        rw [first]
                        exact .single edge
                    | inr before => exact (inside c before a rfl).tail edge
                  · rw [List.length_cons]
                    omega
                obtain ⟨outcome, result, comparedRest, keptRest⟩ := compareKeys_ends inner deeper
                exact ⟨outcome, result, comparedRest, fun c before => keptRest c (kept c before)⟩
        · rw [deepEquals_primitive same fun a b both => objects ⟨a, b, both⟩]
          exact ⟨_, rfl, tabled.compared, fun _ known => known⟩

end Ends

section Decisions

variable [DecidableEq Primitive] {left right : Value Primitive size}

def Decides (graph : Graph Primitive size) (left right : Value Primitive size) : Prop :=
  ∃ depth outcome, deepEquals graph depth (fun _ => none) left right = some outcome ∧
    (outcome.1 = true ↔ Bisimilar graph left right)

theorem deepEquals_eq_true_iff {depth : Nat} {outcome : Bool × Partners size}
    (ended : deepEquals graph depth (fun _ => none) left right = some outcome) :
    outcome.1 = true ↔ LooksEqual graph left right := by
  constructor
  · intro same
    obtain ⟨flag, result⟩ := outcome
    dsimp only at same
    subst same
    exact looksEqual_of_deepEquals ended
  · intro looks
    exact deepEquals_true depth _ left right outcome looks ended

/-- Without an object that contains itself and has two partners, the comparison decides whether
values are bisimilar, if and only if kinds and invalid dates make no difference. -/
theorem deepEquals_decides_iff (onePartner : OnePartner graph left right) :
    Decides graph left right ↔
      (LooksEqual graph left right →
        ∀ a b, Compared graph left right a b → (graph a).kind = (graph b).kind) ∧
      (Bisimilar graph left right →
        ∀ a b, Compared graph left right a b → (graph a).kind ≠ .date none) := by
  rw [← looksEqual_iff_bisimilar_iff]
  constructor
  · intro decides
    obtain ⟨depth, outcome, ended, decided⟩ := decides
    rw [← deepEquals_eq_true_iff ended, decided]
  · intro same
    have tabled : Tabled graph left right [] (fun _ => none) := by
      constructor
      · intro a b found
        cases found
      · intro a member
        cases member
    have inside : ∀ a ∈ ([] : List (Fin size)), ∀ b, left = .object b →
        Relation.TransGen (Edge graph) a b := by
      intro a member
      cases member
    obtain ⟨outcome, ended, _⟩ := deepEquals_ends onePartner (size + 1) [] (fun _ => none) left
      right .here List.nodup_nil inside tabled (by simp)
    refine ⟨size + 1, outcome, ended, ?_⟩
    rw [deepEquals_eq_true_iff ended, same]

def linkedTo (id : Fin size) : Obj Unit size where
  properties := [("self", .object id)]
  nodup := List.nodup_singleton _
  bare := by
    intro time kind
    cases kind

def twoLoops : Graph Unit 2 := fun id => linkedTo id

theorem paired_twoLoops {value other : Value Unit 2}
    (paired : Paired twoLoops (.object 0) (.object 1) value other) :
    value = .object 0 ∧ other = .object 1 := by
  induction paired with
  | here => exact ⟨rfl, rfl⟩
  | inside _ _ member otherMember ih =>
      obtain ⟨first, second⟩ := ih
      cases first
      cases second
      cases List.mem_singleton.mp member
      cases List.mem_singleton.mp otherMember
      exact ⟨rfl, rfl⟩

theorem twoLoops_decided : Decides twoLoops (.object 0) (.object 1) := by
  have onePartner : OnePartner twoLoops (.object 0) (.object 1) := by
    intro a b c _ first second
    have firstPair := paired_twoLoops first.1
    have secondPair := paired_twoLoops second.1
    exact Value.object.inj (firstPair.2.trans secondPair.2.symm)
  refine (deepEquals_decides_iff onePartner).mpr ⟨fun _ a b _ => rfl, fun _ a b _ dated => ?_⟩
  cases dated

def loopAndPair : Graph Unit 3 := fun id => linkedTo (if id = 0 then 0 else if id = 1 then 2 else 1)

theorem deepEquals_linked {graph : Graph Unit size} {depth : Nat} {map : Partners size}
    {a b nextA nextB : Fin size} (linkA : graph a = linkedTo nextA) (linkB : graph b = linkedTo nextB)
    (different : a ≠ b) (unknown : map a ≠ some b)
    (endless : deepEquals graph depth (Function.update map a (some b)) (.object nextA)
      (.object nextB) = none) :
    deepEquals graph (depth + 1) map (.object a) (.object b) = none := by
  have plain : ¬ Kind.Dates (graph a).kind (graph b).kind := by
    intro dates
    obtain ⟨timeA, timeB, first, _⟩ := dates
    rw [linkA] at first
    cases first
  rw [deepEquals_objects different plain, if_neg unknown, linkA, linkB, if_neg (by simp [linkedTo])]
  simp only [linkedTo, compareKeys, List.lookup_cons, beq_self_eq_true, endless]

theorem deepEquals_loopAndPair (depth : Nat) : ∀ map : Partners 3,
    (map 0 ≠ some 1 → deepEquals loopAndPair depth map (.object 0) (.object 1) = none) ∧
      (map 0 ≠ some 2 → deepEquals loopAndPair depth map (.object 0) (.object 2) = none) := by
  induction depth with
  | zero => exact fun map => ⟨fun _ => rfl, fun _ => rfl⟩
  | succ depth ih =>
      intro map
      constructor
      · intro unknown
        exact deepEquals_linked rfl rfl (by decide) unknown ((ih _).2 (by simp))
      · intro unknown
        exact deepEquals_linked rfl rfl (by decide) unknown ((ih _).1 (by simp))

/-- The comparison of a loop with a cycle of two objects never ends. -/
theorem loopAndPair_not_decided :
    ¬ ∀ (size : Nat) (graph : Graph Unit size) (left right : Value Unit size),
      Decides graph left right := by
  intro claim
  obtain ⟨depth, outcome, ended, _⟩ := claim 3 loopAndPair (.object 0) (.object 1)
  rw [(deepEquals_loopAndPair depth _).1 (by simp)] at ended
  cases ended

end Decisions

end Houdini.Runtime.ObjectGraph
