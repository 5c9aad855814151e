import Houdini.Runtime.Cache.Stuff
import Houdini.Runtime.Config
import Mathlib.Data.Bool.AllAny

/-! The ids of records: which strings the cache gives to the objects of a response, and
when two objects share one. -/

set_option autoImplicit false

namespace Houdini.Runtime.Cache

/-- `id` of an object: its type and its key fields. There is none without key values. -/
def recordID (config : ConfigFile) (type : String) (data : GraphQLObject) : Option String :=
  let id := computeID config type data
  if id = "" then none
  else if type = "" then some id
  else some (type ++ ":" ++ id)

theorem recordID_ne_empty {config : ConfigFile} {type id : String} {data : GraphQLObject}
    (given : recordID config type data = some id) : id ≠ "" := by
  unfold recordID at given
  dsimp only at given
  split at given
  · cases given
  · rename_i known
    split at given
    · rw [← Option.some.inj given]
      exact known
    · rw [← Option.some.inj given]
      intro empty
      have length := congrArg String.length empty
      simp at length

def embeddedID (parent key : String) : String := parent ++ "." ++ key

def embeddedEntryID (parent key : String) (rank : Nat) : String :=
  parent ++ "." ++ key ++ "[" ++ rank.repr ++ "]"

def keyValues (config : ConfigFile) (type : String) (data : GraphQLObject) : List String :=
  (keyFieldsForType config type).map fun field => (data.property field).propertyKey

inductive RecordIdentity where
  | root
  | record (type : String) (values : List String)
  | embedded (parent : RecordIdentity) (key : String)
  | entry (parent : RecordIdentity) (key : String) (rank : Nat)
  deriving DecidableEq, Repr

inductive Identified (config : ConfigFile) : RecordIdentity → String → Prop
  | root : Identified config .root rootID
  | record {type : String} {data : GraphQLObject} {id : String}
      (given : recordID config type data = some id) :
      Identified config (.record type (keyValues config type data)) id
  | embedded {parent : RecordIdentity} {id : String} (key : String)
      (owner : Identified config parent id) :
      Identified config (.embedded parent key) (embeddedID id key)
  | entry {parent : RecordIdentity} {id : String} (key : String) (rank : Nat)
      (owner : Identified config parent id) :
      Identified config (.entry parent key rank) (embeddedEntryID id key rank)

structure KeyLexer where
  depth : Nat := 0
  inString : Bool := false
  escaped : Bool := false
  deriving DecidableEq, Repr

def KeyLexer.step (lexer : KeyLexer) (char : Char) : Option KeyLexer :=
  if lexer.inString then
    if lexer.escaped then some { lexer with escaped := false }
    else if char = '\\' then some { lexer with escaped := true }
    else if char = '"' then some { lexer with inString := false }
    else some lexer
  else if lexer.depth = 0 then
    if char = '(' then some { lexer with depth := 1 }
    else if isVarChar char || char = ':' then some lexer
    else none
  else if char = '"' then some { lexer with inString := true }
  else if char = '(' || char = '[' || char = Char.ofNat 123 then
    some { lexer with depth := lexer.depth + 1 }
  else if char = ')' || char = ']' || char = Char.ofNat 125 then
    some { lexer with depth := lexer.depth - 1 }
  else some lexer

def FieldKey (key : String) : Prop := key.toList.foldlM KeyLexer.step {} = some {}

instance (key : String) : Decidable (FieldKey key) := inferInstanceAs (Decidable (_ = _))

example : FieldKey "friends(first: 1.5, name: \"a.b)\")::paginated" := by decide +kernel

def EndsKey (rest : List Char) : Prop :=
  ∀ char, rest.head? = some char → KeyLexer.step {} char = none

theorem fieldKey_unique {lexer : KeyLexer} {key other rest last : List Char}
    (closed : key.foldlM KeyLexer.step lexer = some {})
    (otherClosed : other.foldlM KeyLexer.step lexer = some {})
    (ends : EndsKey rest) (otherEnds : EndsKey last) (same : key ++ rest = other ++ last) :
    key = other ∧ rest = last := by
  induction key generalizing lexer other with
  | nil =>
      cases other with
      | nil => exact ⟨rfl, same⟩
      | cons char tail =>
          have start : lexer = {} := Option.some.inj closed
          rw [List.nil_append] at same
          rw [start, List.foldlM_cons, ends char (by rw [same]; rfl)] at otherClosed
          cases otherClosed
  | cons char tail ih =>
      cases other with
      | nil =>
          have start : lexer = {} := Option.some.inj otherClosed
          rw [List.nil_append] at same
          rw [start, List.foldlM_cons, otherEnds char (by rw [← same]; rfl)] at closed
          cases closed
      | cons head others =>
          rw [List.cons_append, List.cons_append, List.cons.injEq] at same
          obtain ⟨rfl, same⟩ := same
          rw [List.foldlM_cons] at closed otherClosed
          cases next : lexer.step char with
          | none =>
              rw [next] at closed
              cases closed
          | some middle =>
              rw [next] at closed otherClosed
              obtain ⟨equal, left⟩ := ih closed otherClosed same
              exact ⟨congrArg (char :: ·) equal, left⟩

theorem until_unique {separator : Char} {text other rest last : List Char}
    (absent : separator ∉ text) (otherAbsent : separator ∉ other)
    (same : text ++ separator :: rest = other ++ separator :: last) :
    text = other ∧ rest = last := by
  induction text generalizing other with
  | nil =>
      cases other with
      | nil => exact ⟨rfl, (List.cons.inj same).2⟩
      | cons char tail =>
          rw [(List.cons.inj same).1] at otherAbsent
          exact absurd List.mem_cons_self otherAbsent
  | cons char tail ih =>
      cases other with
      | nil =>
          rw [(List.cons.inj same).1] at absent
          exact absurd List.mem_cons_self absent
      | cons head others =>
          obtain ⟨first, same⟩ := List.cons.inj same
          obtain ⟨equal, left⟩ := ih (List.not_mem_of_not_mem_cons absent)
            (List.not_mem_of_not_mem_cons otherAbsent) same
          rw [first, equal]
          exact ⟨rfl, left⟩

/-- No value but the last one holds the separator, alone or with what follows it. -/
def Separated (values : List String) : Prop :=
  ∀ value ∈ values.dropLast,
    ¬ ['_', '_'] <:+: value.toList ∧ value.toList.getLast? ≠ some '_'

private theorem separator_unique {value other rest last : List Char}
    (clean : ¬ ['_', '_'] <:+: other ∧ other.getLast? ≠ some '_') (shorter : value.length ≤ other.length)
    (same : value ++ '_' :: '_' :: rest = other ++ '_' :: '_' :: last) :
    value = other ∧ rest = last := by
  obtain ⟨between, split⟩ : value <+: other :=
    List.prefix_of_prefix_length_le ⟨_, same⟩ ⟨_, rfl⟩ shorter
  rw [← split, List.append_assoc, List.append_cancel_left_eq] at same
  match between with
  | [] =>
      rw [List.append_nil] at split
      rw [List.nil_append, List.cons.injEq, List.cons.injEq] at same
      exact ⟨split, same.2.2⟩
  | [first] =>
      rw [List.singleton_append, List.cons.injEq] at same
      rw [← split, ← same.1, List.getLast?_append, List.getLast?_singleton] at clean
      exact absurd rfl clean.2
  | first :: second :: others =>
      rw [List.cons_append, List.cons_append, List.cons.injEq, List.cons.injEq] at same
      refine absurd ⟨value, others, ?_⟩ clean.1
      rw [← split, ← same.1, ← same.2.1, List.append_assoc]
      rfl

private theorem joined_cons {value next : String} {rest : List String} :
    ("__".intercalate (value :: next :: rest)).toList =
      value.toList ++ '_' :: '_' :: ("__".intercalate (next :: rest)).toList := by
  rw [String.intercalate_cons_cons, String.toList_append, String.toList_append, List.append_assoc]
  rfl

theorem Separated.intercalate_inj {values others : List String} (separated : Separated values)
    (otherSeparated : Separated others) (length : values.length = others.length)
    (same : "__".intercalate values = "__".intercalate others) : values = others := by
  induction values generalizing others with
  | nil => exact (List.eq_nil_of_length_eq_zero length.symm).symm
  | cons value rest ih =>
      cases others with
      | nil => cases length
      | cons other last =>
          rw [List.length_cons, List.length_cons, Nat.add_right_cancel_iff] at length
          cases rest with
          | nil =>
              have none := List.eq_nil_of_length_eq_zero length.symm
              subst none
              rw [String.intercalate_singleton, String.intercalate_singleton] at same
              rw [same]
          | cons next rest =>
              cases last with
              | nil => cases length
              | cons otherNext last =>
                  have text := congrArg String.toList same
                  rw [joined_cons, joined_cons] at text
                  have clean := separated value (List.mem_cons_self)
                  have otherClean := otherSeparated other (List.mem_cons_self)
                  have equal : value.toList = other.toList ∧
                      ("__".intercalate (next :: rest)).toList =
                        ("__".intercalate (otherNext :: last)).toList := by
                    obtain shorter | longer := Nat.le_total value.toList.length other.toList.length
                    · exact separator_unique otherClean shorter text
                    · obtain ⟨left, right⟩ := separator_unique clean longer text.symm
                      exact ⟨left.symm, right.symm⟩
                  have tails := ih (fun value member => separated value (List.mem_cons_of_mem _ member))
                    (fun value member => otherSeparated value (List.mem_cons_of_mem _ member))
                    length (String.toList_inj.mp equal.2)
                  rw [String.toList_inj.mp equal.1, tails]

structure EmbeddedStep where
  key : String
  rank : Option Nat
  deriving DecidableEq, Repr

def EmbeddedStep.suffix (step : EmbeddedStep) : List Char :=
  match step.rank with
  | none => []
  | some rank => '[' :: (rank.repr.toList ++ [']'])

def EmbeddedStep.text (step : EmbeddedStep) : List Char := '.' :: (step.key.toList ++ step.suffix)

namespace RecordIdentity

def IsEmbedded : RecordIdentity → Prop
  | .root | .record .. => False
  | .embedded .. | .entry .. => True

def owner : RecordIdentity → RecordIdentity
  | .root => .root
  | .record type values => .record type values
  | .embedded parent _ | .entry parent _ _ => parent.owner

def path : RecordIdentity → List EmbeddedStep
  | .root | .record .. => []
  | .embedded parent key => parent.path ++ [⟨key, none⟩]
  | .entry parent key rank => parent.path ++ [⟨key, some rank⟩]

def ownerText : RecordIdentity → List Char
  | .root => rootID.toList
  | .record type values => type.toList ++ ':' :: ("__".intercalate values).toList
  | .embedded parent _ | .entry parent _ _ => parent.ownerText

/-- Names are names, field keys are field keys, and key values are told apart. -/
def WellFormed : RecordIdentity → Prop
  | .root => True
  | .record type values =>
      type ≠ "" ∧ (∀ char ∈ type.toList, isVarChar char = true) ∧ Separated values
  | .embedded parent key | .entry parent key _ => parent.WellFormed ∧ FieldKey key

def Dotless : RecordIdentity → Prop
  | .root => True
  | .record _ values => ∀ value ∈ values, '.' ∉ value.toList
  | .embedded parent _ | .entry parent _ _ => parent.Dotless

theorem eq_of_path {identity other : RecordIdentity} (owner : identity.owner = other.owner)
    (path : identity.path = other.path) : identity = other := by
  induction identity generalizing other with
  | root | record =>
      cases other with
      | root | record => exact owner
      | embedded | entry => simp [RecordIdentity.path] at path
  | embedded parent key ih =>
      cases other with
      | root | record => simp [RecordIdentity.path] at path
      | embedded otherParent otherKey =>
          obtain ⟨parents, last⟩ := List.append_inj' path rfl
          have keys : key = otherKey := by simpa using last
          rw [@ih otherParent owner parents, keys]
      | entry otherParent otherKey rank =>
          obtain ⟨_, last⟩ := List.append_inj' path rfl
          cases last
  | entry parent key rank ih =>
      cases other with
      | root | record => simp [RecordIdentity.path] at path
      | embedded otherParent otherKey =>
          obtain ⟨_, last⟩ := List.append_inj' path rfl
          cases last
      | entry otherParent otherKey otherRank =>
          obtain ⟨parents, last⟩ := List.append_inj' path rfl
          have steps : key = otherKey ∧ rank = otherRank := by simpa using last
          rw [@ih otherParent owner parents, steps.1, steps.2]

end RecordIdentity

open RecordIdentity

variable {config : ConfigFile} {identity other : RecordIdentity} {id : String}

theorem Identified.text (identified : Identified config identity id)
    (wellFormed : identity.WellFormed) :
    id.toList = identity.ownerText ++ identity.path.flatMap EmbeddedStep.text := by
  induction identified with
  | root => exact (List.append_nil _).symm
  | @record type data id given =>
      have named : type ≠ "" := wellFormed.1
      unfold recordID at given
      dsimp only at given
      split at given
      · cases given
      · simp only [Option.some.injEq] at given
        subst given
        simp [ownerText, path, computeID, keyValues]
  | embedded key owner ih =>
      rw [embeddedID, String.toList_append, String.toList_append, ih wellFormed.1]
      simp [ownerText, path, EmbeddedStep.text, EmbeddedStep.suffix]
  | entry key rank owner ih =>
      simp only [embeddedEntryID, String.toList_append, ih wellFormed.1]
      simp [ownerText, path, EmbeddedStep.text, EmbeddedStep.suffix]

theorem RecordIdentity.WellFormed.fieldKey {step : EmbeddedStep} (wellFormed : identity.WellFormed)
    (member : step ∈ identity.path) : FieldKey step.key := by
  induction identity with
  | root | record => cases member
  | embedded parent key ih | entry parent key rank ih =>
      obtain above | last := List.mem_append.mp member
      · exact ih wellFormed.1 above
      · rw [List.mem_singleton.mp last]
        exact wellFormed.2

private theorem endsKey_steps (steps : List EmbeddedStep) :
    EndsKey (steps.flatMap EmbeddedStep.text) := by
  intro char first
  cases steps with
  | nil => cases first
  | cons step rest =>
      cases first
      decide

private theorem endsKey_suffix (step : EmbeddedStep) (steps : List EmbeddedStep) :
    EndsKey (step.suffix ++ steps.flatMap EmbeddedStep.text) := by
  intro char first
  unfold EmbeddedStep.suffix at first
  cases rank : step.rank with
  | none =>
      rw [rank] at first
      exact endsKey_steps steps char first
  | some rank' =>
      rw [rank] at first
      cases first
      decide

private theorem rank_unique {rank other : Nat} {rest last : List Char}
    (same : rank.repr.toList ++ ']' :: rest = other.repr.toList ++ ']' :: last) :
    rank = other ∧ rest = last := by
  have digits (number : Nat) : ']' ∉ number.repr.toList := by
    intro member
    rw [Nat.toList_repr] at member
    have digit := Nat.isDigit_of_mem_toDigits (by omega) (by omega) member
    cases digit
  obtain ⟨equal, left⟩ := until_unique (digits rank) (digits other) same
  rw [Nat.toList_repr, Nat.toList_repr] at equal
  refine ⟨?_, left⟩
  calc rank = Nat.ofDigitChars 10 (Nat.toDigits 10 rank) 0 :=
        (Nat.ofDigitChars_toDigits (by omega) (by omega)).symm
    _ = Nat.ofDigitChars 10 (Nat.toDigits 10 other) 0 := by rw [equal]
    _ = other := Nat.ofDigitChars_toDigits (by omega) (by omega)

theorem embeddedEntryID_inj {parent key : String} {rank other : Nat}
    (same : embeddedEntryID parent key rank = embeddedEntryID parent key other) : rank = other := by
  have text := congrArg String.toList same
  unfold embeddedEntryID at text
  simp only [String.toList_append, List.append_assoc, List.append_cancel_left_eq] at text
  obtain ⟨ranks, -⟩ := rank_unique text
  exact ranks

theorem path_unique {steps others : List EmbeddedStep}
    (keys : ∀ step ∈ steps, FieldKey step.key) (otherKeys : ∀ step ∈ others, FieldKey step.key)
    (same : steps.flatMap EmbeddedStep.text = others.flatMap EmbeddedStep.text) :
    steps = others := by
  induction steps generalizing others with
  | nil =>
      cases others with
      | nil => rfl
      | cons => cases same
  | cons step rest ih =>
      cases others with
      | nil => cases same
      | cons other last =>
          simp only [List.flatMap_cons, EmbeddedStep.text, List.cons_append, List.append_assoc,
            List.cons.injEq, true_and] at same
          obtain ⟨key, after⟩ := fieldKey_unique (keys step List.mem_cons_self)
            (otherKeys other List.mem_cons_self) (endsKey_suffix step rest)
            (endsKey_suffix other last) same
          have tails (left : rest.flatMap EmbeddedStep.text = last.flatMap EmbeddedStep.text) :
              rest = last :=
            ih (fun step member => keys step (List.mem_cons_of_mem _ member))
              (fun step member => otherKeys step (List.mem_cons_of_mem _ member)) left
          obtain ⟨stepKey, rank⟩ := step
          obtain ⟨otherKey, otherRank⟩ := other
          have sameKey : stepKey = otherKey := String.toList_inj.mp key
          cases rank with
          | none =>
              cases otherRank with
              | none => rw [sameKey, tails after]
              | some number =>
                  have bracket := congrArg List.head? after
                  cases rest <;> cases bracket
          | some number =>
              cases otherRank with
              | none =>
                  have bracket := congrArg List.head? after
                  cases last <;> cases bracket
              | some otherNumber =>
                  simp only [EmbeddedStep.suffix, List.cons_append, List.append_assoc,
                    List.cons.injEq, true_and, List.nil_append] at after
                  obtain ⟨sameRank, left⟩ := rank_unique after
                  rw [sameKey, sameRank, tails left]

private theorem varChar_ne {char : Char} (named : isVarChar char = true) : char ≠ ':' ∧ char ≠ '.' := by
  constructor
  · rintro rfl
    exact absurd named (by decide)
  · rintro rfl
    exact absurd named (by decide)

private theorem joined_dotless {values : List String} (dotless : ∀ value ∈ values, '.' ∉ value.toList) :
    '.' ∉ ("__".intercalate values).toList := by
  induction values with
  | nil => exact List.not_mem_nil
  | cons value rest ih =>
      cases rest with
      | nil =>
          rw [String.intercalate_singleton]
          exact dotless value List.mem_cons_self
      | cons next rest =>
          have below := ih fun value member => dotless value (List.mem_cons_of_mem _ member)
          rw [joined_cons]
          simp only [List.mem_append, List.mem_cons, not_or]
          exact ⟨dotless value List.mem_cons_self, by decide, by decide, below⟩

theorem ownerText_dotless (wellFormed : identity.WellFormed) (dotless : identity.Dotless) :
    '.' ∉ identity.ownerText := by
  induction identity with
  | root => decide
  | record type values =>
      have named : '.' ∉ type.toList := fun member => (varChar_ne (wellFormed.2.1 _ member)).2 rfl
      have joined := joined_dotless dotless
      unfold ownerText
      simp only [List.mem_append, List.mem_cons, not_or]
      exact ⟨named, by decide, joined⟩
  | embedded parent key ih | entry parent key rank ih => exact ih wellFormed.1 dotless

def KeyCount (config : ConfigFile) : RecordIdentity → Prop
  | .root => True
  | .record type values => values.length = (keyFieldsForType config type).length
  | .embedded parent _ | .entry parent _ _ => KeyCount config parent

theorem Identified.keyCount (identified : Identified config identity id) :
    KeyCount config identity := by
  induction identified with
  | root => trivial
  | record => exact List.length_map _
  | embedded _ _ ih | entry _ _ _ ih => exact ih

private theorem ownerText_owner (identity : RecordIdentity) :
    identity.owner.ownerText = identity.ownerText := by
  induction identity with
  | root | record => rfl
  | embedded _ _ ih | entry _ _ _ ih => exact ih

private theorem wellFormed_owner (wellFormed : identity.WellFormed) : identity.owner.WellFormed := by
  induction identity with
  | root | record => exact wellFormed
  | embedded _ _ ih | entry _ _ _ ih => exact ih wellFormed.1

private theorem keyCount_owner (count : KeyCount config identity) :
    KeyCount config identity.owner := by
  induction identity with
  | root | record => exact count
  | embedded _ _ ih | entry _ _ _ ih => exact ih count

private theorem root_ne_record {type : String} {values : List String}
    (same : RecordIdentity.root.ownerText = (RecordIdentity.record type values).ownerText) :
    False := by
  have colon : ':' ∈ RecordIdentity.root.ownerText := by
    rw [same]
    simp [ownerText]
  exact absurd colon (by decide)

theorem owner_unique (count : KeyCount config identity) (otherCount : KeyCount config other)
    (wellFormed : identity.WellFormed) (otherWellFormed : other.WellFormed)
    (same : identity.ownerText = other.ownerText) : identity.owner = other.owner := by
  have count := keyCount_owner count
  have otherCount := keyCount_owner otherCount
  have wellFormed := wellFormed_owner wellFormed
  have otherWellFormed := wellFormed_owner otherWellFormed
  rw [← ownerText_owner identity, ← ownerText_owner other] at same
  have innermost (identity : RecordIdentity) :
      identity.owner = .root ∨ ∃ type values, identity.owner = .record type values := by
    induction identity with
    | root => exact .inl rfl
    | record type values => exact .inr ⟨type, values, rfl⟩
    | embedded _ _ ih | entry _ _ _ ih => exact ih
  obtain root | ⟨type, values, record⟩ := innermost identity
  · obtain otherRoot | ⟨otherType, others, otherRecord⟩ := innermost other
    · rw [root, otherRoot]
    · rw [root, otherRecord] at same
      exact (root_ne_record same).elim
  · obtain otherRoot | ⟨otherType, others, otherRecord⟩ := innermost other
    · rw [record, otherRoot] at same
      exact (root_ne_record same.symm).elim
    · rw [record] at count wellFormed same ⊢
      rw [otherRecord] at otherCount otherWellFormed same ⊢
      obtain ⟨sameType, joined⟩ := until_unique
        (fun member => (varChar_ne (wellFormed.2.1 _ member)).1 rfl)
        (fun member => (varChar_ne (otherWellFormed.2.1 _ member)).1 rfl) same
      have types : type = otherType := String.toList_inj.mp sameType
      have length : values.length = others.length := by
        rw [count, otherCount, types]
      rw [types, wellFormed.2.2.intercalate_inj otherWellFormed.2.2 length
        (String.toList_inj.mp joined)]

private theorem path_of_not_embedded (plain : ¬ identity.IsEmbedded) : identity.path = [] := by
  cases identity with
  | root | record => rfl
  | embedded | entry => exact absurd trivial plain

private theorem owner_of_text {owner otherOwner : List Char} {steps others : List EmbeddedStep}
    (dotless : '.' ∉ owner) (otherDotless : '.' ∉ otherOwner)
    (same : owner ++ steps.flatMap EmbeddedStep.text =
      otherOwner ++ others.flatMap EmbeddedStep.text) :
    owner = otherOwner ∧ steps.flatMap EmbeddedStep.text = others.flatMap EmbeddedStep.text := by
  cases steps with
  | nil =>
      cases others with
      | nil => exact ⟨by simpa using same, rfl⟩
      | cons step rest =>
          rw [List.flatMap_nil, List.append_nil] at same
          rw [same] at dotless
          simp [EmbeddedStep.text] at dotless
  | cons step rest =>
      cases others with
      | nil =>
          rw [List.flatMap_nil, List.append_nil] at same
          rw [← same] at otherDotless
          simp [EmbeddedStep.text] at otherDotless
      | cons other last =>
          simp only [List.flatMap_cons, EmbeddedStep.text, List.cons_append] at same ⊢
          obtain ⟨owners, left⟩ := until_unique dotless otherDotless same
          exact ⟨owners, congrArg _ left⟩

/-- Two records share an id only if they are one: if their types are names, their field keys
field keys and the key values of each told apart, and if no key value has a dot in it as soon
as one of the records is embedded. -/
theorem identified_unique (identified : Identified config identity id)
    (otherIdentified : Identified config other id) (wellFormed : identity.WellFormed)
    (otherWellFormed : other.WellFormed)
    (dotless : identity.IsEmbedded ∨ other.IsEmbedded → identity.Dotless ∧ other.Dotless) :
    identity = other := by
  have same := (identified.text wellFormed).symm.trans (otherIdentified.text otherWellFormed)
  have parts : identity.ownerText = other.ownerText ∧
      identity.path.flatMap EmbeddedStep.text = other.path.flatMap EmbeddedStep.text := by
    by_cases embedded : identity.IsEmbedded ∨ other.IsEmbedded
    · obtain ⟨first, second⟩ := dotless embedded
      exact owner_of_text (ownerText_dotless wellFormed first)
        (ownerText_dotless otherWellFormed second) same
    · rw [not_or] at embedded
      rw [path_of_not_embedded embedded.1, path_of_not_embedded embedded.2] at same ⊢
      exact ⟨by simpa using same, rfl⟩
  exact eq_of_path
    (owner_unique identified.keyCount otherIdentified.keyCount wellFormed otherWellFormed parts.1)
    (path_unique (fun _ => wellFormed.fieldKey) (fun _ => otherWellFormed.fieldKey) parts.2)

/-- Two objects that stand for one user. -/
theorem identified_unique_user :
    RecordIdentity.record "User" (keyValues {} "User" [("id", .string "1")]) =
      .record "User" (keyValues {} "User" [("id", .number "1"), ("firstName", .string "Bob")]) :=
  have first : recordID {} "User" [("id", .string "1")] = some "User:1" := by decide
  have second : recordID {} "User" [("id", .number "1"), ("firstName", .string "Bob")] =
      some "User:1" := by decide
  have values (value : String) (member : value ∈ (["1"] : List String).dropLast) : False :=
    nomatch member
  identified_unique (.record first) (.record second)
    ⟨by decide, List.all_iff_forall_prop.mp (by decide),
      fun value member => (values value member).elim⟩
    ⟨by decide, List.all_iff_forall_prop.mp (by decide),
      fun value member => (values value member).elim⟩
    (fun embedded => by cases embedded <;> contradiction)

private def namedUsers : ConfigFile where
  types := [("User", { keys := some ["first", "last"] })]

/-- Key values that hold a separator are not told apart: two users share an id, and so do
a user and the address of another one. -/
theorem recordID_collides :
    (keyValues namedUsers "User" [("first", .string "a__b"), ("last", .string "c")] ≠
        keyValues namedUsers "User" [("first", .string "a"), ("last", .string "b__c")] ∧
      recordID namedUsers "User" [("first", .string "a__b"), ("last", .string "c")] =
        some "User:a__b__c" ∧
      recordID namedUsers "User" [("first", .string "a"), ("last", .string "b__c")] =
        some "User:a__b__c") ∧
    Identified {} (.embedded (.record "User" ["1"]) "address") "User:1.address" ∧
    Identified {} (.record "User" ["1.address"]) "User:1.address" := by
  refine ⟨⟨by decide, by decide, by decide⟩, ?_, ?_⟩
  · have user : recordID {} "User" [("id", .string "1")] = some "User:1" := by decide
    exact .embedded "address" (.record user)
  · have user : recordID {} "User" [("id", .string "1.address")] = some "User:1.address" := by decide
    exact .record user

end Houdini.Runtime.Cache
