import Houdini.Runtime.Key
import Houdini.Runtime.Cache.KeyTemplates
import Mathlib.Data.List.TakeDrop

/-! The two texts of a value: the one in an evaluated key, and the one in a computed key. They are
the same just if the value is flat. -/

set_option autoImplicit false

namespace Houdini.Runtime

open GraphQLValue (stringifyChar stringifyString)

def closesName : List Char → Bool
  | [] => false
  | char :: rest => if char = '"' then decide (rest.head? = some ':') else closesName rest

def namesAfter : List Char → Bool
  | [] => false
  | char :: rest => if char = '"' then closesName rest || namesAfter rest else namesAfter rest

def Renamed (value : String) : Prop := ['"', ':'] <:+: value.toList

theorem renamed_iff (chars : List Char) :
    ['"', ':'] <:+: chars ↔ closesName chars = true ∨ namesAfter chars = true := by
  induction chars with
  | nil => simp [closesName, namesAfter]
  | cons char rest ih =>
      rw [List.infix_cons_iff, ih]
      by_cases quote : char = '"'
      · subst quote
        have first : ['"', ':'] <+: '"' :: rest ↔ rest.head? = some ':' := by
          rw [List.cons_prefix_cons]
          cases rest with
          | nil => simp
          | cons second rest => simp [eq_comm]
        simp [closesName, namesAfter, first]
      · have notFirst : ¬ ['"', ':'] <+: char :: rest := by
          rw [List.cons_prefix_cons]
          exact fun both => quote both.1.symm
        simp [closesName, namesAfter, quote, notFirst]

theorem not_mem_stringifyChar {char : Char} (notQuote : char ≠ '"') :
    '"' ∉ stringifyChar char := by
  unfold stringifyChar
  rw [if_neg notQuote]
  repeat' split
  all_goals simp only [List.mem_cons, List.not_mem_nil, or_false, not_or]
  all_goals try decide
  · have first := (GraphQLValue.hexDigit_plain (char.toNat / 16)).1
    have second := (GraphQLValue.hexDigit_plain (char.toNat % 16)).1
    exact ⟨by decide, by decide, by decide, by decide, first.symm, second.symm⟩
  · exact Ne.symm notQuote

theorem stringifyChar_head (char : Char) :
    ∃ first more, stringifyChar char = first :: more ∧ (first = '\\' ∨ first = char) := by
  unfold stringifyChar
  repeat' split
  all_goals first
    | exact ⟨_, _, rfl, .inl rfl⟩
    | exact ⟨_, _, rfl, .inr rfl⟩

theorem span_quote {name : List Char} (plain : '"' ∉ name) (after : List Char) :
    (name ++ '"' :: after).span (· != '"') = (name, '"' :: after) := by
  have passes : ∀ char ∈ name, (char != '"') = true := fun char member => by
    rw [bne_iff_ne]
    rintro rfl
    exact plain member
  rw [List.span_eq_takeWhile_dropWhile, List.takeWhile_append_of_pos passes,
    List.dropWhile_append_of_pos passes]
  simp

theorem unquoteNamesWithin_append {text : List Char} (plain : '"' ∉ text) {length : Nat}
    {rest : List Char} (enough : (text ++ rest).length ≤ length) :
    unquoteNamesWithin length (text ++ rest) =
      text ++ unquoteNamesWithin (length - text.length) rest := by
  induction text generalizing length with
  | nil => rfl
  | cons char text ih =>
      cases length with
      | zero => simp at enough
      | succ length =>
          have notQuote : char ≠ '"' := fun quote => plain (quote ▸ List.mem_cons_self)
          have later : (text ++ rest).length ≤ length := Nat.le_of_succ_le_succ enough
          rw [List.cons_append, unquoteNamesWithin, if_neg notQuote,
            ih (fun member => plain (List.mem_cons_of_mem _ member)) later, List.length_cons,
            Nat.add_sub_add_right]
          rfl

theorem unquoteNames_plain {text : List Char} (plain : '"' ∉ text) : unquoteNames text = text := by
  have same := @unquoteNamesWithin_append text plain text.length [] (by simp)
  rw [List.append_nil, Nat.sub_self] at same
  rw [unquoteNames, same]
  exact List.append_nil text

theorem closesName_text {chars : List Char} (closes : closesName chars = true) :
    ∃ name after, chars.flatMap stringifyChar ++ ['"'] = name ++ '\\' :: '"' :: ':' :: after ∧
      '"' ∉ name := by
  induction chars with
  | nil => exact absurd closes Bool.false_ne_true
  | cons char rest ih =>
      rw [closesName] at closes
      by_cases quote : char = '"'
      · rw [if_pos quote, decide_eq_true_eq] at closes
        subst quote
        cases rest with
        | nil => cases closes
        | cons second others =>
            obtain rfl := Option.some.inj closes
            exact ⟨[], others.flatMap stringifyChar ++ ['"'], rfl, List.not_mem_nil⟩
      · rw [if_neg quote] at closes
        obtain ⟨name, after, same, plain⟩ := ih closes
        refine ⟨stringifyChar char ++ name, after, ?_, ?_⟩
        · rw [List.flatMap_cons, List.append_assoc, same, List.append_assoc]
        · rw [List.mem_append, not_or]
          exact ⟨not_mem_stringifyChar quote, plain⟩

theorem closesName_text_none {chars : List Char} (closes : closesName chars = false) :
    ∃ name after, chars.flatMap stringifyChar ++ ['"'] = name ++ '"' :: after ∧
      '"' ∉ name ∧ after.head? ≠ some ':' := by
  induction chars with
  | nil => exact ⟨[], [], rfl, List.not_mem_nil, by simp⟩
  | cons char rest ih =>
      rw [closesName] at closes
      by_cases quote : char = '"'
      · rw [if_pos quote, decide_eq_false_iff_not] at closes
        subst quote
        refine ⟨['\\'], rest.flatMap stringifyChar ++ ['"'], rfl, by decide, ?_⟩
        cases rest with
        | nil => decide
        | cons second others =>
            obtain ⟨first, more, text, fromChar⟩ := stringifyChar_head second
            rw [List.flatMap_cons, text]
            intro colon
            obtain rfl : first = ':' := Option.some.inj colon
            rcases fromChar with backslash | same
            · exact absurd backslash (by decide)
            · exact closes (congrArg some same.symm)
      · rw [if_neg quote] at closes
        obtain ⟨name, after, same, plain, next⟩ := ih closes
        refine ⟨stringifyChar char ++ name, after, ?_, ?_, next⟩
        · rw [List.flatMap_cons, List.append_assoc, same, List.append_assoc]
        · rw [List.mem_append, not_or]
          exact ⟨not_mem_stringifyChar quote, plain⟩

theorem unquoteNamesWithin_closes {chars : List Char} (closes : closesName chars = true)
    (length : Nat) :
    ∃ name more, unquoteNamesWithin (length + 1) ('"' :: (chars.flatMap stringifyChar ++ ['"'])) =
      name ++ '\\' :: more ∧ '"' ∉ name := by
  obtain ⟨name, after, text, plain⟩ := closesName_text closes
  have plainName : '"' ∉ name ++ ['\\'] := by simp [plain]
  refine ⟨name, ':' :: ' ' :: unquoteNamesWithin length after, ?_, plain⟩
  rw [text, unquoteNamesWithin, if_pos rfl]
  have split := span_quote plainName (':' :: after)
  rw [List.append_assoc] at split
  rw [show name ++ '\\' :: '"' :: ':' :: after = name ++ (['\\'] ++ '"' :: ':' :: after) from rfl,
    split]
  cases name with
  | nil => rfl
  | cons first name => simp

theorem unquoteNamesWithin_stays {chars : List Char} (closes : closesName chars = false)
    (length : Nat) :
    unquoteNamesWithin (length + 1) ('"' :: (chars.flatMap stringifyChar ++ ['"'])) =
      '"' :: unquoteNamesWithin length (chars.flatMap stringifyChar ++ ['"']) := by
  obtain ⟨name, after, text, plain, next⟩ := closesName_text_none closes
  rw [text, unquoteNamesWithin, if_pos rfl, span_quote plain after]
  cases name with
  | nil => rfl
  | cons first name =>
      cases after with
      | nil => rfl
      | cons second after =>
          split
          · next found =>
              simp only [Prod.mk.injEq, List.cons.injEq] at found
              exact absurd (congrArg some found.2.2.1) next
          · rfl

theorem unquoteNamesWithin_escaped {text : List Char} {length : Nat}
    (enough : (stringifyChar '"' ++ text).length ≤ length) :
    ∃ less, text.length ≤ less ∧ unquoteNamesWithin length (stringifyChar '"' ++ text) =
      '\\' :: unquoteNamesWithin (less + 1) ('"' :: text) := by
  have enoughText : text.length + 2 ≤ length := by
    rw [List.length_append] at enough
    exact (Nat.add_comm _ _).trans_le enough
  obtain ⟨less, rfl⟩ := Nat.exists_eq_add_of_le' enoughText
  refine ⟨less + text.length, Nat.le_add_left _ _, ?_⟩
  change unquoteNamesWithin (less + text.length + 1 + 1) ('\\' :: '"' :: text) = _
  rw [unquoteNamesWithin, if_neg (by decide)]

theorem unquoteNamesWithin_string {chars : List Char} (kept : namesAfter chars = false)
    {length : Nat} (enough : (chars.flatMap stringifyChar ++ ['"']).length ≤ length) :
    unquoteNamesWithin length (chars.flatMap stringifyChar ++ ['"']) =
      chars.flatMap stringifyChar ++ ['"'] := by
  induction chars generalizing length with
  | nil =>
      cases length with
      | zero => simp at enough
      | succ length => cases length <;> rfl
  | cons char rest ih =>
      rw [namesAfter] at kept
      rw [List.flatMap_cons, List.append_assoc] at enough ⊢
      by_cases quote : char = '"'
      · rw [if_pos quote, Bool.or_eq_false_iff] at kept
        subst quote
        obtain ⟨less, enoughRest, opened⟩ := unquoteNamesWithin_escaped enough
        rw [opened, unquoteNamesWithin_stays kept.1, ih kept.2 enoughRest]
        rfl
      · rw [if_neg quote] at kept
        rw [unquoteNamesWithin_append (not_mem_stringifyChar quote) enough, ih kept]
        rw [List.length_append] at enough
        omega

theorem unquoteNamesWithin_renamed {chars : List Char} (renamed : namesAfter chars = true)
    {length : Nat} (enough : (chars.flatMap stringifyChar ++ ['"']).length ≤ length) :
    ∃ before rest name more, chars = before ++ '"' :: rest ∧ '"' ∉ name ∧
      unquoteNamesWithin length (chars.flatMap stringifyChar ++ ['"']) =
        before.flatMap stringifyChar ++ '\\' :: (name ++ '\\' :: more) := by
  induction chars generalizing length with
  | nil => exact absurd renamed Bool.false_ne_true
  | cons char rest ih =>
      rw [namesAfter] at renamed
      rw [List.flatMap_cons, List.append_assoc] at enough ⊢
      by_cases quote : char = '"'
      · rw [if_pos quote, Bool.or_eq_true] at renamed
        subst quote
        obtain ⟨less, enoughRest, opened⟩ := unquoteNamesWithin_escaped enough
        rw [opened]
        cases closes : closesName rest with
        | true =>
            obtain ⟨name, more, text, plain⟩ := unquoteNamesWithin_closes closes less
            exact ⟨[], rest, name, more, rfl, plain, congrArg (List.cons '\\') text⟩
        | false =>
            obtain ⟨before, others, name, more, same, plain, text⟩ :=
              ih (renamed.resolve_left (by simp [closes])) enoughRest
            refine ⟨'"' :: before, others, name, more, congrArg (List.cons '"') same, plain, ?_⟩
            rw [unquoteNamesWithin_stays closes, text]
            rfl
      · rw [if_neg quote] at renamed
        have enoughRest :
            (rest.flatMap stringifyChar ++ ['"']).length ≤ length - (stringifyChar char).length := by
          rw [List.length_append] at enough
          omega
        obtain ⟨before, others, name, more, same, plain, text⟩ := ih renamed enoughRest
        refine ⟨char :: before, others, name, more, congrArg (List.cons char) same, plain, ?_⟩
        rw [unquoteNamesWithin_append (not_mem_stringifyChar quote) enough, text,
          List.flatMap_cons, List.append_assoc]

theorem stringifyString_eq_iff (value : String) (text others : List Char) :
    stringifyString value ++ text = unquoteNames (stringifyString value) ++ others ↔
      ¬ Renamed value ∧ text = others := by
  have whole : stringifyString value =
      '"' :: (value.toList.flatMap stringifyChar ++ ['"']) := rfl
  rw [Renamed, renamed_iff, not_or, Bool.not_eq_true, Bool.not_eq_true, unquoteNames, whole,
    List.length_cons]
  cases closes : closesName value.toList with
  | true =>
      obtain ⟨name, more, unquoted, plain⟩ := unquoteNamesWithin_closes closes
        (value.toList.flatMap stringifyChar ++ ['"']).length
      refine iff_of_false ?_ fun both => Bool.noConfusion both.1.1
      rw [unquoted]
      cases name with
      | nil => exact fun same => absurd (List.cons.inj same).1 (by decide)
      | cons first name =>
          intro same
          exact plain ((List.cons.inj same).1 ▸ List.mem_cons_self)
  | false =>
      rw [unquoteNamesWithin_stays closes]
      cases renamed : namesAfter value.toList with
      | false =>
          rw [unquoteNamesWithin_string renamed le_rfl, List.append_cancel_left_eq]
          simp
      | true =>
          obtain ⟨before, rest, name, more, same, plain, unquoted⟩ :=
            unquoteNamesWithin_renamed renamed le_rfl
          refine iff_of_false ?_ fun both => Bool.noConfusion both.1.2
          rw [unquoted, same, List.flatMap_append, List.flatMap_cons]
          simp only [List.cons_append, List.append_assoc, List.cons_inj_right,
            List.append_cancel_left_eq]
          change '\\' :: '"' :: _ ≠ _
          rw [ne_eq, List.cons_inj_right]
          cases name with
          | nil => exact fun same => absurd (List.cons.inj same).1 (by decide)
          | cons first name =>
              intro same
              exact plain ((List.cons.inj same).1 ▸ List.mem_cons_self)

namespace GraphQLValue

mutual

/-- `computeKey` prints the value as JSON prints it: at most one item in a list, nothing in an
object, and no colon after a quote. -/
def Flat : GraphQLValue → Prop
  | .null | .boolean _ | .number _ => True
  | .string value => ¬ Renamed value
  | .array items => FlatItems items
  | .object fields => fields = []
  | .undefined | .component .. => False

def FlatItems : List GraphQLValue → Prop
  | [] => True
  | [item] => item.Flat
  | _ :: _ :: _ => False

end

def Delimited (text : List Char) : Prop :=
  ∃ char rest, text = char :: rest ∧ isDelimiter char = true

theorem afterValue_delimited {text : List Char} (delimited : Delimited text) :
    afterValue 0 .outside text = text := by
  obtain ⟨char, rest, rfl, delimiter⟩ := delimited
  simp [afterValue, delimiter]

theorem append_eq_iff {text printed after others : List Char}
    (value : ∀ rest, afterValue 0 .outside (text ++ rest) = afterValue 0 .outside rest)
    (other : ∀ rest, afterValue 0 .outside (printed ++ rest) = afterValue 0 .outside rest)
    (delimited : Delimited after) (delimitedOthers : Delimited others) :
    text ++ after = printed ++ others ↔ text = printed ∧ after = others := by
  constructor
  · intro same
    have tails := congrArg (afterValue 0 .outside) same
    rw [value, other, afterValue_delimited delimited, afterValue_delimited delimitedOthers] at tails
    rw [tails, List.append_cancel_right_eq] at same
    exact ⟨same, tails⟩
  · rintro ⟨rfl, rfl⟩
    rfl

theorem quotedName_ne (name before text others : List Char) (marks : before ≠ [])
    (known : ∀ char ∈ before, char = '"' ∨ char = '\\') :
    before ++ (name.flatMap stringifyChar ++ '"' :: text) ≠ name ++ ':' :: others := by
  induction name generalizing before with
  | nil =>
      cases before with
      | nil => exact absurd rfl marks
      | cons first before =>
          intro same
          have isColon : first = ':' := (List.cons.inj same).1
          rcases known first List.mem_cons_self with rfl | rfl <;> exact absurd isColon (by decide)
  | cons char name ih =>
      cases before with
      | nil => exact absurd rfl marks
      | cons first before =>
          intro same
          obtain ⟨isChar, tails⟩ := List.cons.inj same
          have escaped : stringifyChar char = ['\\', char] := by
            rcases known first List.mem_cons_self with rfl | rfl <;> rw [← isChar] <;> rfl
          refine ih (before ++ ['\\', char]) (by simp) ?_ ?_
          · intro other member
            rcases List.mem_append.mp member with inBefore | inMarks
            · exact known other (List.mem_cons_of_mem _ inBefore)
            · rcases List.mem_cons.mp inMarks with rfl | last
              · exact .inr rfl
              · rw [List.mem_singleton.mp last, ← isChar]
                exact known first List.mem_cons_self
          · rw [List.flatMap_cons, escaped] at tails
            refine Eq.trans ?_ tails
            simp

theorem stringify_of_argumentText {value : GraphQLValue} {printed : List Char}
    (computed : value.argumentText = .ok printed) : ∃ text, value.stringify = some text := by
  cases value with
  | undefined => cases computed
  | component => cases computed
  | null | boolean | number | string | array | object => exact ⟨_, rfl⟩

mutual

theorem argumentText_of_flat : ∀ {value : GraphQLValue}, value.Flat →
    ∃ text, value.argumentText = .ok text
  | .undefined, flat => absurd flat id
  | .component .., flat => absurd flat id
  | .null, _ | .boolean _, _ | .number _, _ | .string _, _ => ⟨_, rfl⟩
  | .array items, flat => by
      obtain ⟨texts, areTexts⟩ := argumentTexts_of_flat flat
      rw [argumentText, areTexts]
      exact ⟨_, rfl⟩
  | .object fields, flat => by
      obtain rfl : fields = [] := flat
      exact ⟨_, rfl⟩

theorem argumentTexts_of_flat : ∀ {items : List GraphQLValue}, FlatItems items →
    ∃ texts, argumentTexts items = .ok texts
  | [], _ => ⟨_, rfl⟩
  | [item], flat => by
      obtain ⟨text, isText⟩ := argumentText_of_flat flat
      rw [argumentTexts, isText]
      exact ⟨_, rfl⟩
  | _ :: _ :: _, flat => absurd flat id

end

theorem argumentTexts_cons {item : GraphQLValue} {rest : List GraphQLValue}
    {texts : List (List Char)} (computed : argumentTexts (item :: rest) = .ok texts) :
    ∃ text others, item.argumentText = .ok text ∧ argumentTexts rest = .ok others ∧
      texts = text :: others := by
  rw [argumentTexts] at computed
  cases first : item.argumentText with
  | error error => rw [first] at computed; cases computed
  | ok text =>
      cases later : argumentTexts rest with
      | error error => rw [first, later] at computed; cases computed
      | ok others =>
          rw [first, later] at computed
          exact ⟨text, others, rfl, rfl, (Except.ok.inj computed).symm⟩

theorem propertyTexts_cons {name : String} {value : GraphQLValue}
    {rest : List (String × GraphQLValue)} {texts : List (List Char)}
    (computed : propertyTexts ((name, value) :: rest) = .ok texts) :
    ∃ text others, value.argumentText = .ok text ∧ propertyTexts rest = .ok others ∧
      texts = (name.toList ++ ':' :: ' ' :: text) :: others := by
  rw [propertyTexts] at computed
  cases first : value.argumentText with
  | error error => rw [first] at computed; cases computed
  | ok text =>
      cases later : propertyTexts rest with
      | error error => rw [first, later] at computed; cases computed
      | ok others =>
          rw [first, later] at computed
          exact ⟨text, others, rfl, rfl, (Except.ok.inj computed).symm⟩

theorem argumentText_array {items : List GraphQLValue} {printed : List Char}
    (computed : (GraphQLValue.array items).argumentText = .ok printed) :
    ∃ texts, argumentTexts items = .ok texts ∧
      printed = '[' :: joinArguments texts ++ [']'] := by
  rw [argumentText] at computed
  cases texts : argumentTexts items with
  | error error => rw [texts] at computed; cases computed
  | ok texts' =>
      rw [texts] at computed
      exact ⟨texts', rfl, (Except.ok.inj computed).symm⟩

theorem argumentText_object {fields : List (String × GraphQLValue)} {printed : List Char}
    (computed : (GraphQLValue.object fields).argumentText = .ok printed) :
    ∃ texts, propertyTexts fields = .ok texts ∧
      printed = Char.ofNat 123 :: joinArguments texts ++ [Char.ofNat 125] := by
  rw [argumentText] at computed
  cases texts : propertyTexts fields with
  | error error => rw [texts] at computed; cases computed
  | ok texts' =>
      rw [texts] at computed
      exact ⟨texts', rfl, (Except.ok.inj computed).symm⟩

theorem not_mem_number {digits : String} (numeric : (GraphQLValue.number digits).Numeric) :
    '"' ∉ digits.toList := by
  intro member
  exact absurd (numeric.2 _ member) (by decide)

theorem joinArguments_cons {text : List Char} {rest : List (List Char)} :
    joinArguments (text :: rest) =
      text ++ if rest = [] then [] else ',' :: ' ' :: joinArguments rest := by
  cases rest with
  | nil => simp [joinArguments]
  | cons second rest => simp [joinArguments]

theorem flatObject_ne {name : String} {value : GraphQLValue}
    {rest : List (String × GraphQLValue)} {texts : List (List Char)}
    (computed : propertyTexts ((name, value) :: rest) = .ok texts) (after others : List Char) :
    stringifyFields ((name, value) :: rest) ++ after ≠ joinArguments texts ++ others := by
  obtain ⟨text, later, first, _, rfl⟩ := propertyTexts_cons computed
  obtain ⟨json, isJson⟩ := stringify_of_argumentText first
  have quoted : ∃ more, stringifyFields ((name, value) :: rest) ++ after =
      ['"'] ++ (name.toList.flatMap stringifyChar ++ '"' :: ':' :: more) := by
    rw [stringifyFields, isJson]
    cases printed : stringifyFields rest with
    | nil => exact ⟨json ++ after, by simp [stringifyString]⟩
    | cons char chars => exact ⟨json ++ ',' :: char :: chars ++ after, by simp [stringifyString]⟩
  obtain ⟨more, quoted⟩ := quoted
  rw [quoted, joinArguments_cons]
  simp only [List.append_assoc, List.cons_append]
  exact quotedName_ne name.toList ['"'] _ _ (List.cons_ne_nil _ _) (by simp)

mutual

theorem stringify_eq_iff : ∀ {value : GraphQLValue} {text printed : List Char}, value.Numeric →
    value.stringify = some text → value.argumentText = .ok printed →
    ∀ {after others : List Char}, Delimited after → Delimited others →
      (text ++ after = printed ++ others ↔ value.Flat ∧ after = others)
  | .undefined, text, printed, _, isText, _, after, others, _, _ => by simp [stringify] at isText
  | .component .., text, printed, _, isText, _, after, others, _, _ => by
      simp [stringify] at isText
  | .null, text, printed, _, isText, computed, after, others, _, _ => by
      obtain rfl := Option.some.inj isText
      obtain rfl := Except.ok.inj computed
      rw [unquoteNames_plain (by decide), List.append_cancel_left_eq, Flat, true_and]
  | .boolean value, text, printed, _, isText, computed, after, others, _, _ => by
      obtain rfl := Option.some.inj isText
      obtain rfl := Except.ok.inj computed
      rw [unquoteNames_plain (by cases value <;> decide), List.append_cancel_left_eq, Flat,
        true_and]
  | .number digits, text, printed, numeric, isText, computed, after, others, _, _ => by
      obtain rfl := Option.some.inj isText
      obtain rfl := Except.ok.inj computed
      rw [unquoteNames_plain (not_mem_number numeric), List.append_cancel_left_eq, Flat, true_and]
  | .string value, text, printed, _, isText, computed, after, others, _, _ => by
      obtain rfl := Option.some.inj isText
      obtain rfl := Except.ok.inj computed
      rw [stringifyString_eq_iff, Flat]
  | .array items, text, printed, numeric, isText, computed, after, others, _, _ => by
      obtain rfl := Option.some.inj isText
      obtain ⟨texts, areTexts, rfl⟩ := argumentText_array computed
      simp only [List.cons_append, List.append_assoc, List.cons_inj_right, List.nil_append]
      rw [stringifyItems_eq_iff numeric areTexts, Flat]
  | .object fields, text, printed, _, isText, computed, after, others, _, _ => by
      obtain rfl := Option.some.inj isText
      obtain ⟨texts, areTexts, rfl⟩ := argumentText_object computed
      simp only [List.cons_append, List.append_assoc, List.cons_inj_right, List.nil_append]
      rw [Flat]
      cases fields with
      | nil =>
          obtain rfl := Except.ok.inj areTexts
          simp [stringifyFields, joinArguments]
      | cons field rest =>
          exact iff_of_false (flatObject_ne areTexts _ _) fun both => List.cons_ne_nil _ _ both.1

theorem stringifyItems_eq_iff : ∀ {items : List GraphQLValue} {texts : List (List Char)},
    NumericItems items → argumentTexts items = .ok texts → ∀ {after others : List Char},
      (stringifyItems items ++ ']' :: after = joinArguments texts ++ ']' :: others ↔
        FlatItems items ∧ after = others)
  | [], texts, _, areTexts, after, others => by
      obtain rfl := Except.ok.inj areTexts
      simp [stringifyItems, joinArguments, FlatItems]
  | [item], texts, numeric, areTexts, after, others => by
      obtain ⟨text, later, isText, isLater, rfl⟩ := argumentTexts_cons areTexts
      obtain rfl := Except.ok.inj isLater
      obtain ⟨json, isJson⟩ := stringify_of_argumentText isText
      have delimited (chars : List Char) : Delimited (']' :: chars) := ⟨']', chars, rfl, by decide⟩
      have first := stringify_eq_iff numeric.1 isJson isText (delimited after) (delimited others)
      rw [stringifyItems, isJson, joinArguments, FlatItems]
      exact first.trans (and_congr_right fun _ => List.cons_inj_right _)
  | item :: second :: rest, texts, numeric, areTexts, after, others => by
      obtain ⟨text, later, isText, isLater, rfl⟩ := argumentTexts_cons areTexts
      obtain ⟨next, more, isNext, _, rfl⟩ := argumentTexts_cons isLater
      obtain ⟨json, isJson⟩ := stringify_of_argumentText isText
      obtain ⟨nextJson, isNextJson⟩ := stringify_of_argumentText isNext
      obtain ⟨head, tail, nextText, _, notSpace⟩ := stringify_head numeric.2.1 isNextJson
      have delimited (chars : List Char) : Delimited (',' :: chars) := ⟨',', chars, rfl, by decide⟩
      have begins : ∃ chars, stringifyItems (second :: rest) = head :: chars := by
        cases rest with
        | nil => exact ⟨tail, by simp [stringifyItems, isNextJson, nextText]⟩
        | cons third rest => exact ⟨_, by rw [stringifyItems, isNextJson, nextText]; rfl; simp⟩
      obtain ⟨chars, begins⟩ := begins
      refine iff_of_false ?_ fun both => both.1
      rw [stringifyItems, isJson, joinArguments_cons, if_neg (List.cons_ne_nil _ _)]
      · simp only [Option.getD_some, List.append_assoc, List.cons_append]
        intro same
        have tails := ((stringify_eq_iff numeric.1 isJson isText (delimited _) (delimited _)).mp
          same).2
        rw [begins] at tails
        exact notSpace (List.cons.inj (List.cons.inj tails).2).1
      · simp

end

end GraphQLValue

end Houdini.Runtime
