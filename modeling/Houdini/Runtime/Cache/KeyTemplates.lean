import Houdini.Runtime.Cache.Stuff
import Mathlib.Data.Bool.AllAny

/-! Key templates: texts with references to variables. A template is evaluated as it should be just
if the scanner sees every reference outside of a string, and every other dollar sign inside of
one. -/

set_option autoImplicit false

namespace Houdini.Runtime

namespace GraphQLValue

mutual

/-- Every number is written with digits, signs, a point and an exponent, or as `null`. -/
def Numeric : GraphQLValue → Prop
  | .number text => text ≠ "" ∧ ∀ char ∈ text.toList, char ∈ "+-.0123456789enul".toList
  | .array items => NumericItems items
  | .object fields => NumericFields fields
  | .undefined | .null | .boolean _ | .string _ | .component .. => True

def NumericItems : List GraphQLValue → Prop
  | [] => True
  | item :: rest => item.Numeric ∧ NumericItems rest

def NumericFields : List (String × GraphQLValue) → Prop
  | [] => True
  | (_, value) :: rest => value.Numeric ∧ NumericFields rest

end

inductive JsonPlace where
  | outside
  | inString
  | escaped

def isDelimiter (char : Char) : Bool := [',', ')', ']', Char.ofNat 125, ' '].contains char

def afterValue (depth : Nat) (place : JsonPlace) : List Char → List Char
  | [] => []
  | char :: rest =>
      match place with
      | .escaped => afterValue depth .inString rest
      | .inString =>
          if char = '\\' then afterValue depth .escaped rest
          else if char = '"' then afterValue depth .outside rest
          else afterValue depth .inString rest
      | .outside =>
          if depth = 0 ∧ isDelimiter char then char :: rest
          else if char = '"' then afterValue depth .inString rest
          else if char = '[' ∨ char = Char.ofNat 123 then afterValue (depth + 1) .outside rest
          else if char = ']' ∨ char = Char.ofNat 125 then afterValue (depth - 1) .outside rest
          else afterValue depth .outside rest

attribute [local grind =] afterValue

def isPlain (char : Char) : Bool :=
  !isDelimiter char && !(['"', '[', Char.ofNat 123].contains char)

theorem afterValue_plain {depth : Nat} {char : Char} (plain : isPlain char = true)
    (rest : List Char) :
    afterValue depth .outside (char :: rest) = afterValue depth .outside rest := by
  simp only [isPlain, isDelimiter, List.contains_eq_mem, List.mem_cons, List.not_mem_nil,
    or_false, Bool.and_eq_true, Bool.not_eq_true', decide_eq_false_iff_not,
    not_or] at plain
  obtain ⟨⟨comma, paren, bracket, brace, space⟩, quote, opening, openingBrace⟩ := plain
  simp [afterValue, isDelimiter, comma, paren, bracket, brace, space, quote, opening,
    openingBrace]

theorem afterValue_plains {depth : Nat} {text : List Char}
    (plain : ∀ char ∈ text, isPlain char = true) (rest : List Char) :
    afterValue depth .outside (text ++ rest) = afterValue depth .outside rest := by
  induction text with
  | nil => rfl
  | cons char text ih =>
      rw [List.cons_append, afterValue_plain (plain char List.mem_cons_self)]
      exact ih fun other member => plain other (List.mem_cons_of_mem _ member)

theorem afterValue_inString {depth : Nat} {char : Char} (notQuote : char ≠ '"')
    (notBackslash : char ≠ '\\') (rest : List Char) :
    afterValue depth .inString (char :: rest) = afterValue depth .inString rest := by
  simp [afterValue, notQuote, notBackslash]

theorem hexDigit_plain (digit : Nat) : hexDigit digit ≠ '"' ∧ hexDigit digit ≠ '\\' := by
  have digits : ∀ char ∈ "0123456789abcdef".toList, char ≠ '"' ∧ char ≠ '\\' :=
    List.all_iff_forall_prop.mp (by decide)
  unfold hexDigit
  rw [List.getD_eq_getElem?_getD]
  cases found : "0123456789abcdef".toList[digit]? with
  | none => exact digits '0' (by decide)
  | some char => exact digits char (List.mem_of_getElem? found)

theorem afterValue_stringifyChar (depth : Nat) (char : Char) (rest : List Char) :
    afterValue depth .inString (stringifyChar char ++ rest) = afterValue depth .inString rest := by
  have escape (escaped : Char) :
      afterValue depth .inString ('\\' :: escaped :: rest) = afterValue depth .inString rest := by
    simp [afterValue]
  unfold stringifyChar
  split
  · exact escape _
  next notQuote =>
  split
  · exact escape _
  next notBackslash =>
  repeat' split
  all_goals first
    | exact escape _
    | exact afterValue_inString notQuote notBackslash rest
    | skip
  have zero (text : List Char) :
      afterValue depth .inString ('0' :: text) = afterValue depth .inString text :=
    afterValue_inString (by decide) (by decide) text
  change afterValue depth .inString ('\\' :: 'u' :: '0' :: '0' ::
    hexDigit (char.toNat / 16) :: hexDigit (char.toNat % 16) :: rest) = _
  have opened : afterValue depth .inString ('\\' :: 'u' :: '0' :: '0' ::
      hexDigit (char.toNat / 16) :: hexDigit (char.toNat % 16) :: rest) =
      afterValue depth .inString ('0' :: '0' ::
        hexDigit (char.toNat / 16) :: hexDigit (char.toNat % 16) :: rest) := by
    simp [afterValue]
  rw [opened, zero, zero,
    afterValue_inString (hexDigit_plain _).1 (hexDigit_plain _).2,
    afterValue_inString (hexDigit_plain _).1 (hexDigit_plain _).2]

theorem afterValue_stringifyString (depth : Nat) (value : String) (rest : List Char) :
    afterValue depth .outside (stringifyString value ++ rest) = afterValue depth .outside rest := by
  have body (chars : List Char) :
      afterValue depth .inString (chars.flatMap stringifyChar ++ '"' :: rest) =
        afterValue depth .outside rest := by
    induction chars with
    | nil => simp [afterValue]
    | cons char chars ih =>
        rw [List.flatMap_cons, List.append_assoc, afterValue_stringifyChar, ih]
  have opened (text : List Char) :
      afterValue depth .outside ('"' :: text) = afterValue depth .inString text := by
    simp [afterValue, isDelimiter]
  unfold stringifyString
  simp only [List.cons_append, List.append_assoc, List.nil_append]
  rw [opened, body]

theorem afterValue_nested (depth : Nat) {char : Char} (separates : char = ',' ∨ char = ':')
    (rest : List Char) :
    afterValue (depth + 1) .outside (char :: rest) = afterValue (depth + 1) .outside rest := by
  rcases separates with rfl | rfl <;> simp [afterValue]

theorem afterValue_open (depth : Nat) {char : Char} (opening : char = '[' ∨ char = Char.ofNat 123)
    (rest : List Char) :
    afterValue depth .outside (char :: rest) = afterValue (depth + 1) .outside rest := by
  rcases opening with rfl | rfl <;> simp [afterValue, isDelimiter]

theorem afterValue_close (depth : Nat) {char : Char} (closing : char = ']' ∨ char = Char.ofNat 125)
    (rest : List Char) :
    afterValue (depth + 1) .outside (char :: rest) = afterValue depth .outside rest := by
  rcases closing with rfl | rfl <;> simp [afterValue]

theorem afterValue_getD {text? : Option (List Char)} {depth : Nat}
    (known : ∀ text, text? = some text → ∀ rest,
      afterValue depth .outside (text ++ rest) = afterValue depth .outside rest)
    (rest : List Char) :
    afterValue depth .outside (text?.getD "null".toList ++ rest) =
      afterValue depth .outside rest := by
  cases text? with
  | none => exact afterValue_plains (List.all_iff_forall_prop.mp (by decide)) rest
  | some text => exact known text rfl rest

mutual

theorem afterValue_stringify : ∀ (value : GraphQLValue) (text : List Char), value.Numeric →
    value.stringify = some text → ∀ (depth : Nat) (rest : List Char),
      afterValue depth .outside (text ++ rest) = afterValue depth .outside rest
  | .undefined, text, _, printed, depth, rest => by simp [stringify] at printed
  | .component .., text, _, printed, depth, rest => by simp [stringify] at printed
  | .null, text, _, printed, depth, rest => by
      obtain rfl := Option.some.inj printed
      exact afterValue_plains (List.all_iff_forall_prop.mp (by decide)) rest
  | .boolean value, text, _, printed, depth, rest => by
      obtain rfl := Option.some.inj printed
      cases value <;> exact afterValue_plains (List.all_iff_forall_prop.mp (by decide)) rest
  | .number digits, text, numeric, printed, depth, rest => by
      obtain rfl := Option.some.inj printed
      have plain : ∀ char ∈ "+-.0123456789enul".toList, isPlain char = true :=
        List.all_iff_forall_prop.mp (by decide)
      exact afterValue_plains (fun char member => plain char (numeric.2 char member)) rest
  | .string value, text, _, printed, depth, rest => by
      obtain rfl := Option.some.inj printed
      exact afterValue_stringifyString depth value rest
  | .array items, text, numeric, printed, depth, rest => by
      obtain rfl := Option.some.inj printed
      simp only [List.cons_append, List.append_assoc, List.nil_append]
      rw [afterValue_open depth (.inl rfl), afterValue_stringifyItems items numeric,
        afterValue_close depth (.inl rfl)]
  | .object fields, text, numeric, printed, depth, rest => by
      obtain rfl := Option.some.inj printed
      simp only [List.cons_append, List.append_assoc, List.nil_append]
      rw [afterValue_open depth (.inr rfl), afterValue_stringifyFields fields numeric,
        afterValue_close depth (.inr rfl)]

theorem afterValue_stringifyItems : ∀ (items : List GraphQLValue), NumericItems items →
    ∀ (depth : Nat) (rest : List Char),
      afterValue (depth + 1) .outside (stringifyItems items ++ rest) =
        afterValue (depth + 1) .outside rest
  | [], _, depth, rest => rfl
  | [item], numeric, depth, rest => by
      rw [stringifyItems]
      exact afterValue_getD (fun text printed => afterValue_stringify item text numeric.1 printed _)
        rest
  | item :: second :: others, numeric, depth, rest => by
      rw [stringifyItems, List.append_assoc, List.cons_append]
      · rw [afterValue_getD fun text printed => afterValue_stringify item text numeric.1 printed _,
          afterValue_nested depth (.inl rfl),
          afterValue_stringifyItems (second :: others) numeric.2]
      · simp

theorem afterValue_stringifyFields : ∀ (fields : List (String × GraphQLValue)),
    NumericFields fields → ∀ (depth : Nat) (rest : List Char),
      afterValue (depth + 1) .outside (stringifyFields fields ++ rest) =
        afterValue (depth + 1) .outside rest
  | [], _, depth, rest => rfl
  | (name, value) :: others, numeric, depth, rest => by
      have later := afterValue_stringifyFields others numeric.2 depth
      rw [stringifyFields]
      cases printed : value.stringify with
      | none => exact later rest
      | some text =>
          have first (rest : List Char) :
              afterValue (depth + 1) .outside (stringifyString name ++ ':' :: (text ++ rest)) =
                afterValue (depth + 1) .outside rest := by
            rw [afterValue_stringifyString, afterValue_nested depth (.inr rfl),
              afterValue_stringify value text numeric.1 printed]
          cases printedOthers : stringifyFields others with
          | nil => simpa using first rest
          | cons char chars =>
              rw [printedOthers] at later
              simp only [List.append_assoc, List.cons_append]
              rw [first, afterValue_nested depth (.inl rfl)]
              exact later rest

end

theorem stringify_head {value : GraphQLValue} {text : List Char} (numeric : value.Numeric)
    (printed : value.stringify = some text) :
    ∃ first rest, text = first :: rest ∧ first ≠ '$' ∧ first ≠ ' ' := by
  cases value with
  | undefined => simp [stringify] at printed
  | component => simp [stringify] at printed
  | null => exact ⟨_, _, (Option.some.inj printed).symm, by decide⟩
  | boolean value =>
      obtain rfl := Option.some.inj printed
      cases value with
      | false => exact ⟨'f', "alse".toList, rfl, by decide⟩
      | true => exact ⟨'t', "rue".toList, rfl, by decide⟩
  | number digits =>
      obtain rfl := Option.some.inj printed
      cases characters : digits.toList with
      | nil => exact absurd (String.toList_eq_nil_iff.mp characters) numeric.1
      | cons first rest =>
          have known : ∀ char ∈ "+-.0123456789enul".toList, char ≠ '$' ∧ char ≠ ' ' :=
            List.all_iff_forall_prop.mp (by decide)
          exact ⟨first, rest, rfl,
            known first (numeric.2 first (characters ▸ List.mem_cons_self))⟩
  | string value => exact ⟨_, _, (Option.some.inj printed).symm, by decide⟩
  | array items => exact ⟨_, _, (Option.some.inj printed).symm, by decide⟩
  | object fields => exact ⟨_, _, (Option.some.inj printed).symm, by decide⟩

theorem Numeric.property {vars : GraphQLObject} (numeric : NumericFields vars) (name : String) :
    (vars.property name).Numeric := by
  induction vars with
  | nil => trivial
  | cons entry rest ih =>
      obtain ⟨key, value⟩ := entry
      unfold GraphQLObject.property at ih ⊢
      rw [List.lookup_cons]
      cases name == key with
      | true => exact numeric.1
      | false => exact ih numeric.2

end GraphQLValue

namespace Cache

open GraphQLValue (Numeric NumericFields isDelimiter afterValue)

/-- A part of a template: a character, or a reference to a variable. -/
inductive KeyToken where
  | plain (char : Char)
  | reference (name : String)

/-- `JSON.stringify(value ?? null)` -/
def variableText (vars : GraphQLObject) (name : String) : List Char :=
  match vars.property name with
  | .undefined | .null => "null".toList
  | value => value.stringify.getD "undefined".toList

namespace KeyToken

def text : KeyToken → List Char
  | .plain char => [char]
  | .reference name => '$' :: name.toList

def evaluated (vars : GraphQLObject) : KeyToken → List Char
  | .plain char => [char]
  | .reference name => variableText vars name

def Separated : List KeyToken → Prop
  | [] => True
  | .plain _ :: rest => Separated rest
  | .reference _ :: rest =>
      (∃ char others, rest = .plain char :: others ∧ isDelimiter char = true) ∧ Separated rest

/-- There is an even number of quotes before every reference, and an odd number before every other
dollar sign. -/
def Quoted (inString : Bool) : List KeyToken → Prop
  | [] => True
  | .plain char :: rest =>
      (char = '$' → inString = true) ∧ Quoted (if char = '"' then !inString else inString) rest
  | .reference _ :: rest => inString = false ∧ Quoted inString rest

def references : List KeyToken → List String
  | [] => []
  | .plain _ :: rest => references rest
  | .reference name :: rest => name :: references rest

def Named (tokens : List KeyToken) : Prop :=
  ∀ name ∈ references tokens, ∀ char ∈ name.toList, isVarChar char = true

end KeyToken

def templateText (tokens : List KeyToken) : List Char := tokens.flatMap KeyToken.text

/-- The text of a template whose references are replaced by their values. -/
def evaluatedText (vars : GraphQLObject) (tokens : List KeyToken) : List Char :=
  tokens.flatMap (KeyToken.evaluated vars)

section Scanner

variable {vars : GraphQLObject}

theorem variableText_head (numeric : NumericFields vars) (name : String) :
    ∃ first rest, variableText vars name = first :: rest ∧ first ≠ '$' := by
  have known := GraphQLValue.Numeric.property numeric name
  have absent : ∃ first rest, "undefined".toList = first :: rest ∧ first ≠ '$' :=
    ⟨'u', "ndefined".toList, rfl, by decide⟩
  unfold variableText
  split
  · exact ⟨'n', "ull".toList, rfl, by decide⟩
  · exact ⟨'n', "ull".toList, rfl, by decide⟩
  · cases printed : (vars.property name).stringify with
    | none => exact absent
    | some text =>
        obtain ⟨first, rest, isText, notDollar, _⟩ := GraphQLValue.stringify_head known printed
        exact ⟨first, rest, isText, notDollar⟩

namespace KeyState

theorem closeVariable_eq (state : KeyState) :
    state.closeVariable vars =
      { state with
        evaluated :=
          state.evaluated ++ variableText vars (String.ofList (state.varName.drop 1))
        varName := [] } := rfl

def prepend (text : List Char) (state : KeyState) : KeyState :=
  { state with evaluated := text ++ state.evaluated }

theorem step_prepend (text : List Char) (state : KeyState) (char : Char) :
    (state.prepend text).step vars char = (state.step vars char).prepend text := by
  have added (state : KeyState) : (state.prepend text).addChar char =
      (state.addChar char).prepend text := by
    unfold addChar prepend
    dsimp only
    split <;> simp
  have closed : (state.prepend text).closeVariable vars =
      (state.closeVariable vars).prepend text := by
    simp [closeVariable_eq, prepend]
  unfold step
  rw [closed, added, added]
  unfold prepend
  dsimp only
  split
  · rfl
  · split <;> rfl

theorem foldl_prepend (text : List Char) (state : KeyState) (chars : List Char) :
    chars.foldl (step vars) (state.prepend text) =
      (chars.foldl (step vars) state).prepend text := by
  induction chars generalizing state with
  | nil => rfl
  | cons char rest ih => rw [List.foldl_cons, List.foldl_cons, step_prepend, ih]

def emitted (vars : GraphQLObject) (inString : Bool) (varName chars : List Char) : List Char :=
  (chars.foldl (step vars) { evaluated := [], varName, inString }).evaluated

theorem emitted_after (text : List Char) (inString : Bool) (varName chars : List Char) :
    (chars.foldl (step vars) { evaluated := text, varName, inString }).evaluated =
      text ++ emitted vars inString varName chars := by
  have same : ({ evaluated := text, varName, inString } : KeyState) =
      prepend text { evaluated := [], varName, inString } := by
    simp [prepend]
  rw [same, foldl_prepend]
  rfl

theorem emitted_char {inString : Bool} {char : Char} (quoted : char = '$' → inString = true)
    (chars : List Char) :
    emitted vars inString [] (char :: chars) =
      char :: emitted vars (if char = '"' then !inString else inString) [] chars := by
  have stays : ¬ (char = '$' && !inString) = true := by
    rw [Bool.and_eq_true, decide_eq_true_eq]
    rintro ⟨isDollar, outside⟩
    rw [quoted isDollar] at outside
    cases outside
  have added : step vars { evaluated := [], varName := [], inString } char =
      { evaluated := [char], varName := [],
        inString := if char = '"' then !inString else inString } := by
    change addChar _ char = _
    rw [addChar, if_neg stays]
    rfl
  rw [emitted, List.foldl_cons, added]
  exact emitted_after [char] _ _ _

theorem emitted_close {inString : Bool} {name : List Char} {char : Char}
    (ends : isVarChar char = false) (chars : List Char) :
    emitted vars inString ('$' :: name) (char :: chars) =
      variableText vars (String.ofList name) ++ emitted vars inString [] (char :: chars) := by
  have closed : step vars { evaluated := [], varName := '$' :: name, inString } char =
      step vars { evaluated := variableText vars (String.ofList name), varName := [], inString }
        char := by
    rw [step, step, closeVariable_eq]
    simp [ends]
  rw [emitted, List.foldl_cons, closed, ← List.foldl_cons]
  exact emitted_after _ _ _ _

theorem emitted_name {inString : Bool} {known name : List Char}
    (isName : ∀ char ∈ name, isVarChar char = true) (chars : List Char) :
    emitted vars inString ('$' :: known) (name ++ chars) =
      emitted vars inString ('$' :: (known ++ name)) chars := by
  induction name generalizing known with
  | nil => rw [List.nil_append, List.append_nil]
  | cons char rest ih =>
      have added : step vars { evaluated := [], varName := '$' :: known, inString } char =
          { evaluated := [], varName := '$' :: (known ++ [char]), inString } := by
        rw [step]
        simp [isName char List.mem_cons_self]
      rw [List.cons_append, emitted, List.foldl_cons, added]
      refine (ih fun other member => isName other (List.mem_cons_of_mem _ member)).trans ?_
      rw [List.append_assoc]
      rfl

theorem emitted_dollar (chars : List Char) :
    emitted vars false [] ('$' :: chars) = emitted vars false ['$'] chars := rfl

theorem emitted_varName (numeric : NumericFields vars) (inString : Bool) (known chars : List Char)
    (rest : List Char) : emitted vars inString ('$' :: known) chars ≠ '$' :: rest := by
  induction chars generalizing known with
  | nil => exact (List.cons_ne_nil _ _).symm
  | cons char chars ih =>
      cases ends : isVarChar char with
      | true =>
          have taken := @emitted_name vars inString known [char] (by simpa using ends) chars
          rw [List.singleton_append] at taken
          rw [taken]
          exact ih (known ++ [char])
      | false =>
          obtain ⟨first, others, text, notDollar⟩ :=
            variableText_head numeric (String.ofList known)
          rw [emitted_close ends, text]
          intro same
          exact notDollar (List.cons.inj same).1

theorem emitted_iff_quoted (numeric : NumericFields vars) {tokens : List KeyToken}
    (named : KeyToken.Named tokens) (separated : KeyToken.Separated tokens) (inString : Bool) :
    emitted vars inString [] (templateText tokens) = evaluatedText vars tokens ↔
      KeyToken.Quoted inString tokens := by
  induction tokens generalizing inString with
  | nil => exact ⟨fun _ => trivial, fun _ => rfl⟩
  | cons token rest ih =>
      cases token with
      | plain char =>
          change emitted vars inString [] (char :: templateText rest) =
            char :: evaluatedText vars rest ↔ _
          by_cases quoted : char = '$' → inString = true
          · rw [emitted_char quoted, List.cons_inj_right, ih named separated]
            exact ⟨fun later => ⟨quoted, later⟩, fun both => both.2⟩
          · obtain ⟨rfl, outside⟩ := Classical.not_imp.mp quoted
            refine iff_of_false ?_ fun both => quoted both.1
            rw [Bool.not_eq_true] at outside
            rw [outside]
            exact emitted_varName numeric false [] _ _
      | reference name =>
          obtain ⟨⟨char, others, rfl, delimiter⟩, later⟩ := separated
          have isName := named name List.mem_cons_self
          have namedOthers : KeyToken.Named (.plain char :: others) := fun other member =>
            named other (List.mem_cons_of_mem _ member)
          change emitted vars inString []
              ('$' :: (name.toList ++ templateText (.plain char :: others))) =
            variableText vars name ++ evaluatedText vars (.plain char :: others) ↔ _
          cases inString with
          | true =>
              -- the scanner copies the dollar sign
              refine iff_of_false ?_ fun both => Bool.noConfusion both.1
              obtain ⟨first, text, isText, notDollar⟩ := variableText_head numeric name
              rw [emitted_char fun _ => rfl, isText]
              intro same
              exact notDollar (List.cons.inj same).1.symm
          | false =>
              have ends : isVarChar char = false := by
                have all : ∀ char ∈ [',', ')', ']', Char.ofNat 125, ' '],
                    isVarChar char = false := List.all_iff_forall_prop.mp (by decide)
                exact all char (by simpa [isDelimiter] using delimiter)
              have closed : emitted vars false [] ('$' :: (name.toList ++
                  templateText (.plain char :: others))) = variableText vars name ++
                    emitted vars false [] (templateText (.plain char :: others)) := by
                rw [emitted_dollar, emitted_name isName]
                have close := @emitted_close vars false name.toList _ ends (templateText others)
                rw [String.ofList_toList] at close
                exact close
              rw [closed, List.append_cancel_left_eq, ih namedOthers later]
              exact ⟨fun rest => ⟨rfl, rest⟩, fun both => both.2⟩

theorem emitted_plain {inString : Bool} {chars : List Char} (plain : '$' ∉ chars) :
    emitted vars inString [] chars = chars := by
  induction chars generalizing inString with
  | nil => rfl
  | cons char rest ih =>
      rw [emitted_char fun isDollar => absurd (isDollar ▸ List.mem_cons_self) plain,
        ih fun member => plain (List.mem_cons_of_mem _ member)]

end KeyState

theorem evaluateKey_eq (key : String) :
    evaluateKey key vars = String.ofList (KeyState.emitted vars false [] key.toList) := by
  unfold evaluateKey
  split
  · rfl
  · next plain =>
      rw [KeyState.emitted_plain (by simpa using plain), String.ofList_toList]

theorem evaluateKey_iff_quoted (numeric : NumericFields vars) {tokens : List KeyToken}
    (named : KeyToken.Named tokens) (separated : KeyToken.Separated tokens) :
    evaluateKey (String.ofList (templateText tokens)) vars =
        String.ofList (evaluatedText vars tokens) ↔ KeyToken.Quoted false tokens := by
  rw [evaluateKey_eq, String.toList_ofList, String.ofList_inj,
    KeyState.emitted_iff_quoted numeric named separated]

end Scanner

theorem afterValue_variableText {vars : GraphQLObject} (numeric : NumericFields vars)
    (name : String) (depth : Nat) (rest : List Char) :
    afterValue depth .outside (variableText vars name ++ rest) =
      afterValue depth .outside rest := by
  have known := GraphQLValue.Numeric.property numeric name
  unfold variableText
  split
  · exact GraphQLValue.afterValue_plains (List.all_iff_forall_prop.mp (by decide)) rest
  · exact GraphQLValue.afterValue_plains (List.all_iff_forall_prop.mp (by decide)) rest
  · cases printed : (vars.property name).stringify with
    | none => exact GraphQLValue.afterValue_plains (List.all_iff_forall_prop.mp (by decide)) rest
    | some text => exact GraphQLValue.afterValue_stringify _ text known printed depth rest

theorem evaluatedText_eq_iff {vars others : GraphQLObject} (numeric : NumericFields vars)
    (numericOthers : NumericFields others) {tokens : List KeyToken}
    (separated : KeyToken.Separated tokens) :
    evaluatedText vars tokens = evaluatedText others tokens ↔
      ∀ name ∈ KeyToken.references tokens, variableText vars name = variableText others name := by
  induction tokens with
  | nil => exact ⟨fun _ _ member => absurd member List.not_mem_nil, fun _ => rfl⟩
  | cons token rest ih =>
      cases token with
      | plain char => exact (List.cons_inj_right char).trans (ih separated)
      | reference name =>
          obtain ⟨⟨char, following, rfl, delimiter⟩, later⟩ := separated
          have stops (text : List Char) : afterValue 0 .outside (char :: text) = char :: text := by
            simp [afterValue, delimiter]
          change variableText vars name ++ char :: evaluatedText vars following =
            variableText others name ++ char :: evaluatedText others following ↔ _
          have below : char :: evaluatedText vars following = char :: evaluatedText others following ↔
              ∀ name ∈ KeyToken.references following,
                variableText vars name = variableText others name := ih later
          rw [KeyToken.references, List.forall_mem_cons]
          constructor
          · intro same
            -- both values end where the delimiter is
            have tails := congrArg (afterValue 0 .outside) same
            rw [afterValue_variableText numeric, afterValue_variableText numericOthers, stops,
              stops] at tails
            rw [tails, List.append_cancel_right_eq] at same
            exact ⟨same, below.mp tails⟩
          · rintro ⟨same, rest⟩
            rw [same, below.mpr rest]

end Cache

end Houdini.Runtime
