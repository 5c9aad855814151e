import Houdini.Plugin.Documents.KeyEvaluation
import Houdini.Runtime.Cache.KeyComparison

/-! When the key that is compiled for a field is the key that is computed for it from the values of
its arguments. -/

set_option autoImplicit false

namespace Houdini.Plugin

open Houdini.Runtime (GraphQLObject GraphQLValue Renamed computeKey)
open Houdini.Runtime.Cache (Followed KeyToken Escapes Renders evaluateKey isVarChar orNull
  templateText)
open Houdini.Runtime.GraphQLValue (NumericFields isPlain joinArguments propertyTexts argumentTexts
  stringifyChar)

section Values

variable (printNumber : String → String) (vars : GraphQLObject)

mutual

/-- The value that an argument has. What JavaScript prints for the number of a literal is a
parameter. -/
def effectiveValue : ArgumentValue → GraphQLValue
  | .mk kind raw children =>
      match kind with
      | .variable => orNull (vars.property raw)
      | .int | .float => .number (printNumber raw)
      | .boolean => .boolean (raw = "true")
      | .string | .block | .enum => .string raw
      | .null => .null
      | .object => .object (effectiveFields children)
      | .list => .array (effectiveItems children)

def effectiveFields : List (String × ArgumentValue) → List (String × GraphQLValue)
  | [] => []
  | (name, value) :: rest => (name, effectiveValue value) :: effectiveFields rest

def effectiveItems : List (String × ArgumentValue) → List GraphQLValue
  | [] => []
  | (_, value) :: rest => effectiveValue value :: effectiveItems rest

end

def effectiveValue? : Option ArgumentValue → GraphQLValue
  | none => .null
  | some value => effectiveValue printNumber vars value

def effectiveArguments : List Argument → GraphQLObject
  | [] => []
  | .mk name value _ :: rest => (name, effectiveValue? printNumber vars value) ::
      effectiveArguments rest

end Values

def IsKeyName (name : String) : Prop := ∀ char ∈ name.toList, isVarChar char = true

instance (name : String) : Decidable (IsKeyName name) :=
  decidable_of_iff (name.toList.all isVarChar = true) List.all_eq_true

mutual

def ParsedValue : ArgumentValue → Prop
  | .mk kind raw children =>
      match kind with
      | .variable => IsKeyName raw
      | .int | .float => ∀ char ∈ raw.toList, char ∈ "+-.0123456789eE".toList
      | .boolean => raw = "true" ∨ raw = "false"
      | .string | .block | .null => True
      | .enum => False
      | .object => ParsedFields children
      | .list => ParsedItems children

def ParsedFields : List (String × ArgumentValue) → Prop
  | [] => True
  | (name, value) :: rest => IsKeyName name ∧ ParsedValue value ∧ ParsedFields rest

def ParsedItems : List (String × ArgumentValue) → Prop
  | [] => True
  | (_, value) :: rest => ParsedValue value ∧ ParsedItems rest

end

def ParsedArguments : List Argument → Prop
  | [] => True
  | .mk name value directives :: rest =>
      (IsKeyName name ∧ (∀ given, value = some given → ParsedValue given) ∧ directives = []) ∧
        ParsedArguments rest

section Alike

variable (isPrint : Char → Bool) (printNumber : String → String) (vars : GraphQLObject)

mutual

def PrintedAlike : ArgumentValue → Prop
  | .mk kind raw children =>
      match kind with
      | .variable => (orNull (vars.property raw)).Flat
      | .int | .float => raw = printNumber raw
      | .boolean => True
      | .string =>
          (∀ char ∈ raw.toList, quotedChar isPrint char = stringifyChar char) ∧
            ¬ Renamed raw
      | .block | .null | .enum => False
      | .object => PrintedAlikeFields children
      | .list => PrintedAlikeItems children

def PrintedAlikeFields : List (String × ArgumentValue) → Prop
  | [] => True
  | (_, value) :: rest => PrintedAlike value ∧ PrintedAlikeFields rest

def PrintedAlikeItems : List (String × ArgumentValue) → Prop
  | [] => True
  | (_, value) :: rest => PrintedAlike value ∧ PrintedAlikeItems rest

end

def ArgumentsAlike : List Argument → Prop
  | [] => True
  | .mk _ value _ :: rest =>
      (∀ given, value = some given → PrintedAlike isPrint printNumber vars given) ∧
        ArgumentsAlike rest

end Alike

def Differs (text others : List Char) : Prop :=
  (∃ first more second rest, text = first :: more ∧ others = second :: rest ∧ first ≠ second) ∨
    ∃ first more second rest, text = '\\' :: first :: more ∧ others = '\\' :: second :: rest ∧
      first ≠ second

theorem quotedChar_cases (isPrint : Char → Bool) (char : Char) :
    quotedChar isPrint char = stringifyChar char ∨
      Differs (quotedChar isPrint char) (stringifyChar char) := by
  unfold quotedChar stringifyChar
  by_cases quote : char = '"'
  · simp [quote]
  by_cases backslash : char = '\\'
  · simp [backslash]
  rw [if_neg quote, if_neg backslash, if_neg (not_or.mpr ⟨quote, backslash⟩)]
  have raw (letter : Char) (more : List Char) : Differs [char] ('\\' :: letter :: more) :=
    .inl ⟨char, [], '\\', _, rfl, rfl, backslash⟩
  have escaped (letter : Char) (more : List Char) : Differs ('\\' :: letter :: more) [char] :=
    .inl ⟨'\\', _, char, [], rfl, rfl, Ne.symm backslash⟩
  have letters {letter other : Char} (apart : letter ≠ other) (more rest : List Char) :
      Differs ('\\' :: letter :: more) ('\\' :: other :: rest) :=
    .inr ⟨letter, more, other, rest, rfl, rfl, apart⟩
  split_ifs
  all_goals first
    | exact .inl rfl
    | exact .inr (raw _ _)
    | exact .inr (escaped _ _)
    | exact .inr (letters (by decide) _ _)
    | omega

theorem dollar_not_mem_hexDigits (width number : Nat) : '$' ∉ hexDigits width number := by
  have digits : ∀ char ∈ "0123456789abcdef".toList, char ≠ '$' :=
    List.all_iff_forall_prop.mp (by decide)
  induction width generalizing number with
  | zero => exact List.not_mem_nil
  | succ width ih =>
      rw [hexDigits, List.mem_append, List.mem_singleton, not_or]
      refine ⟨ih _, Ne.symm ?_⟩
      unfold hexDigit
      rw [List.getD_eq_getElem?_getD]
      cases found : "0123456789abcdef".toList[number % 16]? with
      | none => exact digits '0' (by decide)
      | some char => exact digits char (List.mem_of_getElem? found)

theorem dollar_not_mem_quotedChar (isPrint : Char → Bool) {char : Char} (plain : char ≠ '$') :
    '$' ∉ quotedChar isPrint char := by
  have escape {letter : Char} {more : List Char} (notDollar : '$' ≠ letter)
      (rest : '$' ∉ more) : '$' ∉ '\\' :: letter :: more := by
    rw [List.mem_cons, List.mem_cons, not_or, not_or]
    exact ⟨by decide, notDollar, rest⟩
  have none : '$' ∉ [] := List.not_mem_nil
  have short {width number : Nat} := dollar_not_mem_hexDigits width number
  unfold quotedChar
  by_cases special : char = '"' ∨ char = '\\'
  · rw [if_pos special]
    exact escape (Ne.symm plain) none
  rw [if_neg special]
  by_cases printable : isPrint char = true
  · rw [if_pos printable]
    exact fun member => plain (List.mem_singleton.mp member).symm
  rw [if_neg printable]
  repeat' split
  all_goals first
    | exact escape (by decide) none
    | exact escape (by decide) short

/-- `%q` and `JSON.stringify` print a character in the same way, or so that one cannot be mistaken
for the other. -/
theorem escapes_quotedChar (isPrint : Char → Bool) : Escapes (quotedChar isPrint) where
  quote := rfl
  dollar := by
    intro char different
    by_cases isDollar : char = '$'
    · -- a dollar sign is printed as it is, or as a number
      subst isDollar
      have unquoted : quotedChar isPrint '$' =
          if isPrint '$' = true then ['$'] else '\\' :: 'u' :: hexDigits 4 36 := rfl
      by_cases printable : isPrint '$' = true
      · exact absurd (unquoted.trans (if_pos printable)) different
      · rw [unquoted, if_neg printable, List.mem_cons, List.mem_cons, not_or, not_or]
        exact ⟨by decide, by decide, dollar_not_mem_hexDigits 4 36⟩
    · exact dollar_not_mem_quotedChar isPrint isDollar
  apart := by
    intro char text others same
    rcases quotedChar_cases isPrint char with alike | ⟨first, more, second, rest, printed, json,
      apart⟩ | ⟨first, more, second, rest, printed, json, apart⟩
    · rw [alike, List.append_cancel_left_eq] at same
      exact ⟨alike, same⟩
    · rw [printed, json] at same
      exact absurd (List.cons.inj same).1 apart
    · rw [printed, json] at same
      exact absurd (List.cons.inj (List.cons.inj same).2).1 apart

section Comparison

variable {isPrint : Char → Bool} {printNumber : String → String} {vars : GraphQLObject}

theorem joinTokens_cons (first : List KeyToken) (rest : List (List KeyToken)) :
    joinTokens ", " (first :: rest) =
      first ++ if rest = [] then [] else .plain ',' :: .plain ' ' :: joinTokens ", " rest := by
  unfold joinTokens
  cases rest with
  | nil => rw [List.intercalate_singleton, if_pos rfl, List.append_nil]
  | cons second rest =>
      rw [List.intercalate_cons_cons, if_neg (List.cons_ne_nil _ _), List.append_assoc]
      rfl

theorem Renders.join (numeric : NumericFields vars) {first : List KeyToken} {text : List Char}
    {tokens : List (List KeyToken)} {texts : List (List Char)} {alike alikeRest : Prop}
    (renders : Renders vars first text alike)
    (rest : Renders vars (joinTokens ", " tokens) (joinArguments texts) alikeRest)
    (lengths : (tokens = [] ∧ texts = [] ∧ alikeRest) ∨ (tokens ≠ [] ∧ texts ≠ [])) :
    Renders vars (joinTokens ", " (first :: tokens)) (joinArguments (text :: texts))
      (alike ∧ alikeRest) := by
  rw [joinTokens_cons, GraphQLValue.joinArguments_cons]
  rcases lengths with ⟨noTokens, noTexts, isAlike⟩ | ⟨someTokens, someTexts⟩
  · rw [if_pos noTokens, if_pos noTexts, List.append_nil, List.append_nil]
    exact renders.congr (and_iff_left isAlike).symm
  · rw [if_neg someTokens, if_neg someTexts]
    exact renders.append (by decide)
      ((rest.plain numeric (by decide)).plain numeric (by decide))

theorem IsKeyName.noBackslash {name : String} (isName : IsKeyName name) : '\\' ∉ name.toList :=
  fun member => absurd (isName _ member) (by decide)

theorem Renders.named (numeric : NumericFields vars) {name : String} (isName : IsKeyName name)
    {tokens : List KeyToken} {text : List Char} {alike : Prop}
    (renders : Renders vars tokens text alike) :
    Renders vars (plainTokens name.toList ++ .plain ':' :: .plain ' ' :: tokens)
      (name.toList ++ ':' :: ' ' :: text) alike :=
  ((renders.plain numeric (by decide)).plain numeric (by decide)).plains numeric isName.noBackslash

/-- What JavaScript prints for a number has no quotes and nothing that ends a value. -/
def PlainNumbers (printNumber : String → String) : Prop :=
  ∀ raw, ∀ char ∈ (printNumber raw).toList, isPlain char = true

mutual

theorem renders_value (numeric : NumericFields vars) (plainNumbers : PlainNumbers printNumber) :
    ∀ {value : ArgumentValue} {text : List Char}, ParsedValue value →
    (effectiveValue printNumber vars value).argumentText = .ok text →
      Renders vars (valueTokens isPrint value) text (PrintedAlike isPrint printNumber vars value)
  | .mk kind raw children, text, parsed, computed => by
      cases kind with
      | «variable» => exact Renders.reference numeric parsed computed
      | int | float =>
          obtain rfl := Except.ok.inj computed
          rw [Runtime.unquoteNames_plain fun member =>
            absurd (plainNumbers raw _ member) (by decide)]
          exact (Renders.number numeric parsed (plainNumbers raw)).congr String.toList_inj
      | boolean =>
          obtain rfl := Except.ok.inj computed
          have printed : (if decide (raw = "true") = true then "true".toList else "false".toList) =
              raw.toList := by
            rcases parsed with rfl | rfl <;> rfl
          rw [printed, Runtime.unquoteNames_plain]
          · exact Renders.ofText numeric (by rcases parsed with rfl | rfl <;> decide)
          · rcases parsed with rfl | rfl <;> decide
      | string =>
          obtain rfl := Except.ok.inj computed
          exact Renders.string numeric (escapes_quotedChar isPrint) raw
      | block =>
          obtain rfl := Except.ok.inj computed
          exact Renders.block raw _
      | null =>
          obtain rfl := Except.ok.inj computed
          rw [Runtime.unquoteNames_plain (by decide)]
          exact Renders.quoted fun _ _ _ same => absurd (List.cons.inj same).1 (by decide)
      | enum => exact absurd parsed id
      | object =>
          obtain ⟨texts, areTexts, rfl⟩ := GraphQLValue.argumentText_object computed
          have closed : Renders vars [.plain closeBrace] [closeBrace] True :=
            Renders.nil.plain numeric (by decide)
          have inside := renders_fields numeric plainNumbers parsed areTexts
          exact ((inside.append (by decide) closed).plain numeric (by decide)).congr
            (iff_of_eq (and_true _))
      | list =>
          obtain ⟨texts, areTexts, rfl⟩ := GraphQLValue.argumentText_array computed
          have closed : Renders vars [.plain ']'] [']'] True :=
            Renders.nil.plain numeric (by decide)
          have inside := renders_items numeric plainNumbers parsed areTexts
          exact ((inside.append (by decide) closed).plain numeric (by decide)).congr
            (iff_of_eq (and_true _))

theorem renders_fields (numeric : NumericFields vars) (plainNumbers : PlainNumbers printNumber) :
    ∀ {fields : List (String × ArgumentValue)} {texts : List (List Char)},
    ParsedFields fields →
    propertyTexts (effectiveFields printNumber vars fields) = .ok texts →
      Renders vars (joinTokens ", " (fieldTokens isPrint fields)) (joinArguments texts)
        (PrintedAlikeFields isPrint printNumber vars fields)
  | [], texts, _, areTexts => by
      obtain rfl := Except.ok.inj areTexts
      exact Renders.nil
  | (name, value) :: rest, texts, parsed, areTexts => by
      obtain ⟨text, others, isText, areOthers, rfl⟩ := GraphQLValue.propertyTexts_cons areTexts
      refine Renders.join numeric
        (Renders.named numeric parsed.1
          (renders_value numeric plainNumbers parsed.2.1 isText))
        (renders_fields numeric plainNumbers parsed.2.2 areOthers) ?_
      cases rest with
      | nil => exact .inl ⟨rfl, (Except.ok.inj areOthers).symm, trivial⟩
      | cons second rest =>
          obtain ⟨text, more, _, _, rfl⟩ := GraphQLValue.propertyTexts_cons areOthers
          exact .inr ⟨List.cons_ne_nil _ _, List.cons_ne_nil _ _⟩

theorem renders_items (numeric : NumericFields vars) (plainNumbers : PlainNumbers printNumber) :
    ∀ {items : List (String × ArgumentValue)} {texts : List (List Char)},
    ParsedItems items →
    argumentTexts (effectiveItems printNumber vars items) = .ok texts →
      Renders vars (joinTokens ", " (itemTokens isPrint items)) (joinArguments texts)
        (PrintedAlikeItems isPrint printNumber vars items)
  | [], texts, _, areTexts => by
      obtain rfl := Except.ok.inj areTexts
      exact Renders.nil
  | (_, value) :: rest, texts, parsed, areTexts => by
      obtain ⟨text, others, isText, areOthers, rfl⟩ := GraphQLValue.argumentTexts_cons areTexts
      refine Renders.join numeric (renders_value numeric plainNumbers parsed.1 isText)
        (renders_items numeric plainNumbers parsed.2 areOthers) ?_
      cases rest with
      | nil => exact .inl ⟨rfl, (Except.ok.inj areOthers).symm, trivial⟩
      | cons second rest =>
          obtain ⟨text, more, _, _, rfl⟩ := GraphQLValue.argumentTexts_cons areOthers
          exact .inr ⟨List.cons_ne_nil _ _, List.cons_ne_nil _ _⟩

end

theorem renders_value? (numeric : NumericFields vars) (plainNumbers : PlainNumbers printNumber)
    {value : Option ArgumentValue} {text : List Char}
    (parsed : ∀ given, value = some given → ParsedValue given)
    (computed : (effectiveValue? printNumber vars value).argumentText = .ok text) :
    Renders vars (valueTokens? isPrint value) text
      (∀ given, value = some given → PrintedAlike isPrint printNumber vars given) := by
  cases value with
  | none =>
      obtain rfl := Except.ok.inj computed
      rw [Runtime.unquoteNames_plain (by decide)]
      exact (Renders.ofText numeric (by decide)).congr (by simp)
  | some value =>
      exact (renders_value numeric plainNumbers (parsed value rfl) computed).congr (by simp)

theorem renders_arguments (numeric : NumericFields vars) (plainNumbers : PlainNumbers printNumber)
    {arguments : List Argument} {texts : List (List Char)}
    (parsed : ParsedArguments arguments)
    (areTexts : propertyTexts (effectiveArguments printNumber vars arguments) = .ok texts) :
    Renders vars (joinTokens ", " (argumentsTokens isPrint arguments)) (joinArguments texts)
      (ArgumentsAlike isPrint printNumber vars arguments) := by
  induction arguments generalizing texts with
  | nil =>
      obtain rfl := Except.ok.inj areTexts
      exact Renders.nil
  | cons argument rest ih =>
      obtain ⟨name, value, directives⟩ := argument
      obtain ⟨⟨isName, isValue, rfl⟩, later⟩ := parsed
      obtain ⟨text, others, isText, areOthers, rfl⟩ := GraphQLValue.propertyTexts_cons areTexts
      have first : Renders vars (argumentTokens isPrint (.mk name value []))
          (name.toList ++ ':' :: ' ' :: text)
          (∀ given, value = some given → PrintedAlike isPrint printNumber vars given) := by
        rw [argumentTokens, directivesTokens, if_pos List.isEmpty_nil, List.append_nil]
        exact Renders.named numeric isName (renders_value? numeric plainNumbers isValue isText)
      refine Renders.join numeric first (ih later areOthers) ?_
      cases rest with
      | nil => exact .inl ⟨rfl, (Except.ok.inj areOthers).symm, trivial⟩
      | cons second rest =>
          obtain ⟨nextName, nextValue, nextDirectives⟩ := second
          obtain ⟨text, more, _, _, rfl⟩ := GraphQLValue.propertyTexts_cons areOthers
          exact .inr ⟨List.cons_ne_nil _ _, List.cons_ne_nil _ _⟩

mutual

theorem argumentText_of_alike : ∀ {value : ArgumentValue},
    PrintedAlike isPrint printNumber vars value →
      ∃ text, (effectiveValue printNumber vars value).argumentText = .ok text
  | .mk kind raw children, alike => by
      cases kind with
      | «variable» => exact GraphQLValue.argumentText_of_flat alike
      | int | float | boolean | string | block | null | enum => exact ⟨_, rfl⟩
      | object =>
          obtain ⟨texts, areTexts⟩ := propertyTexts_of_alike alike
          rw [effectiveValue, GraphQLValue.argumentText, areTexts]
          exact ⟨_, rfl⟩
      | list =>
          obtain ⟨texts, areTexts⟩ := argumentTexts_of_alike alike
          rw [effectiveValue, GraphQLValue.argumentText, areTexts]
          exact ⟨_, rfl⟩

theorem propertyTexts_of_alike : ∀ {fields : List (String × ArgumentValue)},
    PrintedAlikeFields isPrint printNumber vars fields →
      ∃ texts, propertyTexts (effectiveFields printNumber vars fields) = .ok texts
  | [], _ => ⟨_, rfl⟩
  | (name, value) :: rest, alike => by
      obtain ⟨text, isText⟩ := argumentText_of_alike alike.1
      obtain ⟨texts, areTexts⟩ := propertyTexts_of_alike alike.2
      rw [effectiveFields, propertyTexts, isText, areTexts]
      exact ⟨_, rfl⟩

theorem argumentTexts_of_alike : ∀ {items : List (String × ArgumentValue)},
    PrintedAlikeItems isPrint printNumber vars items →
      ∃ texts, argumentTexts (effectiveItems printNumber vars items) = .ok texts
  | [], _ => ⟨_, rfl⟩
  | (_, value) :: rest, alike => by
      obtain ⟨text, isText⟩ := argumentText_of_alike alike.1
      obtain ⟨texts, areTexts⟩ := argumentTexts_of_alike alike.2
      rw [effectiveItems, argumentTexts, isText, areTexts]
      exact ⟨_, rfl⟩

end

theorem propertyTexts_of_argumentsAlike {arguments : List Argument}
    (alike : ArgumentsAlike isPrint printNumber vars arguments) :
    ∃ texts, propertyTexts (effectiveArguments printNumber vars arguments) = .ok texts := by
  induction arguments with
  | nil => exact ⟨_, rfl⟩
  | cons argument rest ih =>
      obtain ⟨name, value, directives⟩ := argument
      obtain ⟨texts, areTexts⟩ := ih alike.2
      have ⟨text, isText⟩ : ∃ text,
          (effectiveValue? printNumber vars value).argumentText = .ok text := by
        cases value with
        | none => exact ⟨_, rfl⟩
        | some value => exact argumentText_of_alike (alike.1 value rfl)
      rw [effectiveArguments, propertyTexts, isText, areTexts]
      exact ⟨_, rfl⟩

theorem sortedArguments_effectiveArguments {arguments : List Argument}
    (alphabetical : (arguments.map Argument.name).Pairwise (· < ·)) :
    Runtime.sortedArguments (effectiveArguments printNumber vars arguments) =
      effectiveArguments printNumber vars arguments := by
  have names : (effectiveArguments printNumber vars arguments).map Prod.fst =
      arguments.map Argument.name := by
    induction arguments with
    | nil => rfl
    | cons argument rest ih =>
        obtain ⟨name, value, directives⟩ := argument
        exact congrArg (List.cons name) (ih (List.pairwise_cons.mp alphabetical).2)
  rw [← names, List.pairwise_map] at alphabetical
  exact (alphabetical.imp fun less => le_of_lt less).insertionSort_eq

/-- Both keys of a field are the same just if every argument has one text in both of them, and the
scanner sees the references of the compiled key. -/
theorem computeKey_eq_iff_alike (numeric : NumericFields vars)
    (plainNumbers : PlainNumbers printNumber) {field : String} (isName : IsKeyName field)
    {arguments : List Argument} (parsed : ParsedArguments arguments)
    (alphabetical : (arguments.map Argument.name).Pairwise (· < ·)) :
    computeKey field (effectiveArguments printNumber vars arguments) =
        .ok (evaluateKey (String.ofList (keyText isPrint field arguments none)) vars) ↔
      ArgumentsAlike isPrint printNumber vars arguments ∧
        KeyToken.Quoted false (keyTokens isPrint field arguments none) := by
  have noDollar : '$' ∉ field.toList := fun member => absurd (isName _ member) (by decide)
  have sorted := @sortedArguments_effectiveArguments printNumber vars _ alphabetical
  rw [Runtime.Cache.evaluateKey_eq, String.toList_ofList, keyText_eq]
  cases arguments with
  | nil =>
      have tokens : keyTokens isPrint field [] none = plainTokens field.toList := by
        simp [keyTokens, paginationSuffix, plainTokens]
      rw [tokens, templateText_plainTokens, Runtime.Cache.KeyState.emitted_plain noDollar,
        String.ofList_toList]
      exact iff_of_true rfl ⟨trivial, Runtime.Cache.quoted_map_plain noDollar false⟩
  | cons argument rest =>
      have tokens : keyTokens isPrint field (argument :: rest) none =
          (plainTokens field.toList ++ .plain '(' ::
            joinTokens ", " (argumentsTokens isPrint (argument :: rest))) ++ [.plain ')'] := by
        simp [keyTokens, selectionArgumentTokens, keyArguments, paginationSuffix, plainTokens]
      have last (inString : Bool) : Runtime.Cache.KeyState.emitted vars inString [] [')'] = [')'] :=
        Runtime.Cache.KeyState.emitted_plain (by decide)
      have delimited : GraphQLValue.Delimited [')'] := ⟨')', [], rfl, by decide⟩
      have followed : Followed [')'] :=
        ⟨delimited, Runtime.Cache.tidy_cons (by decide) fun before after same => by
          cases before <;> cases same⟩
      have some : (effectiveArguments printNumber vars (argument :: rest)).isEmpty = false := by
        cases argument
        rfl
      rw [tokens, Runtime.Cache.KeyToken.quoted_append, computeKey, some, sorted]
      cases areTexts : propertyTexts (effectiveArguments printNumber vars (argument :: rest)) with
      | error error =>
          refine iff_of_false (fun same => by cases same) fun both => ?_
          obtain ⟨texts, areOthers⟩ := propertyTexts_of_argumentsAlike both.1
          exact absurd (areTexts.symm.trans areOthers) (by simp)
      | ok texts =>
          have inside := @renders_arguments isPrint _ _ numeric plainNumbers _ _ parsed areTexts
          have whole := (@Renders.plain _ _ _ _ numeric inside '(' (by decide)).plains numeric
            isName.noBackslash
          have same := @Renders.iff _ _ _ _ whole false _ _ followed delimited
          change Except.ok (String.ofList
            ((field.toList ++ '(' :: joinArguments texts) ++ [')'])) = Except.ok _ ↔ _
          rw [Except.ok.injEq, String.ofList_inj, eq_comm, templateText_append]
          refine same.trans ?_
          rw [last, and_iff_left rfl]
          exact and_congr_right fun _ => (and_iff_left
            ⟨fun dollar => absurd dollar (by decide), trivial⟩).symm

end Comparison

private def pagedUsers : List Argument :=
  [.mk "first" (some (.mk .variable "first" [])) [], .mk "limit" (some (.mk .int "10" [])) []]

private def samePlainNumber (raw : String) : String :=
  if raw.toList.all isPlain then raw else "null"

private theorem parsed_pagedUsers : ParsedArguments pagedUsers := by
  have first : ParsedValue (.mk .variable "first" []) := by
    change IsKeyName "first"
    decide
  have limit : ParsedValue (.mk .int "10" []) := by
    change ∀ char ∈ "10".toList, char ∈ "+-.0123456789eE".toList
    exact List.all_iff_forall_prop.mp (by decide)
  exact ⟨⟨by decide, fun _ given => Option.some.inj given ▸ first, rfl⟩,
    ⟨by decide, fun _ given => Option.some.inj given ▸ limit, rfl⟩, trivial⟩

end Houdini.Plugin
