import Houdini.Data.OrderedMap
import Houdini.GraphQL.Lexer
import Houdini.Runtime.Encoding
import Houdini.Runtime.Json
import Mathlib.Data.List.TakeDrop

/-! What `JSON.stringify` writes, `JSON.parse` reads. The texts in a value are script texts, also those
that have a half of a surrogate pair alone. -/

set_option autoImplicit false

namespace Houdini.Runtime

def isNumberText (text : List Char) : Bool := GraphQL.isInteger text || GraphQL.isFloat text

structure NumberText where
  text : List Char
  valid : isNumberText text = true

inductive JsonValue where
  | null
  | boolean (value : Bool)
  | number (value : NumberText)
  | string (units : List UInt16)
  | array (items : List JsonValue)
  | object (fields : List (List UInt16 × JsonValue))

abbrev JsonFields := List (List UInt16 × JsonValue)

def escapedUnit (unit : Nat) : List Char :=
  ['\\', 'u', lowerHexDigit (unit / 4096), lowerHexDigit (unit / 256 % 16),
    lowerHexDigit (unit / 16 % 16), lowerHexDigit (unit % 16)]

def quoteUnit (unit : UInt16) : List Char :=
  if isHighSurrogate unit || isLowSurrogate unit then escapedUnit unit.toNat
  else quoteChar (Char.ofNat unit.toNat)

def pairedChar (high low : UInt16) : Char :=
  Char.ofNat (0x10000 + (high.toNat - 0xD800) * 0x400 + (low.toNat - 0xDC00))

def quoteUnits : List UInt16 → List Char
  | [] => []
  | [unit] => quoteUnit unit
  | unit :: next :: rest =>
      if isHighSurrogate unit && isLowSurrogate next then pairedChar unit next :: quoteUnits rest
      else quoteUnit unit ++ quoteUnits (next :: rest)

def quoted (units : List UInt16) : List Char := '"' :: (quoteUnits units ++ ['"'])

mutual

def JsonValue.stringify : JsonValue → List Char
  | .null => "null".toList
  | .boolean true => "true".toList
  | .boolean false => "false".toList
  | .number value => value.text
  | .string units => quoted units
  | .array [] => ['[', ']']
  | .array (item :: rest) => '[' :: (item.stringify ++ writeItems rest)
  | .object [] => [leftBrace, rightBrace]
  | .object ((name, value) :: rest) =>
      leftBrace :: (quoted name ++ ':' :: (value.stringify ++ writeFields rest))

def writeItems : List JsonValue → List Char
  | [] => [']']
  | item :: rest => ',' :: (item.stringify ++ writeItems rest)

def writeFields : List (List UInt16 × JsonValue) → List Char
  | [] => [rightBrace]
  | (name, value) :: rest =>
      ',' :: (quoted name ++ ':' :: (value.stringify ++ writeFields rest))

end

def jsonEscape (char : Char) : Option UInt16 :=
  if char = '"' || char = '\\' || char = '/' then some (UInt16.ofNat char.toNat)
  else if char = 'b' then some 8
  else if char = 'f' then some 12
  else if char = 'n' then some 10
  else if char = 'r' then some 13
  else if char = 't' then some 9
  else none

def unitOf (first second third fourth : Char) : Option UInt16 := do
  let first ← hexValue first
  let second ← hexValue second
  let third ← hexValue third
  let fourth ← hexValue fourth
  return UInt16.ofNat (((first * 16 + second) * 16 + third) * 16 + fourth)

def readUnits : List Char → Option (List UInt16 × List Char)
  | [] => none
  | '"' :: rest => some ([], rest)
  | '\\' :: 'u' :: first :: second :: third :: fourth :: rest => do
      let unit ← unitOf first second third fourth
      (readUnits rest).map fun read => (unit :: read.1, read.2)
  | '\\' :: escaped :: rest => do
      let unit ← jsonEscape escaped
      (readUnits rest).map fun read => (unit :: read.1, read.2)
  | char :: rest =>
      if char = '\\' || char.toNat < 32 then none
      else (readUnits rest).map fun read => (codeUnits char ++ read.1, read.2)

def isJsonSpace (char : Char) : Bool := ['\t', '\n', '\r', ' '].contains char

def skipSpace (text : List Char) : List Char := text.dropWhile isJsonSpace

def isNumberChar (char : Char) : Bool := GraphQL.isDigit char || ['-', '+', '.', 'e', 'E'].contains char

def readNumber (text : List Char) : Option (JsonValue × List Char) :=
  if valid : isNumberText (text.takeWhile isNumberChar) = true then
    some (.number ⟨text.takeWhile isNumberChar, valid⟩, text.dropWhile isNumberChar)
  else none

def readWord (word : String) (value : JsonValue) (text : List Char) :
    Option (JsonValue × List Char) :=
  if word.toList <+: text then some (value, text.drop word.toList.length) else none

def readScalar : List Char → Option (JsonValue × List Char)
  | [] => none
  | char :: rest =>
      if char = '"' then (readUnits rest).map fun read => (.string read.1, read.2)
      else if char = 'n' then readWord "null" .null (char :: rest)
      else if char = 't' then readWord "true" (.boolean true) (char :: rest)
      else if char = 'f' then readWord "false" (.boolean false) (char :: rest)
      else readNumber (char :: rest)

def fieldsOf (fields : JsonFields) : JsonFields := (OrderedMap.ofList fields).entries

mutual

def readValue : Nat → List Char → Option (JsonValue × List Char)
  | 0, _ => none
  | fuel + 1, text =>
      match skipSpace text with
      | [] => none
      | char :: rest =>
          if char = '[' then
            if (skipSpace rest).head? = some ']' then some (.array [], (skipSpace rest).tail)
            else (readItems fuel rest).map fun read => (.array read.1, read.2)
          else if char = leftBrace then
            if (skipSpace rest).head? = some rightBrace then
              some (.object [], (skipSpace rest).tail)
            else (readFields fuel rest).map fun read => (.object (fieldsOf read.1), read.2)
          else readScalar (char :: rest)

def readItems : Nat → List Char → Option (List JsonValue × List Char)
  | 0, _ => none
  | fuel + 1, text => do
      let (item, rest) ← readValue fuel text
      match skipSpace rest with
      | [] => none
      | char :: rest =>
          if char = ',' then (readItems fuel rest).map fun read => (item :: read.1, read.2)
          else if char = ']' then some ([item], rest)
          else none

def readFields : Nat → List Char → Option (JsonFields × List Char)
  | 0, _ => none
  | fuel + 1, text =>
      if (skipSpace text).head? = some '"' then do
        let (name, rest) ← readUnits (skipSpace text).tail
        if (skipSpace rest).head? = some ':' then do
          let (value, rest) ← readValue fuel (skipSpace rest).tail
          match skipSpace rest with
          | [] => none
          | char :: rest =>
              if char = ',' then
                (readFields fuel rest).map fun read => ((name, value) :: read.1, read.2)
              else if char = rightBrace then some ([(name, value)], rest)
              else none
        else none
      else none

end

def parseJson (text : List Char) : Option JsonValue :=
  match readValue (text.length + 1) text with
  | some (value, rest) => if skipSpace rest = [] then some value else none
  | none => none

attribute [local grind =] readUnits quoteUnits

theorem hexValue_lowerHexDigit {digit : Nat} (small : digit < 16) :
    hexValue (lowerHexDigit digit) = some digit := by
  have all : ∀ digit ∈ List.range 16, hexValue (lowerHexDigit digit) = some digit := by decide
  exact all digit (List.mem_range.mpr small)

theorem readUnits_escapedUnit {unit : Nat} (small : unit < 65536) (rest : List Char) :
    readUnits (escapedUnit unit ++ rest) =
      (readUnits rest).map fun read => (UInt16.ofNat unit :: read.1, read.2) := by
  have whole : ((unit / 4096 * 16 + unit / 256 % 16) * 16 + unit / 16 % 16) * 16 + unit % 16 =
      unit := by omega
  change readUnits ('\\' :: 'u' :: _ :: _ :: _ :: _ :: rest) = _
  rw [readUnits, unitOf, hexValue_lowerHexDigit (by omega), hexValue_lowerHexDigit (by omega),
    hexValue_lowerHexDigit (by omega), hexValue_lowerHexDigit (by omega)]
  dsimp only [bind, Option.bind, pure]
  rw [whole]

theorem readUnits_escape {escaped : Char} {unit : UInt16} (escape : jsonEscape escaped = some unit)
    (rest : List Char) :
    readUnits ('\\' :: escaped :: rest) =
      (readUnits rest).map fun read => (unit :: read.1, read.2) := by
  have other : escaped ≠ 'u' := by
    rintro rfl
    cases escape
  rw [readUnits, escape]
  · rfl
  · exact fun _ _ _ _ _ same _ => other same

theorem readUnits_plain {char : Char} (quote : char ≠ '"') (backslash : char ≠ '\\')
    (visible : 32 ≤ char.toNat) (rest : List Char) :
    readUnits (char :: rest) =
      (readUnits rest).map fun read => (codeUnits char ++ read.1, read.2) := by
  rw [readUnits]
  · rw [if_neg (by simp only [backslash, decide_false, Bool.false_or, decide_eq_true_eq]; omega)]
  · exact quote
  · exact fun _ _ _ _ _ same _ => backslash same
  · exact fun _ _ same _ => backslash same

theorem readUnits_quoteChar (char : Char) (rest : List Char) :
    readUnits (quoteChar char ++ rest) =
      (readUnits rest).map fun read => (codeUnits char ++ read.1, read.2) := by
  have single {number : Nat} (same : char.toNat = number) (small : number < 65536) :
      codeUnits char = [UInt16.ofNat number] := by
    rw [codeUnits, if_pos (same ▸ small), same]
  have escape {escaped : Char} {number : Nat} (same : char.toNat = number) (small : number < 65536)
      (known : jsonEscape escaped = some (UInt16.ofNat number)) :
      readUnits ('\\' :: escaped :: rest) =
        (readUnits rest).map fun read => (codeUnits char ++ read.1, read.2) := by
    rw [readUnits_escape known, single same small]
    rfl
  unfold quoteChar
  split
  · next same => exact escape (congrArg Char.toNat same) (by decide) rfl
  split
  · next same => exact escape (congrArg Char.toNat same) (by decide) rfl
  split
  · next same => exact escape same (by decide) rfl
  split
  · next same => exact escape same (by decide) rfl
  split
  · next same => exact escape same (by decide) rfl
  split
  · next same => exact escape same (by decide) rfl
  split
  · next same => exact escape same (by decide) rfl
  split
  · next small =>
      have zeros : char.toNat / 4096 = 0 ∧ char.toNat / 256 % 16 = 0 ∧
          char.toNat / 16 % 16 = char.toNat / 16 := by omega
      have form : ['\\', 'u', '0', '0', lowerHexDigit (char.toNat / 16),
          lowerHexDigit (char.toNat % 16)] = escapedUnit char.toNat := by
        rw [escapedUnit, zeros.1, zeros.2.1, zeros.2.2]
        rfl
      rw [form, readUnits_escapedUnit (by omega), single rfl (by omega)]
      rfl
  · next quote backslash _ _ _ _ _ visible =>
      exact readUnits_plain quote backslash (Nat.not_lt.mp visible) rest

theorem toNat_ofNat_valid {number : Nat} (valid : number.isValidChar) :
    (Char.ofNat number).toNat = number := by
  rw [Char.ofNat, dif_pos valid]
  rfl

theorem codeUnits_ofNat {unit : UInt16} (high : isHighSurrogate unit = false)
    (low : isLowSurrogate unit = false) : codeUnits (Char.ofNat unit.toNat) = [unit] := by
  have bound := unit.toNat_lt
  simp only [isHighSurrogate, isLowSurrogate, Bool.and_eq_false_iff, decide_eq_false_iff_not]
    at high low
  have valid : unit.toNat.isValidChar := by
    unfold Nat.isValidChar
    omega
  rw [codeUnits, toNat_ofNat_valid valid, if_pos (by omega), UInt16.ofNat_toNat]

theorem readUnits_quoteUnit (unit : UInt16) (rest : List Char) :
    readUnits (quoteUnit unit ++ rest) =
      (readUnits rest).map fun read => (unit :: read.1, read.2) := by
  unfold quoteUnit
  split
  · rw [readUnits_escapedUnit unit.toNat_lt, UInt16.ofNat_toNat]
  · next single =>
      rw [Bool.or_eq_true, not_or, Bool.not_eq_true, Bool.not_eq_true] at single
      rw [readUnits_quoteChar, codeUnits_ofNat single.1 single.2]
      rfl

theorem codeUnits_pairedChar {high low : UInt16} (isHigh : isHighSurrogate high = true)
    (isLow : isLowSurrogate low = true) :
    codeUnits (pairedChar high low) = [high, low] ∧ 0x10000 ≤ (pairedChar high low).toNat := by
  simp only [isHighSurrogate, isLowSurrogate, Bool.and_eq_true, decide_eq_true_eq] at isHigh isLow
  let number := 0x10000 + (high.toNat - 0xD800) * 0x400 + (low.toNat - 0xDC00)
  have valid : number.isValidChar := by
    unfold Nat.isValidChar
    omega
  have same : (pairedChar high low).toNat = number := toNat_ofNat_valid valid
  have first : 0xD800 + (number - 0x10000) / 0x400 = high.toNat := by omega
  have second : 0xDC00 + (number - 0x10000) % 0x400 = low.toNat := by omega
  refine ⟨?_, by omega⟩
  rw [codeUnits, same, if_neg (by omega), first, second, UInt16.ofNat_toNat, UInt16.ofNat_toNat]

theorem readUnits_quoteUnits (units : List UInt16) (rest : List Char) :
    readUnits (quoteUnits units ++ '"' :: rest) = some (units, rest) := by
  fun_induction quoteUnits units with
  | case1 => rw [List.nil_append, readUnits]
  | case2 unit => rw [readUnits_quoteUnit, readUnits]; rfl
  | case3 unit next others pair ih =>
      rw [Bool.and_eq_true] at pair
      obtain ⟨codes, large⟩ := codeUnits_pairedChar pair.1 pair.2
      have notQuote : pairedChar unit next ≠ '"' := by
        intro same
        rw [same] at large
        exact absurd large (by decide)
      have notBackslash : pairedChar unit next ≠ '\\' := by
        intro same
        rw [same] at large
        exact absurd large (by decide)
      rw [List.cons_append, readUnits_plain notQuote notBackslash (by omega), ih, codes]
      rfl
  | case4 unit next others single ih =>
      rw [List.append_assoc, readUnits_quoteUnit, ih]
      rfl

theorem isNumberChar_of_digits {text : List Char} (digits : text.all GraphQL.isDigit = true) :
    ∀ char ∈ text, isNumberChar char = true := by
  intro char member
  rw [isNumberChar, List.all_eq_true.mp digits char member, Bool.true_or]

theorem isNumberChar_of_natural {text : List Char} (natural : GraphQL.isNatural text = true) :
    ∀ char ∈ text, isNumberChar char = true := by
  cases text with
  | nil => exact List.forall_mem_nil _
  | cons char rest =>
      rw [GraphQL.isNatural] at natural
      split at natural
      · next zero =>
          rw [zero, List.isEmpty_iff.mp natural]
          exact List.forall_mem_singleton.mpr rfl
      · exact isNumberChar_of_digits (Bool.and_eq_true_iff.mp natural).2

theorem isNumberChar_of_integer {text : List Char} (integer : GraphQL.isInteger text = true) :
    ∀ char ∈ text, isNumberChar char = true := by
  unfold GraphQL.isInteger at integer
  split at integer
  · exact List.forall_mem_cons.mpr ⟨by decide, isNumberChar_of_natural integer⟩
  · exact isNumberChar_of_natural integer

theorem isNumberChar_of_exponent {text : List Char} (exponent : GraphQL.isExponent text = true) :
    ∀ char ∈ text, isNumberChar char = true := by
  unfold GraphQL.isExponent at exponent
  split at exponent
  · next mark sign rest =>
      simp only [Bool.and_eq_true, Bool.or_eq_true, decide_eq_true_eq] at exponent
      obtain ⟨isMark, digits⟩ := exponent
      have first : isNumberChar mark = true := by rcases isMark with rfl | rfl <;> decide
      rw [List.forall_mem_cons]
      refine ⟨first, ?_⟩
      split at digits
      · next isSign =>
          have second : isNumberChar sign = true := by rcases isSign with rfl | rfl <;> decide
          exact List.forall_mem_cons.mpr
            ⟨second, isNumberChar_of_digits (Bool.and_eq_true_iff.mp digits).2⟩
      · exact isNumberChar_of_digits (Bool.and_eq_true_iff.mp digits).2
  · cases exponent

theorem isNumberChar_of_float {text : List Char} (float : GraphQL.isFloat text = true) :
    ∀ char ∈ text, isNumberChar char = true := by
  simp only [GraphQL.isFloat, List.span_eq_takeWhile_dropWhile, Bool.and_eq_true] at float
  obtain ⟨integer, rest⟩ := float
  rw [← List.takeWhile_append_dropWhile (p := fun char => GraphQL.isDigit char || char = '-')
    (l := text), List.forall_mem_append]
  refine ⟨isNumberChar_of_integer integer, ?_⟩
  split at rest
  · next fraction same =>
      rw [same, List.forall_mem_cons,
        ← List.takeWhile_append_dropWhile (p := GraphQL.isDigit) (l := fraction),
        List.forall_mem_append]
      rw [Bool.and_eq_true, Bool.or_eq_true] at rest
      obtain ⟨digits, empty | exponent⟩ := rest
      · rw [List.isEmpty_iff.mp empty]
        exact ⟨by decide, isNumberChar_of_digits (Bool.and_eq_true_iff.mp digits).2,
          List.forall_mem_nil _⟩
      · exact ⟨by decide, isNumberChar_of_digits (Bool.and_eq_true_iff.mp digits).2,
          isNumberChar_of_exponent exponent⟩
  · exact isNumberChar_of_exponent rest

theorem NumberText.chars (number : NumberText) :
    ∀ char ∈ number.text, isNumberChar char = true := by
  have valid := number.valid
  rw [isNumberText, Bool.or_eq_true] at valid
  exact valid.elim isNumberChar_of_integer isNumberChar_of_float

theorem NumberText.ne_nil (number : NumberText) : number.text ≠ [] := by
  intro empty
  have valid := number.valid
  rw [empty] at valid
  exact absurd valid (by decide)

mutual

def JsonValue.Distinct : JsonValue → Prop
  | .array items => DistinctItems items
  | .object fields => (fields.map Prod.fst).Nodup ∧ DistinctFields fields
  | _ => True

def DistinctItems : List JsonValue → Prop
  | [] => True
  | item :: rest => item.Distinct ∧ DistinctItems rest

def DistinctFields : List (List UInt16 × JsonValue) → Prop
  | [] => True
  | (_, value) :: rest => value.Distinct ∧ DistinctFields rest

end

def Ends (rest : List Char) : Prop := ∀ char ∈ rest.head?, isNumberChar char = false

theorem skipSpace_cons {char : Char} (visible : isJsonSpace char = false) (rest : List Char) :
    skipSpace (char :: rest) = char :: rest := by
  rw [skipSpace, List.dropWhile_cons_of_neg (by rw [visible]; exact Bool.noConfusion)]

theorem readNumber_text (number : NumberText) {rest : List Char} (ends : Ends rest) :
    readNumber (number.text ++ rest) = some (.number number, rest) := by
  have taken : (number.text ++ rest).takeWhile isNumberChar = number.text := by
    rw [List.takeWhile_append_of_pos number.chars]
    cases rest with
    | nil => exact List.append_nil _
    | cons char rest =>
        rw [List.takeWhile_cons_of_neg (by rw [ends char rfl]; exact Bool.noConfusion),
          List.append_nil]
  have left : (number.text ++ rest).dropWhile isNumberChar = rest := by
    rw [List.dropWhile_append_of_pos number.chars]
    cases rest with
    | nil => rfl
    | cons char rest =>
        rw [List.dropWhile_cons_of_neg (by rw [ends char rfl]; exact Bool.noConfusion)]
  have valid : isNumberText ((number.text ++ rest).takeWhile isNumberChar) = true := by
    rw [taken]
    exact number.valid
  rw [readNumber, dif_pos valid, left]
  congr 3
  cases number
  simp_all

theorem readWord_append (word : String) (value : JsonValue) (rest : List Char) :
    readWord word value (word.toList ++ rest) = some (value, rest) := by
  rw [readWord, if_pos (List.prefix_append _ _), List.drop_left]

theorem readValue_cons {char : Char} (visible : isJsonSpace char = false) (array : char ≠ '[')
    (object : char ≠ leftBrace) (fuel : Nat) (rest : List Char) :
    readValue (fuel + 1) (char :: rest) = readScalar (char :: rest) := by
  rw [readValue, skipSpace_cons visible]
  dsimp only
  rw [if_neg array, if_neg object]

theorem isJsonSpace_of_isNumberChar {char : Char} (number : isNumberChar char = true) :
    isJsonSpace char = false := by
  by_contra space
  rw [Bool.not_eq_false, isJsonSpace, List.contains_iff_mem] at space
  simp only [List.mem_cons, List.not_mem_nil, or_false] at space
  rcases space with rfl | rfl | rfl | rfl <;> exact absurd number (by decide)

theorem readScalar_number (number : NumberText) {rest : List Char} (ends : Ends rest) (fuel : Nat) :
    readValue (fuel + 1) (number.text ++ rest) = some (.number number, rest) := by
  have read := readNumber_text number ends
  cases text : number.text with
  | nil => exact absurd text number.ne_nil
  | cons char more =>
      have first : isNumberChar char = true :=
        number.chars char (by rw [text]; exact List.mem_cons_self)
      have other {letter : Char} (no : isNumberChar letter = false) : char ≠ letter := by
        rintro rfl
        rw [no] at first
        cases first
      rw [text] at read
      rw [List.cons_append] at read ⊢
      rw [readValue_cons (isJsonSpace_of_isNumberChar first) (other (by decide)) (other (by decide)), readScalar,
        if_neg (other (by decide)), if_neg (other (by decide)), if_neg (other (by decide)),
        if_neg (other (by decide)), read]

theorem readScalar_string (units : List UInt16) (fuel : Nat) (rest : List Char) :
    readValue (fuel + 1) (quoted units ++ rest) = some (.string units, rest) := by
  rw [quoted, List.cons_append, List.append_assoc, List.singleton_append,
    readValue_cons (by decide) (by decide) (by decide), readScalar, if_pos rfl,
    readUnits_quoteUnits]
  rfl

theorem ends_writeItems (items : List JsonValue) (rest : List Char) :
    Ends (writeItems items ++ rest) := by
  intro char first
  cases items <;> (cases first; decide)

theorem ends_writeFields (fields : JsonFields) (rest : List Char) :
    Ends (writeFields fields ++ rest) := by
  intro char first
  cases fields with
  | nil => cases first; decide
  | cons field fields => cases first; decide

theorem stringify_cons (value : JsonValue) :
    ∃ char rest, value.stringify = char :: rest ∧ isJsonSpace char = false ∧ char ≠ ']' := by
  cases value with
  | null => exact ⟨'n', _, rfl, by decide, by decide⟩
  | boolean value =>
      cases value with
      | true => exact ⟨'t', _, rfl, by decide, by decide⟩
      | false => exact ⟨'f', _, rfl, by decide, by decide⟩
  | number number =>
      rw [JsonValue.stringify]
      cases text : number.text with
      | nil => exact absurd text number.ne_nil
      | cons char rest =>
          have first : isNumberChar char = true :=
            number.chars char (by rw [text]; exact List.mem_cons_self)
          refine ⟨char, rest, rfl, isJsonSpace_of_isNumberChar first, ?_⟩
          rintro rfl
          exact absurd first (by decide)
  | string units => exact ⟨'"', _, rfl, by decide, by decide⟩
  | array items => cases items <;> exact ⟨'[', _, rfl, by decide, by decide⟩
  | object fields =>
      cases fields with
      | nil => exact ⟨leftBrace, _, rfl, by decide, by decide⟩
      | cons field fields => exact ⟨leftBrace, _, rfl, by decide, by decide⟩

theorem length_stringify_pos (value : JsonValue) : 0 < value.stringify.length := by
  obtain ⟨char, rest, text, _⟩ := stringify_cons value
  rw [text, List.length_cons]
  exact Nat.succ_pos _

theorem skipSpace_stringify (value : JsonValue) (rest : List Char) :
    skipSpace (value.stringify ++ rest) = value.stringify ++ rest := by
  obtain ⟨char, more, text, visible, _⟩ := stringify_cons value
  rw [text, List.cons_append, skipSpace_cons visible]

section Steps

variable {fuel : Nat}

def ReadsValues (fuel : Nat) : Prop :=
  ∀ (value : JsonValue) (rest : List Char), value.Distinct → Ends rest →
    value.stringify.length ≤ fuel →
      readValue fuel (value.stringify ++ rest) = some (value, rest)

def ReadsItems (fuel : Nat) : Prop :=
  ∀ (item : JsonValue) (items : List JsonValue) (rest : List Char),
    DistinctItems (item :: items) → (item.stringify ++ writeItems items).length ≤ fuel →
      readItems fuel (item.stringify ++ (writeItems items ++ rest)) = some (item :: items, rest)

def ReadsFields (fuel : Nat) : Prop :=
  ∀ (name : List UInt16) (value : JsonValue) (fields : JsonFields) (rest : List Char),
    DistinctFields ((name, value) :: fields) →
    (quoted name ++ ':' :: (value.stringify ++ writeFields fields)).length ≤ fuel →
      readFields fuel (quoted name ++ ':' :: (value.stringify ++ (writeFields fields ++ rest))) =
        some ((name, value) :: fields, rest)

theorem readValue_word (char : Char) {more : List Char} {word : String} {value : JsonValue}
    (text : word.toList = char :: more) (rest : List Char) (visible : isJsonSpace char = false)
    (array : char ≠ '[') (object : char ≠ leftBrace)
    (read : readScalar (word.toList ++ rest) = readWord word value (word.toList ++ rest)) :
    readValue (fuel + 1) (word.toList ++ rest) = some (value, rest) := by
  have form : word.toList ++ rest = char :: (more ++ rest) := by rw [text, List.cons_append]
  rw [form, readValue_cons visible array object, ← form, read, readWord_append]

theorem readsArray (reads : ReadsItems fuel) (list : List JsonValue) (rest : List Char)
    (distinct : DistinctItems list) (enough : (JsonValue.array list).stringify.length ≤ fuel + 1) :
    readValue (fuel + 1) ((JsonValue.array list).stringify ++ rest) = some (.array list, rest) := by
  cases list with
  | nil =>
      change readValue (fuel + 1) ('[' :: ']' :: rest) = _
      rw [readValue, skipSpace_cons (by decide)]
      dsimp only
      rw [if_pos rfl, skipSpace_cons (by decide)]
      rfl
  | cons item items =>
      have opened : (skipSpace (item.stringify ++ (writeItems items ++ rest))).head? ≠ some ']' := by
        obtain ⟨char, more, text, _, other⟩ := stringify_cons item
        rw [skipSpace_stringify, text, List.cons_append, List.head?_cons]
        exact fun same => other (Option.some.inj same)
      rw [JsonValue.stringify, List.length_cons] at enough
      have read := reads item items rest distinct (Nat.le_of_succ_le_succ enough)
      rw [JsonValue.stringify, List.cons_append, List.append_assoc, readValue,
        skipSpace_cons (by decide)]
      dsimp only
      rw [if_pos rfl, if_neg opened, read]
      rfl

theorem readsObject (reads : ReadsFields fuel) (list : JsonFields) (rest : List Char)
    (distinct : (JsonValue.object list).Distinct)
    (enough : (JsonValue.object list).stringify.length ≤ fuel + 1) :
    readValue (fuel + 1) ((JsonValue.object list).stringify ++ rest) =
      some (.object list, rest) := by
  cases list with
  | nil =>
      change readValue (fuel + 1) (leftBrace :: rightBrace :: rest) = _
      rw [readValue, skipSpace_cons (by decide)]
      dsimp only
      rw [if_neg (by decide), if_pos rfl, skipSpace_cons (by decide)]
      rfl
  | cons field fields =>
      obtain ⟨name, value⟩ := field
      rw [JsonValue.Distinct] at distinct
      rw [JsonValue.stringify, List.length_cons] at enough
      have read := reads name value fields rest distinct.2 (Nat.le_of_succ_le_succ enough)
      have opened : (skipSpace (quoted name ++
          ':' :: (value.stringify ++ (writeFields fields ++ rest)))).head? ≠ some rightBrace := by
        rw [quoted, List.cons_append, skipSpace_cons (by decide), List.head?_cons]
        decide
      rw [JsonValue.stringify, List.cons_append, List.append_assoc, List.cons_append,
        List.append_assoc, readValue, skipSpace_cons (by decide)]
      dsimp only
      rw [if_neg (by decide), if_pos rfl, if_neg opened, read, Option.map_some,
        fieldsOf, OrderedMap.entries_ofList_of_nodup distinct.1]

theorem readsValues_succ (items : ReadsItems fuel) (fields : ReadsFields fuel) :
    ReadsValues (fuel + 1) := by
  intro value rest distinct ends enough
  cases value with
  | null => exact readValue_word 'n' rfl rest (by decide) (by decide) (by decide) rfl
  | boolean value =>
      cases value with
      | true => exact readValue_word 't' rfl rest (by decide) (by decide) (by decide) rfl
      | false => exact readValue_word 'f' rfl rest (by decide) (by decide) (by decide) rfl
  | number number =>
      rw [JsonValue.stringify]
      exact readScalar_number number ends fuel
  | string units =>
      rw [JsonValue.stringify]
      exact readScalar_string units fuel rest
  | array list => exact readsArray items list rest distinct enough
  | object list => exact readsObject fields list rest distinct enough

theorem readsItems_succ (values : ReadsValues fuel) (reads : ReadsItems fuel) :
    ReadsItems (fuel + 1) := by
  intro item items rest distinct enough
  rw [DistinctItems] at distinct
  rw [List.length_append] at enough
  cases items with
  | nil =>
      rw [writeItems, List.length_singleton] at enough
      rw [readItems, values item _ distinct.1 (ends_writeItems [] rest) (by omega)]
      simp only [bind, Option.bind, writeItems, List.singleton_append]
      rw [skipSpace_cons (by decide)]
      dsimp only
      rw [if_neg (by decide), if_pos rfl]
  | cons next others =>
      rw [writeItems, List.length_cons] at enough
      rw [readItems, values item _ distinct.1 (ends_writeItems (next :: others) rest) (by omega)]
      simp only [bind, Option.bind, writeItems, List.cons_append, List.append_assoc]
      rw [skipSpace_cons (by decide)]
      dsimp only
      rw [if_pos rfl, reads next others rest distinct.2 (by omega)]
      rfl

theorem readsFields_succ (values : ReadsValues fuel) (reads : ReadsFields fuel) :
    ReadsFields (fuel + 1) := by
  intro name value fields rest distinct enough
  rw [DistinctFields] at distinct
  rw [List.length_append, List.length_cons, List.length_append] at enough
  have opened (others : List Char) : quoted name ++ others =
      '"' :: (quoteUnits name ++ '"' :: others) := by
    rw [quoted, List.cons_append, List.append_assoc, List.singleton_append]
  rw [opened, readFields, skipSpace_cons (by decide), List.head?_cons, if_pos rfl, List.tail_cons,
    readUnits_quoteUnits]
  simp only [bind, Option.bind]
  rw [skipSpace_cons (by decide), List.head?_cons, if_pos rfl, List.tail_cons]
  cases fields with
  | nil =>
      rw [writeFields, List.length_singleton] at enough
      rw [values value _ distinct.1 (ends_writeFields [] rest) (by omega)]
      simp only [writeFields, List.singleton_append]
      rw [skipSpace_cons (by decide)]
      dsimp only
      rw [if_neg (by decide), if_pos rfl]
  | cons next others =>
      obtain ⟨nextName, nextValue⟩ := next
      rw [writeFields, List.length_cons] at enough
      rw [values value _ distinct.1 (ends_writeFields ((nextName, nextValue) :: others) rest)
        (by omega)]
      simp only [writeFields, List.cons_append, List.append_assoc]
      rw [skipSpace_cons (by decide)]
      dsimp only
      rw [if_pos rfl, reads nextName nextValue others rest distinct.2 (by omega)]
      rfl

theorem reads_all (fuel : Nat) : ReadsValues fuel ∧ ReadsItems fuel ∧ ReadsFields fuel := by
  induction fuel with
  | zero =>
      refine ⟨fun value _ _ _ enough => ?_, fun item _ _ _ enough => ?_,
        fun name _ _ _ _ enough => ?_⟩
      · exact absurd (length_stringify_pos value) (Nat.not_lt.mpr enough)
      · rw [List.length_append] at enough
        have pos := length_stringify_pos item
        omega
      · rw [quoted, List.cons_append, List.length_cons] at enough
        exact absurd enough (Nat.not_succ_le_zero _)
  | succ fuel ih =>
      obtain ⟨values, items, fields⟩ := ih
      exact ⟨readsValues_succ items fields, readsItems_succ values items,
        readsFields_succ values fields⟩

end Steps

theorem parseJson_stringify {value : JsonValue} (distinct : value.Distinct) :
    parseJson value.stringify = some value := by
  have read := (reads_all (value.stringify.length + 1)).1 value [] distinct
    (fun _ none => by cases none) (Nat.le_succ _)
  rw [List.append_nil] at read
  rw [parseJson, read]
  rfl

end Houdini.Runtime
