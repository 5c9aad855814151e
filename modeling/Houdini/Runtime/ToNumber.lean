import Houdini.Runtime.JsonText
import Mathlib.Data.Rat.Floor

/-! How a value of any type is compared with a number. -/

set_option autoImplicit false

namespace Houdini.Runtime

inductive ScriptNumber where
  | nan
  | infinity (negative : Bool)
  | finite (value : ℚ)

def ScriptNumber.negate : ScriptNumber → ScriptNumber
  | .nan => .nan
  | .infinity negative => .infinity !negative
  | .finite value => .finite (-value)

/-- The exponent of the greatest power of two that is not above a positive number. -/
def binaryExponent (value : ℚ) : ℤ :=
  let guess : ℤ := (Nat.log2 value.num.natAbs : ℤ) - Nat.log2 value.den
  if (2 : ℚ) ^ guess ≤ value then guess else guess - 1

def roundHalfEven (value : ℚ) : ℤ :=
  let below := value.floor
  let rest := value - below
  if rest < 1 / 2 || rest = 1 / 2 && below % 2 = 0 then below else below + 1

/-- The closest number with 53 binary digits, unless it is too large. Small integers are exact. -/
def roundDouble (value : ℚ) : ScriptNumber :=
  if value.den = 1 && value.num.natAbs ≤ 2 ^ 53 then .finite value
  else
    let unit : ℚ := (2 : ℚ) ^ max (binaryExponent |value| - 52) (-1074)
    let rounded : ℚ := roundHalfEven (|value| / unit) * unit
    let magnitude : ScriptNumber :=
      if (2 : ℚ) ^ 1024 ≤ rounded then .infinity false else .finite rounded
    if value < 0 then magnitude.negate else magnitude

/-- Whitespace and line ends, as `trim` and regular expressions know them. -/
def isScriptSpace (char : Char) : Bool :=
  (9 ≤ char.toNat && char.toNat ≤ 13) || (0x2000 ≤ char.toNat && char.toNat ≤ 0x200A) ||
    [32, 0xA0, 0x1680, 0x2028, 0x2029, 0x202F, 0x205F, 0x3000, 0xFEFF].contains char.toNat

def trim (text : List Char) : List Char :=
  (text.dropWhile isScriptSpace).rdropWhile isScriptSpace

def digitsValue (base : Nat) (digits : List Nat) : Nat :=
  digits.foldl (fun value digit => value * base + digit) 0

def decimalDigits (text : List Char) : Nat := Nat.ofDigitChars 10 text 0

def exponentOf : List Char → Option ℤ
  | [] => some 0
  | mark :: text =>
      if mark = 'e' || mark = 'E' then
        match text with
        | '-' :: digits =>
            if GraphQL.isDigits digits then some (-(decimalDigits digits : ℤ)) else none
        | '+' :: digits => if GraphQL.isDigits digits then some (decimalDigits digits) else none
        | digits => if GraphQL.isDigits digits then some (decimalDigits digits) else none
      else none

/-- The digits in front of a point, those behind it, and what follows. -/
def decimalParts (text : List Char) : List Char × List Char × List Char :=
  match text.dropWhile GraphQL.isDigit with
  | '.' :: rest =>
      (text.takeWhile GraphQL.isDigit, rest.takeWhile GraphQL.isDigit,
        rest.dropWhile GraphQL.isDigit)
  | rest => (text.takeWhile GraphQL.isDigit, [], rest)

def unsignedNumber (text : List Char) : ScriptNumber :=
  if text = "Infinity".toList then .infinity false
  else
    let (integer, fraction, rest) := decimalParts text
    if integer.isEmpty && fraction.isEmpty then .nan
    else
      match exponentOf rest with
      | none => .nan
      | some exponent =>
          roundDouble (decimalDigits (integer ++ fraction) *
            (10 : ℚ) ^ (exponent - (fraction.length : ℤ)))

def basedNumber (base : Nat) (text : List Char) : ScriptNumber :=
  match text.mapM hexValue with
  | some digits =>
      if !digits.isEmpty && digits.all (· < base) then roundDouble (digitsValue base digits) else .nan
  | none => .nan

def textNumber (text : List Char) : ScriptNumber :=
  match trim text with
  | [] => .finite 0
  | '+' :: rest => unsignedNumber rest
  | '-' :: rest => (unsignedNumber rest).negate
  | '0' :: mark :: rest =>
      if mark = 'x' || mark = 'X' then basedNumber 16 rest
      else if mark = 'o' || mark = 'O' then basedNumber 8 rest
      else if mark = 'b' || mark = 'B' then basedNumber 2 rest
      else unsignedNumber ('0' :: mark :: rest)
  | text => unsignedNumber text

def unitChars (units : List UInt16) : List Char := units.map fun unit => Char.ofNat unit.toNat

def named (name : String) : List UInt16 := scriptText name

mutual

/-- The text of a value. An object with a method of its own that is none throws. -/
def JsonValue.toText : JsonValue → Except Unit (List Char)
  | .null => .ok "null".toList
  | .boolean value => .ok (if value then "true" else "false").toList
  | .number value => .ok value.text
  | .string units => .ok (unitChars units)
  | .array items => joinItems items
  | .object fields =>
      if (fields.map Prod.fst).contains (named "toString") then .error ()
      else .ok "[object Object]".toList

/-- Items with commas between them. Nothing stands for what is `null`. -/
def joinItems : List JsonValue → Except Unit (List Char)
  | [] => .ok []
  | item :: rest => do
      let first ← match item with
        | .null => .ok []
        | item => item.toText
      let others ← joinMore rest
      return first ++ others

def joinMore : List JsonValue → Except Unit (List Char)
  | [] => .ok []
  | item :: rest => do
      let first ← match item with
        | .null => .ok []
        | item => item.toText
      let others ← joinMore rest
      return ',' :: (first ++ others)

end

def JsonValue.toNumber : JsonValue → Except Unit ScriptNumber
  | .null => .ok (.finite 0)
  | .boolean value => .ok (.finite (if value then 1 else 0))
  | value => value.toText.map textNumber

def JsonValue.truthy : JsonValue → Bool
  | .null => false
  | .boolean value => value
  | .number value =>
      match textNumber value.text with
      | .finite amount => amount ≠ 0
      | _ => true
  | .string units => !units.isEmpty
  | .array _ | .object _ => true

def ScriptNumber.isAfter (seconds : Nat) : ScriptNumber → Bool
  | .nan => false
  | .infinity negative => !negative
  | .finite value => (seconds : ℚ) < value

def ScriptNumber.isUntil (seconds : Nat) : ScriptNumber → Bool
  | .nan => false
  | .infinity negative => negative
  | .finite value => value ≤ (seconds : ℚ)

theorem isDigit_of_mem_toDigits {number : Nat} {char : Char}
    (member : char ∈ Nat.toDigits 10 number) : GraphQL.isDigit char = true := by
  have digit := Nat.isDigit_of_mem_toDigits (by decide) (by decide) member
  simpa [GraphQL.isDigit, Char.isDigit, Char.le_def] using digit

theorem digits_cons {number : Nat} (positive : 0 < number) :
    ∃ first rest, Nat.toDigits 10 number = first :: rest ∧ first ≠ '0' := by
  induction number using Nat.strong_induction_on with
  | h number ih =>
      by_cases small : number < 10
      · refine ⟨_, [], Nat.toDigits_of_lt_base small, ?_⟩
        have all : ∀ digit ∈ List.range 10, 0 < digit → digit.digitChar ≠ '0' := by decide
        exact all number (List.mem_range.mpr small) positive
      · obtain ⟨first, rest, digits, nonzero⟩ := ih (number / 10) (by omega) (by omega)
        refine ⟨first, rest ++ [(number % 10).digitChar], ?_, nonzero⟩
        rw [Nat.toDigits_of_base_le (by decide) (Nat.not_lt.mp small), digits, List.cons_append]

theorem isNumberText_repr (number : Nat) : isNumberText number.repr.toList = true := by
  rw [Nat.toList_repr, isNumberText, Bool.or_eq_true]
  left
  rcases Nat.eq_zero_or_pos number with rfl | positive
  · rfl
  · have digits : ∀ char ∈ Nat.toDigits 10 number, GraphQL.isDigit char = true :=
      fun _ => isDigit_of_mem_toDigits
    obtain ⟨first, rest, text, nonzero⟩ := digits_cons positive
    rw [text] at digits ⊢
    have notMinus : first ≠ '-' := by
      rintro rfl
      exact absurd (digits '-' List.mem_cons_self) (by decide)
    have natural : GraphQL.isNatural (first :: rest) = true := by
      rw [GraphQL.isNatural, if_neg nonzero, GraphQL.isDigits, Bool.and_eq_true]
      exact ⟨rfl, List.all_eq_true.mpr digits⟩
    unfold GraphQL.isInteger
    split
    · next same => exact absurd (List.cons.inj same).1 notMinus
    · exact natural

def numberOf (number : Nat) : JsonValue := .number ⟨number.repr.toList, isNumberText_repr number⟩

theorem isScriptSpace_of_isDigit {char : Char} (digit : GraphQL.isDigit char = true) :
    isScriptSpace char = false := by
  simp only [GraphQL.isDigit, Bool.and_eq_true, decide_eq_true_eq] at digit
  have low : 48 ≤ char.toNat := digit.1
  have high : char.toNat ≤ 57 := digit.2
  simp only [isScriptSpace, Bool.or_eq_false_iff, Bool.and_eq_false_iff, decide_eq_false_iff_not,
    List.contains_eq_mem, List.mem_cons, List.not_mem_nil, or_false]
  omega

theorem trim_of_plain {text : List Char} (plain : ∀ char ∈ text, isScriptSpace char = false) :
    trim text = text := by
  have front : text.dropWhile isScriptSpace = text := by
    cases text with
    | nil => rfl
    | cons char rest =>
        rw [List.dropWhile_cons_of_neg]
        rw [plain char List.mem_cons_self]
        exact Bool.noConfusion
  rw [trim, front, List.rdropWhile_eq_self_iff]
  intro nonempty space
  rw [plain _ (List.getLast_mem nonempty)] at space
  cases space

theorem roundDouble_natCast {number : Nat} (small : number < 2 ^ 53) :
    roundDouble number = .finite number := by
  rw [roundDouble, if_pos]
  rw [Bool.and_eq_true, decide_eq_true_eq, decide_eq_true_eq]
  exact ⟨Rat.den_natCast number, by rw [Rat.num_natCast, Int.natAbs_natCast]; exact small.le⟩

theorem unsignedNumber_toDigits {number : Nat} (small : number < 2 ^ 53) :
    unsignedNumber (Nat.toDigits 10 number) = .finite number := by
  have digits : ∀ char ∈ Nat.toDigits 10 number, GraphQL.isDigit char = true :=
    fun _ => isDigit_of_mem_toDigits
  have word : Nat.toDigits 10 number ≠ "Infinity".toList := by
    intro same
    exact absurd (digits 'I' (by rw [same]; decide)) (by decide)
  have parts : decimalParts (Nat.toDigits 10 number) = (Nat.toDigits 10 number, [], []) := by
    have taken : (Nat.toDigits 10 number).takeWhile GraphQL.isDigit = Nat.toDigits 10 number :=
      List.takeWhile_eq_self_iff.mpr digits
    have left : (Nat.toDigits 10 number).dropWhile GraphQL.isDigit = [] :=
      List.dropWhile_eq_nil_iff.mpr digits
    rw [decimalParts, left, taken]
  have nonempty : (Nat.toDigits 10 number).isEmpty = false := by
    rw [List.isEmpty_eq_false_iff]
    exact Nat.toDigits_ne_nil
  rw [unsignedNumber, if_neg word, parts]
  dsimp only
  rw [nonempty, Bool.false_and, if_neg Bool.noConfusion, exponentOf]
  dsimp only
  rw [List.append_nil, decimalDigits, Nat.ofDigitChars_ten_toDigits, List.length_nil]
  simpa using roundDouble_natCast small

theorem textNumber_repr {number : Nat} (small : number < 2 ^ 53) :
    textNumber number.repr.toList = .finite number := by
  have digits : ∀ char ∈ Nat.toDigits 10 number, GraphQL.isDigit char = true :=
    fun _ => isDigit_of_mem_toDigits
  have read := unsignedNumber_toDigits small
  rw [Nat.toList_repr, textNumber,
    trim_of_plain fun char member => isScriptSpace_of_isDigit (digits char member)]
  split
  · next empty => exact absurd empty Nat.toDigits_ne_nil
  · next rest same => exact absurd (digits '+' (by rw [same]; exact List.mem_cons_self)) (by decide)
  · next rest same => exact absurd (digits '-' (by rw [same]; exact List.mem_cons_self)) (by decide)
  · next mark rest same =>
      rcases Nat.eq_zero_or_pos number with rfl | positive
      · cases same
      · obtain ⟨first, others, text, nonzero⟩ := digits_cons positive
        rw [text] at same
        exact absurd (List.cons.inj same).1 nonzero
  · exact read

theorem truthy_numberOf {number : Nat} (small : number < 2 ^ 53) (positive : 0 < number) :
    (numberOf number).truthy = true := by
  have nonzero : (number : ℚ) ≠ 0 := by exact_mod_cast positive.ne'
  rw [numberOf, JsonValue.truthy, textNumber_repr small]
  exact decide_eq_true nonzero

theorem toNumber_numberOf {number : Nat} (small : number < 2 ^ 53) :
    (numberOf number).toNumber = .ok (.finite number) := by
  rw [numberOf, JsonValue.toNumber, JsonValue.toText, Except.map, textNumber_repr small]
  · intro same
    cases same
  · intro value same
    cases same

end Houdini.Runtime
