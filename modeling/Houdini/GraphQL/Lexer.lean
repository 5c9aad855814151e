import Mathlib.Data.List.DropRight

/-! The tokens of GraphQL source texts. -/

set_option autoImplicit false

namespace GraphQL

inductive Token where
  | punctuator (char : Char)
  | spread
  | name (text : List Char)
  | int (text : List Char)
  | float (text : List Char)
  | string (value : List Char)
  | block (value : List Char)
  deriving DecidableEq, Repr

def openBrace : Char := Char.ofNat 123

def closeBrace : Char := Char.ofNat 125

/-- White space, line terminators and commas mean nothing between tokens. -/
def isIgnored (char : Char) : Bool :=
  [' ', '\t', '\n', '\r', ',', '\uFEFF'].contains char

def isPunctuator (char : Char) : Bool :=
  ['!', '$', '&', '(', ')', ':', '=', '@', '[', ']', '|', openBrace, closeBrace].contains char

def isLetter (char : Char) : Bool :=
  ('a' ≤ char && char ≤ 'z') || ('A' ≤ char && char ≤ 'Z') || char = '_'

def isDigit (char : Char) : Bool := '0' ≤ char && char ≤ '9'

def isNameContinue (char : Char) : Bool := isLetter char || isDigit char

def isLineTerminator (char : Char) : Bool := char = '\n' || char = '\r'

def isSource (char : Char) : Bool := 32 ≤ char.toNat || char = '\t' || isLineTerminator char

/-- The longest text that could be a number. A sign stands behind the mark of an exponent. -/
def readNumber (previous : Char) : List Char → List Char × List Char
  | [] => ([], [])
  | char :: rest =>
      if isNameContinue char || char = '.' ||
          ((char = '+' || char = '-') && (previous = 'e' || previous = 'E')) then
        (char :: (readNumber char rest).1, (readNumber char rest).2)
      else ([], char :: rest)

def isDigits (text : List Char) : Bool := !text.isEmpty && text.all isDigit

def isNatural : List Char → Bool
  | [] => false
  | char :: rest => if char = '0' then rest.isEmpty else isDigits (char :: rest)

def isInteger : List Char → Bool
  | '-' :: rest => isNatural rest
  | text => isNatural text

def isExponent : List Char → Bool
  | mark :: sign :: rest =>
      (mark = 'e' || mark = 'E') &&
        (if sign = '+' || sign = '-' then isDigits rest else isDigits (sign :: rest))
  | _ => false

def isFloat (text : List Char) : Bool :=
  let (integer, rest) := text.span fun char => isDigit char || char = '-'
  isInteger integer &&
    match rest with
    | '.' :: rest =>
        let (fraction, exponent) := rest.span isDigit
        isDigits fraction && (exponent.isEmpty || isExponent exponent)
    | exponent => isExponent exponent

def hexValue (char : Char) : Option Nat :=
  if isDigit char then some (char.toNat - '0'.toNat)
  else if 'a' ≤ char && char ≤ 'f' then some (char.toNat - 'a'.toNat + 10)
  else if 'A' ≤ char && char ≤ 'F' then some (char.toNat - 'A'.toNat + 10)
  else none

/-- The character with a number, unless it is one half of a surrogate pair. -/
def charOf (number : Nat) : Option Char :=
  if number.isValidChar then some (Char.ofNat number) else none

def unicodeEscape (first second third fourth : Char) : Option Char := do
  let first ← hexValue first
  let second ← hexValue second
  let third ← hexValue third
  let fourth ← hexValue fourth
  charOf (((first * 16 + second) * 16 + third) * 16 + fourth)

def simpleEscape (char : Char) : Option Char :=
  if char = '"' || char = '\\' || char = '/' then some char
  else if char = 'b' then some (Char.ofNat 8)
  else if char = 'f' then some (Char.ofNat 12)
  else if char = 'n' then some '\n'
  else if char = 'r' then some '\r'
  else if char = 't' then some '\t'
  else none

/-- The value of a string up to the closing quote, and what is behind it. -/
def readString : List Char → Option (List Char × List Char)
  | [] => none
  | '"' :: rest => some ([], rest)
  | '\\' :: 'u' :: first :: second :: third :: fourth :: rest => do
      let char ← unicodeEscape first second third fourth
      let (value, rest) ← readString rest
      return (char :: value, rest)
  | '\\' :: escaped :: rest => do
      let char ← simpleEscape escaped
      let (value, rest) ← readString rest
      return (char :: value, rest)
  | char :: rest =>
      if isSource char && !isLineTerminator char && char ≠ '\\' then do
        let (value, rest) ← readString rest
        return (char :: value, rest)
      else none

/-- What stands in a block string up to its closing quotes, and what is behind them. -/
def readBlock : List Char → Option (List Char × List Char)
  | [] => none
  | '"' :: '"' :: '"' :: rest => some ([], rest)
  | '\\' :: '"' :: '"' :: '"' :: rest => do
      let (content, rest) ← readBlock rest
      return ('"' :: '"' :: '"' :: content, rest)
  | char :: rest =>
      if isSource char then do
        let (content, rest) ← readBlock rest
        return (char :: content, rest)
      else none

def lines : List Char → List (List Char)
  | [] => [[]]
  | '\r' :: '\n' :: rest => [] :: lines rest
  | char :: rest =>
      if isLineTerminator char then [] :: lines rest
      else
        match lines rest with
        | [] => [[char]]
        | line :: others => (char :: line) :: others

def isWhite (char : Char) : Bool := char = ' ' || char = '\t'

def isBlank (line : List Char) : Bool := line.all isWhite

def indent? (line : List Char) : Option Nat :=
  if isBlank line then none
  else some (line.takeWhile isWhite).length

def commonIndent (lines : List (List Char)) : Nat := ((lines.filterMap indent?).min?).getD 0

/-- The value of a block string: without the common indentation, and without the blank lines at
its start and its end. -/
def blockStringValue (content : List Char) : List Char :=
  match lines content with
  | [] => []
  | first :: others =>
      let dedented := first :: others.map (·.drop (commonIndent others))
      ['\n'].intercalate ((dedented.dropWhile isBlank).rdropWhile isBlank)

/-- What a text starts with. -/
inductive Scan where
  | finished
  | failed
  | skip (rest : List Char)
  | token (token : Token) (rest : List Char)
  deriving DecidableEq, Repr

def numberToken (text : List Char) : Option Token :=
  if isInteger text then some (.int text) else if isFloat text then some (.float text) else none

def scan : List Char → Scan
  | [] => .finished
  | '.' :: '.' :: '.' :: rest => .token .spread rest
  | '"' :: '"' :: '"' :: rest =>
      match readBlock rest with
      | some (content, rest) => .token (.block (blockStringValue content)) rest
      | none => .failed
  | '"' :: rest =>
      match readString rest with
      | some (value, rest) => .token (.string value) rest
      | none => .failed
  | char :: rest =>
      if isIgnored char then .skip rest
      else if char = '#' then .skip (rest.dropWhile (!isLineTerminator ·))
      else if isPunctuator char then .token (.punctuator char) rest
      else if isLetter char then
        .token (.name (char :: rest.takeWhile isNameContinue)) (rest.dropWhile isNameContinue)
      else if isDigit char || char = '-' then
        match numberToken (char :: (readNumber char rest).1) with
        | some token => .token token (readNumber char rest).2
        | none => .failed
      else .failed

attribute [local grind =] readNumber readString readBlock lines scan

theorem readString_length {text value rest : List Char}
    (success : readString text = some (value, rest)) : rest.length < text.length := by
  fun_induction readString text generalizing value with
  | case1 => cases success
  | case2 rest =>
      cases success
      exact Nat.lt_succ_self _
  | case3 first second third fourth tail ih =>
      simp only [bind, Option.bind_eq_some_iff] at success
      obtain ⟨_, _, ⟨inner, after⟩, read, same⟩ := success
      cases same
      have shorter : after.length < tail.length := ih read
      simp only [List.length_cons]
      omega
  | case4 escaped tail _ ih =>
      simp only [bind, Option.bind_eq_some_iff] at success
      obtain ⟨_, _, ⟨inner, after⟩, read, same⟩ := success
      cases same
      have shorter : after.length < tail.length := ih read
      simp only [List.length_cons]
      omega
  | case5 char tail _ _ _ _ ih =>
      simp only [bind, Option.bind_eq_some_iff] at success
      obtain ⟨⟨inner, after⟩, read, same⟩ := success
      cases same
      exact (ih read).trans (Nat.lt_succ_self _)
  | case6 => cases success

theorem readBlock_length {text content rest : List Char}
    (success : readBlock text = some (content, rest)) : rest.length < text.length := by
  fun_induction readBlock text generalizing content with
  | case1 => cases success
  | case2 rest =>
      cases success
      simp only [List.length_cons]
      omega
  | case3 tail ih =>
      simp only [bind, Option.bind_eq_some_iff] at success
      obtain ⟨⟨inner, after⟩, read, same⟩ := success
      cases same
      have shorter : after.length < tail.length := ih read
      simp only [List.length_cons]
      omega
  | case4 char tail _ _ _ ih =>
      simp only [bind, Option.bind_eq_some_iff] at success
      obtain ⟨⟨inner, after⟩, read, same⟩ := success
      cases same
      exact (ih read).trans (Nat.lt_succ_self _)
  | case5 => cases success

theorem readNumber_length (previous : Char) (text : List Char) :
    (readNumber previous text).2.length ≤ text.length := by
  induction text generalizing previous with
  | nil => exact Nat.le_refl _
  | cons char rest ih =>
      unfold readNumber
      split
      · exact (ih char).trans (Nat.le_succ _)
      · exact Nat.le_refl _

def Scan.rest? : Scan → Option (List Char)
  | .skip rest | .token _ rest => some rest
  | _ => none

theorem scan_length (text : List Char) :
    ∀ rest, (scan text).rest? = some rest → rest.length < text.length := by
  intro left
  fun_cases scan text with
  | case1 | case4 | case6 | case12 | case13 => exact nofun
  | case2 rest =>
      rintro ⟨⟩
      simp only [List.length_cons]
      omega
  | case3 rest content after read =>
      rintro ⟨⟩
      have shorter := readBlock_length read
      simp only [List.length_cons]
      omega
  | case5 rest _ value after read =>
      rintro ⟨⟩
      exact (readString_length read).trans (Nat.lt_succ_self _)
  | case7 | case9 =>
      rintro ⟨⟩
      exact Nat.lt_succ_self _
  | case8 rest =>
      rintro ⟨⟩
      exact Nat.lt_succ_of_le (List.dropWhile_sublist _).length_le
  | case10 char rest =>
      rintro ⟨⟩
      exact Nat.lt_succ_of_le (List.dropWhile_sublist _).length_le
  | case11 char rest =>
      rintro ⟨⟩
      exact Nat.lt_succ_of_le (readNumber_length char rest)

def lex (text : List Char) : Option (List Token) :=
  match _ : scan text with
  | .finished => some []
  | .failed => none
  | .skip rest => lex rest
  | .token token rest => (lex rest).map (token :: ·)
termination_by text.length
decreasing_by
  · exact scan_length text rest (by rw [‹scan text = .skip rest›]; rfl)
  · exact scan_length text rest (by rw [‹scan text = .token token rest›]; rfl)

theorem lex_skip {text rest : List Char} (scanned : scan text = .skip rest) :
    lex text = lex rest := by
  rw [lex]
  split <;> simp_all

theorem lex_token {text rest : List Char} {token : Token} (scanned : scan text = .token token rest) :
    lex text = (lex rest).map (token :: ·) := by
  rw [lex]
  split <;> simp_all

theorem lex_failed {text : List Char} (scanned : scan text = .failed) : lex text = none := by
  rw [lex]
  split <;> simp_all

theorem lex_nil : lex [] = some [] := by
  rw [lex]
  rfl

end GraphQL
