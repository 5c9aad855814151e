import Mathlib.Data.List.Basic

/-! Texts in URLs, as `encodeURIComponent` writes them. -/

set_option autoImplicit false

namespace Houdini.Runtime

def isHighSurrogate (unit : UInt16) : Bool := 0xD800 ≤ unit.toNat && unit.toNat < 0xDC00

def isLowSurrogate (unit : UInt16) : Bool := 0xDC00 ≤ unit.toNat && unit.toNat < 0xE000

/-- The characters of a script text, unless half of a surrogate pair is left alone. -/
def codePoints : List UInt16 → Option (List Char)
  | [] => some []
  | [unit] =>
      if isHighSurrogate unit || isLowSurrogate unit then none else some [Char.ofNat unit.toNat]
  | unit :: low :: rest =>
      if isHighSurrogate unit then
        if isLowSurrogate low then
          (codePoints rest).map (Char.ofNat
            (0x10000 + (unit.toNat - 0xD800) * 0x400 + (low.toNat - 0xDC00)) :: ·)
        else none
      else if isLowSurrogate unit then none
      else (codePoints (low :: rest)).map (Char.ofNat unit.toNat :: ·)

def codeUnits (char : Char) : List UInt16 :=
  if char.toNat < 0x10000 then [UInt16.ofNat char.toNat]
  else [UInt16.ofNat (0xD800 + (char.toNat - 0x10000) / 0x400),
    UInt16.ofNat (0xDC00 + (char.toNat - 0x10000) % 0x400)]

def scriptText (text : String) : List UInt16 := text.toList.flatMap codeUnits

theorem codePoints_codeUnits (char : Char) (rest : List UInt16) :
    codePoints (codeUnits char ++ rest) = (codePoints rest).map (char :: ·) := by
  have valid : char.toNat < 0xD800 ∨ 0xDFFF < char.toNat ∧ char.toNat < 0x110000 := char.valid
  unfold codeUnits
  split
  · next small =>
      have unit : (UInt16.ofNat char.toNat).toNat = char.toNat := UInt16.toNat_ofNat_of_lt' small
      have high : isHighSurrogate (UInt16.ofNat char.toNat) = false := by
        simp only [isHighSurrogate, unit, Bool.and_eq_false_iff, decide_eq_false_iff_not]
        omega
      have low : isLowSurrogate (UInt16.ofNat char.toNat) = false := by
        simp only [isLowSurrogate, unit, Bool.and_eq_false_iff, decide_eq_false_iff_not]
        omega
      cases rest with
      | nil => simp [codePoints, high, low, unit, Char.ofNat_toNat]
      | cons next rest => simp [codePoints, high, low, unit, Char.ofNat_toNat]
  · next large =>
      let offset := char.toNat - 0x10000
      have bound : offset < 0x100000 := by omega
      have first : (UInt16.ofNat (0xD800 + offset / 0x400)).toNat = 0xD800 + offset / 0x400 :=
        UInt16.toNat_ofNat_of_lt' (show _ < 65536 by omega)
      have second : (UInt16.ofNat (0xDC00 + offset % 0x400)).toNat = 0xDC00 + offset % 0x400 :=
        UInt16.toNat_ofNat_of_lt' (show _ < 65536 by omega)
      have high : isHighSurrogate (UInt16.ofNat (0xD800 + offset / 0x400)) = true := by
        simp only [isHighSurrogate, first, Bool.and_eq_true, decide_eq_true_eq]
        omega
      have low : isLowSurrogate (UInt16.ofNat (0xDC00 + offset % 0x400)) = true := by
        simp only [isLowSurrogate, second, Bool.and_eq_true, decide_eq_true_eq]
        omega
      have whole : 0x10000 + (0xD800 + offset / 0x400 - 0xD800) * 0x400 +
          (0xDC00 + offset % 0x400 - 0xDC00) = char.toNat := by omega
      change codePoints (UInt16.ofNat (0xD800 + offset / 0x400) ::
        UInt16.ofNat (0xDC00 + offset % 0x400) :: rest) = _
      rw [codePoints, if_pos high, if_pos low, first, second, whole, Char.ofNat_toNat]

theorem codePoints_flatMap_codeUnits (chars : List Char) :
    codePoints (chars.flatMap codeUnits) = some chars := by
  induction chars with
  | nil => rfl
  | cons char rest ih => rw [List.flatMap_cons, codePoints_codeUnits, ih]; rfl

theorem scriptText_injective : Function.Injective scriptText := by
  intro left right same
  have points := congrArg codePoints same
  rw [scriptText, scriptText, codePoints_flatMap_codeUnits, codePoints_flatMap_codeUnits] at points
  exact String.toList_inj.mp (Option.some.inj points)
def isUnreserved (char : Char) : Bool :=
  ('a' ≤ char && char ≤ 'z') || ('A' ≤ char && char ≤ 'Z') || ('0' ≤ char && char ≤ '9') ||
    ['-', '_', '.', '!', '~', '*', '\'', '(', ')'].contains char

def upperHexDigit (digit : Nat) : Char := "0123456789ABCDEF".toList.getD digit '0'

def percentEncode (byte : UInt8) : List Char :=
  ['%', upperHexDigit (byte.toNat / 16), upperHexDigit (byte.toNat % 16)]

def encodeChar (char : Char) : List Char :=
  if isUnreserved char then [char] else (String.utf8EncodeChar char).flatMap percentEncode

def encodeURIComponent (text : List UInt16) : Option (List Char) :=
  (codePoints text).map (·.flatMap encodeChar)

def hexValue (char : Char) : Option Nat :=
  if '0' ≤ char && char ≤ '9' then some (char.toNat - '0'.toNat)
  else if 'a' ≤ char && char ≤ 'f' then some (char.toNat - 'a'.toNat + 10)
  else if 'A' ≤ char && char ≤ 'F' then some (char.toNat - 'A'.toNat + 10)
  else none

def escapedByte : List Char → Option (Nat × List Char)
  | '%' :: high :: low :: rest => do
      let high ← hexValue high
      let low ← hexValue low
      return (16 * high + low, rest)
  | _ => none

def continuationBytes : Nat → Nat → List Char → Option (Nat × List Char)
  | 0, value, text => some (value, text)
  | count + 1, value, text => do
      let (byte, rest) ← escapedByte text
      if byte / 64 = 2 then continuationBytes count (64 * value + byte % 64) rest else none

/-- What the first byte of a character says: the least value of its length, and its value. -/
def firstByte (byte : Nat) (rest : List Char) : Option (Nat × Nat × List Char) :=
  if byte < 0x80 then some (0, byte, rest)
  else if byte < 0xC0 then none
  else if byte < 0xE0 then (continuationBytes 1 (byte % 32) rest).map (0x80, ·)
  else if byte < 0xF0 then (continuationBytes 2 (byte % 16) rest).map (0x800, ·)
  else if byte < 0xF8 then (continuationBytes 3 (byte % 8) rest).map (0x10000, ·)
  else none

/-- One escaped character. Neither overlong forms nor halves of surrogate pairs are. -/
def decodeEscaped (text : List Char) : Option (Char × List Char) := do
  let (byte, rest) ← escapedByte text
  let (least, value, rest) ← firstByte byte rest
  if least ≤ value && decide (value.isValidChar) then some (Char.ofNat value, rest) else none

def decodeUpTo : Nat → List Char → Option (List Char)
  | _, [] => some []
  | 0, _ :: _ => none
  | count + 1, char :: rest =>
      if char = '%' then do
        let (decoded, behind) ← decodeEscaped (char :: rest)
        (decodeUpTo count behind).map (decoded :: ·)
      else (decodeUpTo count rest).map (char :: ·)

def decodeURIComponent (text : List Char) : Option (List Char) := decodeUpTo text.length text

theorem decodeURIComponent_plain {text : List Char} (plain : '%' ∉ text) :
    decodeURIComponent text = some text := by
  unfold decodeURIComponent
  induction text with
  | nil => rfl
  | cons char rest ih =>
      rw [List.mem_cons, not_or] at plain
      rw [List.length_cons, decodeUpTo, if_neg (Ne.symm plain.1), ih plain.2]
      rfl

theorem encodeChar_cons (char : Char) :
    ∃ first rest, encodeChar char = first :: rest ∧ (isUnreserved first = true ∨ first = '%') := by
  unfold encodeChar
  split
  · next unreserved => exact ⟨char, [], rfl, Or.inl unreserved⟩
  · cases bytes : String.utf8EncodeChar char with
    | nil => exact absurd bytes String.utf8EncodeChar_ne_nil
    | cons byte others => exact ⟨'%', _, rfl, Or.inr rfl⟩

theorem codePoints_eq_nil_iff {text : List UInt16} {chars : List Char}
    (decoded : codePoints text = some chars) : chars = [] ↔ text = [] := by
  fun_cases codePoints text with
  | case1 =>
      cases decoded
      exact iff_of_true rfl rfl
  | case2 unit lone => simp [codePoints, lone] at decoded
  | case3 unit lone =>
      have single : chars = [Char.ofNat unit.toNat] := by
        simpa [codePoints, lone] using decoded.symm
      exact iff_of_false (by simp [single]) nofun
  | case4 unit low rest high isLow =>
      rw [codePoints, if_pos high, if_pos isLow] at decoded
      obtain ⟨others, _, rfl⟩ := Option.map_eq_some_iff.mp decoded
      exact iff_of_false nofun nofun
  | case5 unit low rest high isLow =>
      rw [codePoints, if_pos high, if_neg isLow] at decoded
      cases decoded
  | case6 unit low rest high isLow =>
      rw [codePoints, if_neg high, if_pos isLow] at decoded
      cases decoded
  | case7 unit low rest high isLow =>
      rw [codePoints, if_neg high, if_neg isLow] at decoded
      obtain ⟨others, _, rfl⟩ := Option.map_eq_some_iff.mp decoded
      exact iff_of_false nofun nofun

theorem encodeURIComponent_cases {text : List UInt16} {encoded : List Char}
    (success : encodeURIComponent text = some encoded) :
    (text = [] ∧ encoded = []) ∨ (text ≠ [] ∧ ∃ first rest, encoded = first :: rest ∧
      (isUnreserved first = true ∨ first = '%')) := by
  obtain ⟨chars, decoded, rfl⟩ := Option.map_eq_some_iff.mp success
  have empty := codePoints_eq_nil_iff decoded
  cases chars with
  | nil => exact Or.inl ⟨empty.mp rfl, rfl⟩
  | cons char others =>
      obtain ⟨first, rest, same, kind⟩ := encodeChar_cons char
      refine Or.inr ⟨fun none => List.cons_ne_nil _ _ (empty.mpr none), first, rest ++ others.flatMap encodeChar, ?_,
        kind⟩
      rw [List.flatMap_cons, same]
      rfl

end Houdini.Runtime
