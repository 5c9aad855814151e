import Houdini.Runtime.Encoding
import Mathlib.Data.List.TakeWhile

/-! Entries of names and values in a query, the way forms encode them. -/

set_option autoImplicit false

namespace Url

open Houdini.Runtime (hexValue percentEncode upperHexDigit)

def isFormSafe (char : Char) : Bool := char.isAlphanum || ['*', '-', '.', '_'].contains char

def formChar (char : Char) : List Char :=
  if isFormSafe char then [char]
  else if char = ' ' then ['+']
  else (String.utf8EncodeChar char).flatMap percentEncode

def formText (text : List Char) : List Char := text.flatMap formChar

def formEntry (entry : List Char × List Char) : List Char :=
  formText entry.1 ++ '=' :: formText entry.2

def serializeForm (entries : List (List Char × List Char)) : List Char :=
  ['&'].intercalate (entries.map formEntry)

/-- The bytes of a text, with escapes and pluses undone. What is no escape stays. -/
def formBytes : List Char → List UInt8
  | [] => []
  | char :: rest =>
      if char = '+' then 32 :: formBytes rest
      else if char = '%' then
        match rest with
        | high :: low :: behind =>
            match hexValue high, hexValue low with
            | some first, some second => UInt8.ofNat (16 * first + second) :: formBytes behind
            | _, _ => 37 :: formBytes (high :: low :: behind)
        | rest => 37 :: formBytes rest
      else String.utf8EncodeChar char ++ formBytes rest

section

-- What is read of bytes that are no text.
variable (malformed : ByteArray → List Char)

def decodeForm (text : List Char) : List Char :=
  let bytes := (formBytes text).toByteArray
  match bytes.utf8Decode? with
  | some chars => chars.toList
  | none => malformed bytes

def parseEntry (part : List Char) : List Char × List Char :=
  (decodeForm malformed (part.takeWhile (· ≠ '=')),
    decodeForm malformed ((part.dropWhile (· ≠ '=')).drop 1))

def parseForm (query : List Char) : List (List Char × List Char) :=
  let text := if query.head? = some '?' then query.tail else query
  ((text.splitOn '&').filter (!·.isEmpty)).map (parseEntry malformed)

end

theorem hexValue_upperHexDigit {digit : Nat} (small : digit < 16) :
    hexValue (upperHexDigit digit) = some digit := by
  revert digit
  decide

theorem formBytes_plain {char : Char} (notPlus : char ≠ '+') (notPercent : char ≠ '%')
    (rest : List Char) :
    formBytes (char :: rest) = String.utf8EncodeChar char ++ formBytes rest := by
  rw [formBytes.eq_def]
  simp only [if_neg notPlus, if_neg notPercent]

theorem formBytes_percentEncode (byte : UInt8) (rest : List Char) :
    formBytes (percentEncode byte ++ rest) = byte :: formBytes rest := by
  have bound : byte.toNat < 256 := byte.toNat_lt
  have first := @hexValue_upperHexDigit (byte.toNat / 16) (by omega)
  have second := @hexValue_upperHexDigit (byte.toNat % 16) (by omega)
  have whole : 16 * (byte.toNat / 16) + byte.toNat % 16 = byte.toNat := by omega
  change formBytes ('%' :: upperHexDigit (byte.toNat / 16) :: upperHexDigit (byte.toNat % 16) ::
    rest) = _
  rw [formBytes, if_neg (by decide), if_pos rfl]
  simp only [first, second, whole, UInt8.ofNat_toNat]

theorem formBytes_flatMap_percentEncode (bytes : List UInt8) (rest : List Char) :
    formBytes (bytes.flatMap percentEncode ++ rest) = bytes ++ formBytes rest := by
  induction bytes with
  | nil => rfl
  | cons byte bytes ih =>
      rw [List.flatMap_cons, List.append_assoc, formBytes_percentEncode, ih]
      rfl

theorem formBytes_formChar (char : Char) (rest : List Char) :
    formBytes (formChar char ++ rest) = String.utf8EncodeChar char ++ formBytes rest := by
  unfold formChar
  split
  · next safe =>
      have notPlus : char ≠ '+' := by
        rintro rfl
        revert safe
        decide
      have notPercent : char ≠ '%' := by
        rintro rfl
        revert safe
        decide
      exact formBytes_plain notPlus notPercent rest
  · split
    · next space =>
        have encoded : String.utf8EncodeChar ' ' = [32] := by decide
        rw [space, encoded, List.singleton_append, formBytes.eq_def]
        rfl
    · exact formBytes_flatMap_percentEncode _ rest

theorem formBytes_formText (text : List Char) :
    formBytes (formText text) = text.flatMap String.utf8EncodeChar := by
  induction text with
  | nil => rfl
  | cons char rest ih =>
      rw [formText, List.flatMap_cons, formBytes_formChar, List.flatMap_cons]
      exact congrArg _ ih

theorem decodeForm_formText (malformed : ByteArray → List Char) (text : List Char) :
    decodeForm malformed (formText text) = text := by
  have bytes : (formBytes (formText text)).toByteArray = text.utf8Encode := by
    rw [formBytes_formText]
    rfl
  rw [decodeForm, bytes]
  simp only [List.utf8Decode?_utf8Encode]

theorem not_mem_formText {char : Char} (unsafeChar : isFormSafe char = false) (notPlus : char ≠ '+')
    (notPercent : char ≠ '%') (text : List Char) : char ∉ formText text := by
  intro member
  obtain ⟨original, _, inside⟩ := List.mem_flatMap.mp member
  unfold formChar at inside
  split at inside
  · next safe =>
      rw [List.mem_singleton.mp inside, safe] at unsafeChar
      cases unsafeChar
  · split at inside
    · exact notPlus (List.mem_singleton.mp inside)
    · obtain ⟨byte, _, among⟩ := List.mem_flatMap.mp inside
      have hex (digit : Nat) (small : digit < 16) : char ≠ upperHexDigit digit := by
        have safe : isFormSafe (upperHexDigit digit) = true := by
          clear among
          revert digit
          decide
        rintro rfl
        rw [safe] at unsafeChar
        cases unsafeChar
      have bound : byte.toNat < 256 := byte.toNat_lt
      rw [percentEncode, List.mem_cons, List.mem_cons, List.mem_singleton] at among
      rcases among with same | same | same
      · exact notPercent same
      · exact hex _ (by omega) same
      · exact hex _ (by omega) same

theorem parseEntry_formEntry (malformed : ByteArray → List Char)
    (entry : List Char × List Char) : parseEntry malformed (formEntry entry) = entry := by
  have clean : ∀ char ∈ formText entry.1, decide (char ≠ '=') = true := fun char member =>
    decide_eq_true fun same =>
      not_mem_formText (by decide) (by decide) (by decide) entry.1 (same ▸ member)
  have before : (formEntry entry).takeWhile (· ≠ '=') = formText entry.1 := by
    rw [formEntry, List.takeWhile_append_of_pos clean, List.takeWhile_cons_of_neg (by decide),
      List.append_nil]
  have behind : ((formEntry entry).dropWhile (· ≠ '=')).drop 1 = formText entry.2 := by
    rw [formEntry, List.dropWhile_append_of_pos clean, List.dropWhile_cons_of_neg (by decide)]
    rfl
  rw [parseEntry, before, behind, decodeForm_formText, decodeForm_formText]

theorem not_mem_formEntry {char : Char} (unsafeChar : isFormSafe char = false)
    (notPlus : char ≠ '+') (notPercent : char ≠ '%') (notEqual : char ≠ '=')
    (entry : List Char × List Char) : char ∉ formEntry entry := by
  rw [formEntry, List.mem_append, List.mem_cons]
  rintro (inName | isSeparator | inValue)
  · exact not_mem_formText unsafeChar notPlus notPercent _ inName
  · exact notEqual isSeparator
  · exact not_mem_formText unsafeChar notPlus notPercent _ inValue

theorem formEntry_ne_nil (entry : List Char × List Char) : formEntry entry ≠ [] := by
  rw [formEntry]
  simp

theorem serializeForm_cons (entry : List Char × List Char)
    (rest : List (List Char × List Char)) :
    ∃ behind, serializeForm (entry :: rest) = formEntry entry ++ behind := by
  cases rest with
  | nil => exact ⟨[], by simp [serializeForm]⟩
  | cons other others => exact ⟨_, List.intercalate_cons_cons.trans (List.append_assoc _ _ _)⟩

theorem head?_serializeForm (entries : List (List Char × List Char)) :
    (serializeForm entries).head? ≠ some '?' := by
  cases entries with
  | nil => exact nofun
  | cons entry rest =>
      obtain ⟨behind, same⟩ := serializeForm_cons entry rest
      rw [same, List.head?_append_of_ne_nil _ (formEntry_ne_nil entry)]
      intro first
      exact not_mem_formEntry (by decide) (by decide) (by decide) (by decide) entry
        (List.mem_of_head? first)

theorem parseForm_serializeForm (malformed : ByteArray → List Char)
    (entries : List (List Char × List Char)) :
    parseForm malformed (serializeForm entries) = entries := by
  rw [parseForm, if_neg (head?_serializeForm entries), serializeForm]
  cases entries with
  | nil => rfl
  | cons entry rest =>
      have clean : ∀ part ∈ (entry :: rest).map formEntry, '&' ∉ part := by
        intro part member
        obtain ⟨original, _, rfl⟩ := List.mem_map.mp member
        exact not_mem_formEntry (by decide) (by decide) (by decide) (by decide) original
      have filled : ∀ part ∈ (entry :: rest).map formEntry, (!part.isEmpty) = true := by
        intro part member
        obtain ⟨original, _, rfl⟩ := List.mem_map.mp member
        rw [Bool.not_eq_true', List.isEmpty_eq_false_iff]
        exact formEntry_ne_nil original
      rw [List.splitOn_intercalate '&' clean (by simp), List.filter_eq_self.mpr filled,
        List.map_map]
      exact (List.map_congr_left fun original _ =>
        parseEntry_formEntry malformed original).trans (List.map_id _)

end Url
