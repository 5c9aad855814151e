import Houdini.Data.PrefixCode

/-! Texts as `json.Marshal` encodes them. -/

set_option autoImplicit false

namespace Houdini.Plugin

def hexDigit (digit : Nat) : Char := "0123456789abcdef".toList.getD digit '0'

def unicodeEscape (code : Nat) : List Char :=
  ['\\', 'u', hexDigit (code / 4096), hexDigit (code / 256 % 16), hexDigit (code / 16 % 16),
    hexDigit (code % 16)]

/-- One character of an encoded text. What could end a script or a line is escaped as well. -/
def jsonChar (char : Char) : List Char :=
  if char = '"' then ['\\', '"']
  else if char = '\\' then ['\\', '\\']
  else if char.toNat = 8 then ['\\', 'b']
  else if char.toNat = 12 then ['\\', 'f']
  else if char.toNat = 10 then ['\\', 'n']
  else if char.toNat = 13 then ['\\', 'r']
  else if char.toNat = 9 then ['\\', 't']
  else if char.toNat < 32 ∨ char = '<' ∨ char = '>' ∨ char = '&' ∨ char.toNat = 0x2028 ∨
      char.toNat = 0x2029 then
    unicodeEscape char.toNat
  else [char]

def jsonString (text : String) : List Char := '"' :: text.toList.flatMap jsonChar ++ ['"']

def jsonEntries (entries : List (String × String)) : List Char :=
  Char.ofNat 123 ::
    joinCode (fun entry => jsonString entry.1 ++ ':' :: jsonString entry.2) ',' entries ++
      [Char.ofNat 125]

private theorem hexDigit_inj {digit other : Nat} (small : digit < 16) (otherSmall : other < 16)
    (same : hexDigit digit = hexDigit other) : digit = other := by
  have all : ∀ digit < 16, ∀ other < 16, hexDigit digit = hexDigit other → digit = other := by
    decide +kernel
  exact all digit small other otherSmall same

private theorem unicodeEscape_inj {code other : Nat} (small : code < 65536)
    (otherSmall : other < 65536) (same : unicodeEscape code = unicodeEscape other) :
    code = other := by
  unfold unicodeEscape at same
  simp only [List.cons.injEq, true_and, and_true] at same
  obtain ⟨first, second, third, fourth⟩ := same
  have high := hexDigit_inj (by omega) (by omega) first
  have upper := hexDigit_inj (by omega) (by omega) second
  have lower := hexDigit_inj (by omega) (by omega) third
  have low := hexDigit_inj (by omega) (by omega) fourth
  omega

private def shortEscapes : List (Nat × Char) :=
  [(34, '"'), (92, '\\'), (8, 'b'), (12, 'f'), (10, 'n'), (13, 'r'), (9, 't')]

private inductive Encoded (char : Char) : Prop
  | short (letter : Char) (known : (char.toNat, letter) ∈ shortEscapes)
      (text : jsonChar char = ['\\', letter])
  | escape (small : char.toNat < 65536) (text : jsonChar char = unicodeEscape char.toNat)
  | plain (unquoted : char ≠ '"') (unescaped : char ≠ '\\') (text : jsonChar char = [char])

private theorem encoded (char : Char) : Encoded char := by
  by_cases quote : char = '"'
  · subst quote
    exact .short '"' (by decide) (by decide)
  by_cases backslash : char = '\\'
  · subst backslash
    exact .short '\\' (by decide) (by decide)
  by_cases special : char.toNat = 8 ∨ char.toNat = 12 ∨ char.toNat = 10 ∨ char.toNat = 13 ∨
      char.toNat = 9
  · rcases special with code | code | code | code | code
    · exact .short 'b' (by simp [shortEscapes, code]) (by simp [jsonChar, quote, backslash, code])
    · exact .short 'f' (by simp [shortEscapes, code]) (by simp [jsonChar, quote, backslash, code])
    · exact .short 'n' (by simp [shortEscapes, code]) (by simp [jsonChar, quote, backslash, code])
    · exact .short 'r' (by simp [shortEscapes, code]) (by simp [jsonChar, quote, backslash, code])
    · exact .short 't' (by simp [shortEscapes, code]) (by simp [jsonChar, quote, backslash, code])
  · simp only [not_or] at special
    obtain ⟨notBackspace, notFormFeed, notLineFeed, notReturn, notTab⟩ := special
    by_cases escaped : char.toNat < 32 ∨ char = '<' ∨ char = '>' ∨ char = '&' ∨
        char.toNat = 0x2028 ∨ char.toNat = 0x2029
    · refine .escape ?_ ?_
      · rcases escaped with control | rfl | rfl | rfl | line | paragraph
        · omega
        · decide
        · decide
        · decide
        · omega
        · omega
      · unfold jsonChar
        rw [if_neg quote, if_neg backslash, if_neg notBackspace, if_neg notFormFeed,
          if_neg notLineFeed, if_neg notReturn, if_neg notTab, if_pos escaped]
    · refine .plain quote backslash ?_
      unfold jsonChar
      rw [if_neg quote, if_neg backslash, if_neg notBackspace, if_neg notFormFeed,
        if_neg notLineFeed, if_neg notReturn, if_neg notTab, if_neg escaped]

private theorem toNat_inj {char other : Char} (same : char.toNat = other.toNat) : char = other :=
  Char.ext (UInt32.toNat_inj.mp same)

theorem jsonChar_instantaneous : Instantaneous jsonChar := by
  intro char other rest last same
  cases encoded char with
  | short letter known text =>
      cases encoded other with
      | short otherLetter otherKnown otherText =>
          rw [text, otherText] at same
          simp only [List.cons_append, List.nil_append, List.cons.injEq, true_and] at same
          obtain ⟨rfl, ended⟩ := same
          have functional : ∀ first ∈ shortEscapes, ∀ second ∈ shortEscapes,
              first.2 = second.2 → first.1 = second.1 := by decide
          exact ⟨toNat_inj (functional _ known _ otherKnown rfl), ended⟩
      | escape small otherText =>
          rw [text, otherText] at same
          simp only [unicodeEscape, List.cons_append, List.nil_append, List.cons.injEq,
            true_and] at same
          rw [same.1] at known
          simp [shortEscapes] at known
      | plain unquoted unescaped otherText =>
          rw [text, otherText] at same
          exact absurd (List.cons.inj same).1.symm unescaped
  | escape small text =>
      cases encoded other with
      | short letter known otherText =>
          rw [text, otherText] at same
          simp only [unicodeEscape, List.cons_append, List.nil_append, List.cons.injEq,
            true_and] at same
          rw [← same.1] at known
          simp [shortEscapes] at known
      | escape otherSmall otherText =>
          rw [text, otherText] at same
          obtain ⟨escapes, ended⟩ := List.append_inj same rfl
          exact ⟨toNat_inj (unicodeEscape_inj small otherSmall escapes), ended⟩
      | plain unquoted unescaped otherText =>
          rw [text, otherText] at same
          exact absurd (List.cons.inj same).1.symm unescaped
  | plain unquoted unescaped text =>
      cases encoded other with
      | short letter known otherText =>
          rw [text, otherText] at same
          exact absurd (List.cons.inj same).1 unescaped
      | escape otherSmall otherText =>
          rw [text, otherText] at same
          exact absurd (List.cons.inj same).1 unescaped
      | plain otherUnquoted otherUnescaped otherText =>
          rw [text, otherText] at same
          exact ⟨(List.cons.inj same).1, (List.cons.inj same).2⟩

theorem jsonChar_neverStarts_quote : NeverStarts jsonChar '"' := by
  intro char
  cases encoded char with
  | short letter known text => exact ⟨'\\', [letter], text, by decide⟩
  | escape small text => exact ⟨'\\', _, text, by decide⟩
  | plain unquoted unescaped text => exact ⟨char, [], text, unquoted⟩

theorem jsonString_instantaneous : Instantaneous jsonString := by
  intro text other rest last same
  unfold jsonString at same
  simp only [List.cons_append, List.append_assoc, List.nil_append, List.cons.injEq,
    true_and] at same
  obtain ⟨chars, ended⟩ := jsonChar_instantaneous.flatMap_unique jsonChar_neverStarts_quote same
  exact ⟨String.toList_injective chars, ended⟩

theorem jsonEntries_inj {entries others : List (String × String)}
    (same : jsonEntries entries = jsonEntries others) : entries = others := by
  unfold jsonEntries at same
  have instantaneous := jsonString_instantaneous.pair jsonString_instantaneous ':'
  have starts : NeverStarts
      (fun entry : String × String => jsonString entry.1 ++ ':' :: jsonString entry.2)
      (Char.ofNat 125) := fun entry => ⟨'"', _, rfl, by decide⟩
  exact (instantaneous.joinCode_unique (by decide) starts (List.cons.inj same).2).1

end Houdini.Plugin
