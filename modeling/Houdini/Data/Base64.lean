import Mathlib.Data.List.DropRight

/-! Base64. Writing puts padding at the end, reading forgives its absence, whitespace, and bits that
are left over. -/

set_option autoImplicit false

namespace Base64

def letters : List Char :=
  "ABCDEFGHIJKLMNOPQRSTUVWXYZabcdefghijklmnopqrstuvwxyz0123456789+/".toList

def letter (six : Nat) : Char := letters.getD six 'A'

def six? (char : Char) : Option Nat := letters.idxOf? char

def sixes : List UInt8 → List Nat
  | [] => []
  | [first] => [first.toNat / 4, first.toNat % 4 * 16]
  | [first, second] =>
      [first.toNat / 4, first.toNat % 4 * 16 + second.toNat / 16, second.toNat % 16 * 4]
  | first :: second :: third :: rest =>
      first.toNat / 4 :: (first.toNat % 4 * 16 + second.toNat / 16) ::
        (second.toNat % 16 * 4 + third.toNat / 64) :: third.toNat % 64 :: sixes rest

def unpadded (bytes : List UInt8) : List Char := (sixes bytes).map letter

def padding (count : Nat) : List Char :=
  if count % 3 = 1 then ['=', '='] else if count % 3 = 2 then ['='] else []

def encode (bytes : List UInt8) : List Char := unpadded bytes ++ padding bytes.length

/-- The bytes of groups of letters. Bits that are left over are dropped. -/
def decodeSixes : List Nat → Option (List UInt8)
  | [] => some []
  | [_] => none
  | [first, second] => some [UInt8.ofNat (first * 4 + second / 16)]
  | [first, second, third] =>
      some [UInt8.ofNat (first * 4 + second / 16), UInt8.ofNat (second % 16 * 16 + third / 4)]
  | first :: second :: third :: fourth :: rest =>
      (decodeSixes rest).map fun bytes =>
        UInt8.ofNat (first * 4 + second / 16) :: UInt8.ofNat (second % 16 * 16 + third / 4) ::
          UInt8.ofNat (third % 4 * 64 + fourth) :: bytes

def isWhitespace (char : Char) : Bool :=
  ['\t', '\n', Char.ofNat 12, '\r', ' '].contains char

def withoutPadding (text : List Char) : List Char :=
  if text.length % 4 = 0 then
    if text.drop (text.length - 2) = ['=', '='] then text.take (text.length - 2)
    else if text.drop (text.length - 1) = ['='] then text.take (text.length - 1)
    else text
  else text

def decode (text : List Char) : Option (List UInt8) :=
  ((withoutPadding (text.filter (!isWhitespace ·))).mapM six?).bind decodeSixes

theorem letter_mem (six : Nat) : letter six ∈ letters := by
  unfold letter
  rw [List.getD_eq_getElem?_getD]
  cases found : letters[six]? with
  | none => exact (by decide : 'A' ∈ letters)
  | some char => exact List.mem_of_getElem? found

theorem six?_letter {six : Nat} (small : six < 64) : six? (letter six) = some six := by
  have all : ∀ six ∈ List.range 64, six? (letter six) = some six := by decide +kernel
  exact all six (List.mem_range.mpr small)

theorem letters_plain {char : Char} (member : char ∈ letters) :
    char ≠ '=' ∧ isWhitespace char = false := by
  have all : letters.all fun char => char != '=' && !isWhitespace char := by decide +kernel
  have plain := List.all_eq_true.mp all char member
  simpa using plain

theorem sixes_lt (bytes : List UInt8) : ∀ six ∈ sixes bytes, six < 64 := by
  fun_induction sixes bytes with
  | case1 => exact List.forall_mem_nil _
  | case2 first =>
      have bound := first.toNat_lt
      simp only [List.forall_mem_cons, List.not_mem_nil, false_implies, implies_true, and_true]
      omega
  | case3 first second =>
      have bound := first.toNat_lt
      have bound' := second.toNat_lt
      simp only [List.forall_mem_cons, List.not_mem_nil, false_implies, implies_true, and_true]
      omega
  | case4 first second third rest ih =>
      have bound := first.toNat_lt
      have bound' := second.toNat_lt
      have bound'' := third.toNat_lt
      simp only [List.forall_mem_cons]
      exact ⟨by omega, by omega, by omega, by omega, ih⟩

theorem mem_unpadded {bytes : List UInt8} {char : Char} (member : char ∈ unpadded bytes) :
    char ∈ letters := by
  obtain ⟨six, _, rfl⟩ := List.mem_map.mp member
  exact letter_mem six

theorem decodeSixes_sixes (bytes : List UInt8) : decodeSixes (sixes bytes) = some bytes := by
  fun_induction sixes bytes with
  | case1 => rfl
  | case2 first =>
      have bound := first.toNat_lt
      have whole : first.toNat / 4 * 4 + first.toNat % 4 * 16 / 16 = first.toNat := by omega
      rw [decodeSixes, whole, UInt8.ofNat_toNat]
  | case3 first second =>
      have bound := first.toNat_lt
      have bound' := second.toNat_lt
      have whole : first.toNat / 4 * 4 + (first.toNat % 4 * 16 + second.toNat / 16) / 16 =
          first.toNat := by omega
      have whole' : (first.toNat % 4 * 16 + second.toNat / 16) % 16 * 16 +
          second.toNat % 16 * 4 / 4 = second.toNat := by omega
      rw [decodeSixes, whole, whole', UInt8.ofNat_toNat, UInt8.ofNat_toNat]
  | case4 first second third rest ih =>
      have bound := first.toNat_lt
      have bound' := second.toNat_lt
      have bound'' := third.toNat_lt
      have whole : first.toNat / 4 * 4 + (first.toNat % 4 * 16 + second.toNat / 16) / 16 =
          first.toNat := by omega
      have whole' : (first.toNat % 4 * 16 + second.toNat / 16) % 16 * 16 +
          (second.toNat % 16 * 4 + third.toNat / 64) / 4 = second.toNat := by omega
      have whole'' : (second.toNat % 16 * 4 + third.toNat / 64) % 4 * 64 + third.toNat % 64 =
          third.toNat := by omega
      rw [decodeSixes, ih, whole, whole', whole'', UInt8.ofNat_toNat, UInt8.ofNat_toNat,
        UInt8.ofNat_toNat]
      rfl

theorem mapM_six?_map_letter {sixes : List Nat} (small : ∀ six ∈ sixes, six < 64) :
    (sixes.map letter).mapM six? = some sixes := by
  induction sixes with
  | nil => rfl
  | cons six rest ih =>
      obtain ⟨first, others⟩ := List.forall_mem_cons.mp small
      rw [List.map_cons, List.mapM_cons, six?_letter first, ih others]
      rfl

theorem drop_unpadded_ne (bytes : List UInt8) (count : Nat) (others : List Char) :
    (unpadded bytes).drop count ≠ '=' :: others := by
  intro same
  have member : '=' ∈ (unpadded bytes).drop count := by
    rw [same]
    exact List.mem_cons_self
  exact (letters_plain (mem_unpadded (List.mem_of_mem_drop member))).1 rfl

theorem withoutPadding_unpadded (bytes : List UInt8) :
    withoutPadding (unpadded bytes) = unpadded bytes := by
  rw [withoutPadding, if_neg (drop_unpadded_ne _ _ _), if_neg (drop_unpadded_ne _ _ _), ite_self]

theorem filter_unpadded (bytes : List UInt8) :
    (unpadded bytes).filter (!isWhitespace ·) = unpadded bytes := by
  refine List.filter_eq_self.mpr fun char member => ?_
  rw [(letters_plain (mem_unpadded member)).2]
  rfl

theorem decode_unpadded (bytes : List UInt8) : decode (unpadded bytes) = some bytes := by
  rw [decode, filter_unpadded, withoutPadding_unpadded, unpadded,
    mapM_six?_map_letter (sixes_lt bytes), Option.bind_some, decodeSixes_sixes]

theorem length_unpadded (bytes : List UInt8) :
    (unpadded bytes).length % 4 =
      if bytes.length % 3 = 0 then 0 else bytes.length % 3 + 1 := by
  rw [unpadded, List.length_map]
  fun_induction sixes bytes with
  | case1 => rfl
  | case2 first => rfl
  | case3 first second => rfl
  | case4 first second third rest ih =>
      simp only [List.length_cons] at ih ⊢
      have length : (rest.length + 1 + 1 + 1) % 3 = rest.length % 3 := by omega
      rw [length, ← ih]
      omega

theorem withoutPadding_encode (bytes : List UInt8) :
    withoutPadding (encode bytes) = unpadded bytes := by
  have length := length_unpadded bytes
  unfold encode padding
  by_cases two : bytes.length % 3 = 1
  · rw [if_neg (by omega), two] at length
    have whole : ((unpadded bytes).length + 2) % 4 = 0 := by omega
    have size : ['=', '='].length = 2 := rfl
    rw [if_pos two, withoutPadding, List.length_append, size, if_pos whole]
    simp
  · by_cases one : bytes.length % 3 = 2
    · rw [if_neg (by omega), one] at length
      have whole : ((unpadded bytes).length + 1) % 4 = 0 := by omega
      have atLeast : (unpadded bytes).length + 1 - 2 ≤ (unpadded bytes).length := by omega
      have single : (unpadded bytes ++ ['=']).drop ((unpadded bytes).length + 1 - 2) ≠
          ['=', '='] := by
        rw [List.drop_append_of_le_length atLeast]
        intro same
        exact drop_unpadded_ne bytes _ [] (@List.append_cancel_right _ _ ['='] ['='] same)
      rw [if_neg two, if_pos one, withoutPadding, List.length_append, List.length_singleton,
        if_pos whole, if_neg single]
      simp
    · rw [if_neg two, if_neg one, List.append_nil, withoutPadding_unpadded]

theorem decode_encode (bytes : List UInt8) : decode (encode bytes) = some bytes := by
  have plain : (encode bytes).filter (!isWhitespace ·) = encode bytes := by
    rw [encode, List.filter_append, filter_unpadded]
    congr 1
    unfold padding
    split
    · rfl
    · split <;> rfl
  rw [decode, plain, withoutPadding_encode, unpadded, mapM_six?_map_letter (sixes_lt bytes),
    Option.bind_some, decodeSixes_sixes]

end Base64
