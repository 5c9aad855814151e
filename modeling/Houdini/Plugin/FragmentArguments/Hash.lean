import Mathlib.Data.Bool.AllAny
import Mathlib.Data.List.Basic

/-! The hash that the compiler names specialised fragments with. -/

set_option autoImplicit false

namespace Houdini.Plugin

def base62Digits : String := "0123456789abcdefghijklmnopqrstuvwxyzABCDEFGHIJKLMNOPQRSTUVWXYZ"

def utf16Char (char : Char) : List UInt32 :=
  let code : UInt32 := char.val
  if code < 0x10000 then [code]
  else
    let offset : UInt32 := code - 0x10000
    [(0xd800 : UInt32) + (offset >>> 10), (0xdc00 : UInt32) + (offset &&& 0x3ff)]

def utf16Units (text : String) : List UInt32 := text.toList.flatMap utf16Char

def rotateLeft (value count : UInt32) : UInt32 := (value <<< count) ||| (value >>> (32 - count))

def scramble (word : UInt32) : UInt32 :=
  let word := word * 0x2d51 + (word &&& 0xffff) * 0xcc9e0000
  let word := rotateLeft word 15
  word * 0x3593 + (word &&& 0xffff) * 0x1b870000

def hashUnits (hash : UInt32) : List UInt32 → UInt32
  | first :: second :: third :: fourth :: rest =>
      let word := first ^^^ (second <<< 8) ^^^ (third <<< 16) ^^^ ((fourth &&& 0xff) <<< 24) ^^^
        ((fourth &&& 0xff00) >>> 8)
      hashUnits (rotateLeft (hash ^^^ scramble word) 13 * 5 + 0xe6546b64) rest
  | [first, second, third] => hash ^^^ scramble ((third <<< 16) ^^^ (second <<< 8) ^^^ first)
  | [first, second] => hash ^^^ scramble ((second <<< 8) ^^^ first)
  | [first] => hash ^^^ scramble first
  | [] => hash

def finalizeHash (hash : UInt32) : UInt32 :=
  let hash := hash ^^^ (hash >>> 16)
  let hash := hash * 0xca6b + (hash &&& 0xffff) * 0x85eb0000
  let hash := hash ^^^ (hash >>> 13)
  let hash := hash * 0xae35 + (hash &&& 0xffff) * 0xc2b20000
  hash ^^^ (hash >>> 16)

def base62 : Nat → Nat → List Char → List Char
  | 0, _, digits => digits
  | fuel + 1, value, digits =>
      if value = 0 then digits
      else base62 fuel (value / 62) (base62Digits.toList.getD (value % 62) '0' :: digits)

/-- `murmurHash`. Six digits are enough for 32 bits. -/
def murmurHash (text : String) : String :=
  let units := utf16Units text
  let hash := finalizeHash (hashUnits 0 units ^^^ UInt32.ofNat units.length)
  if hash = 0 then "0" else String.ofList (base62 6 hash.toNat [])

example : murmurHash "\x7b\"name\":\"Hello\"\x7d" = "g8N34" := by decide +kernel

private theorem underscore_not_digit (digit : Nat) :
    base62Digits.toList.getD digit '0' ≠ '_' := by
  have digits : ∀ char ∈ base62Digits.toList, char ≠ '_' :=
    List.all_iff_forall_prop.mp (by decide +kernel)
  rw [List.getD_eq_getElem?_getD]
  cases found : base62Digits.toList[digit]? with
  | none => decide
  | some char => exact digits char (List.mem_of_getElem? found)

private theorem underscore_not_mem_base62 (fuel value : Nat) {digits : List Char}
    (clean : '_' ∉ digits) : '_' ∉ base62 fuel value digits := by
  induction fuel generalizing value digits with
  | zero => exact clean
  | succ fuel ih =>
      unfold base62
      split
      · exact clean
      · refine ih _ fun member => ?_
        rcases List.mem_cons.mp member with first | below
        · exact underscore_not_digit _ first.symm
        · exact clean below

theorem underscore_not_mem_murmurHash (text : String) : '_' ∉ (murmurHash text).toList := by
  unfold murmurHash
  dsimp only
  split
  · decide +kernel
  · rw [String.toList_ofList]
    exact underscore_not_mem_base62 _ _ List.not_mem_nil

end Houdini.Plugin
