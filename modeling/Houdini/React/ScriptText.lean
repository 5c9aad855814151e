import Houdini.Runtime.Json
import Mathlib.Data.Bool.AllAny

/-! Texts inside of `script` elements: where an HTML parser would leave the element. -/

set_option autoImplicit false

namespace Houdini.React

open Houdini.Runtime (Json quoteChar quoteText stringify)

def startsFold : List Char → List Char → Bool
  | [], _ => true
  | _ :: _, [] => false
  | mark :: pattern, char :: text => char.toLower = mark && startsFold pattern text

def startsBreak : List Char → Bool
  | [] => false
  | char :: rest =>
      char = '<' && (startsFold "/script".toList rest || startsFold "!--".toList rest)

def breaks : List Char → List (List Char)
  | [] => []
  | char :: rest => if startsBreak (char :: rest) then (char :: rest) :: breaks rest else breaks rest

def Stops (text : List Char) : Prop := ∀ char ∈ text.head?, char.toLower ∉ "/script!-".toList

theorem startsFold_append {pattern text other : List Char} (stops : Stops other)
    (inside : ∀ mark ∈ pattern, mark ∈ "/script!-".toList) :
    startsFold pattern (text ++ other) = startsFold pattern text := by
  induction pattern generalizing text with
  | nil => rfl
  | cons mark pattern ih =>
      cases text with
      | nil =>
          cases other with
          | nil => rfl
          | cons char rest =>
              have apart : char.toLower ≠ mark := by
                rintro rfl
                exact stops char rfl (inside _ List.mem_cons_self)
              simp [startsFold, apart]
      | cons char text =>
          rw [List.cons_append, startsFold, startsFold,
            ih fun other member => inside other (List.mem_cons_of_mem _ member)]

theorem startsBreak_append {char : Char} {text other : List Char} (stops : Stops other) :
    startsBreak (char :: (text ++ other)) = startsBreak (char :: text) := by
  rw [startsBreak, startsBreak,
    startsFold_append stops (List.all_iff_forall_prop.mp (by decide)),
    startsFold_append stops (List.all_iff_forall_prop.mp (by decide))]

theorem breaks_append {other : List Char} (stops : Stops other) (text : List Char) :
    breaks (text ++ other) = (breaks text).map (· ++ other) ++ breaks other := by
  induction text with
  | nil => rfl
  | cons char text ih =>
      rw [List.cons_append, breaks, breaks, startsBreak_append stops, ih]
      split <;> rfl

theorem breaks_append_eq_nil_iff {other : List Char} (stops : Stops other) (text : List Char) :
    breaks (text ++ other) = [] ↔ breaks text = [] ∧ breaks other = [] := by
  rw [breaks_append stops, List.append_eq_nil_iff, List.map_eq_nil_iff]

theorem breaks_cons {char : Char} (other : char ≠ '<') (text : List Char) :
    breaks (char :: text) = breaks text := by
  rw [breaks, startsBreak]
  simp [other]

theorem breaks_append_of_not_mem {text : List Char} (none : '<' ∉ text) (other : List Char) :
    breaks (text ++ other) = breaks other := by
  induction text with
  | nil => rfl
  | cons char text ih =>
      rw [List.cons_append, breaks_cons (fun same => none (same ▸ List.mem_cons_self)),
        ih fun member => none (List.mem_cons_of_mem _ member)]

theorem breaks_of_not_mem {text : List Char} (none : '<' ∉ text) : breaks text = [] := by
  have whole := breaks_append_of_not_mem none []
  rwa [List.append_nil] at whole

def escapeScriptChar (char : Char) : List Char :=
  if char = '<' then "\\u003c".toList
  else if char.toNat = 0x2028 then "\\u2028".toList
  else if char.toNat = 0x2029 then "\\u2029".toList
  else [char]

def escapeScriptTag (json : List Char) : List Char := json.flatMap escapeScriptChar

theorem not_mem_escapeScriptTag (json : List Char) : '<' ∉ escapeScriptTag json := by
  intro member
  obtain ⟨char, _, inside⟩ := List.mem_flatMap.mp member
  unfold escapeScriptChar at inside
  split at inside
  · exact absurd inside (by decide)
  split at inside
  · exact absurd inside (by decide)
  split at inside
  · exact absurd inside (by decide)
  · next other _ _ => exact other (List.mem_singleton.mp inside).symm

def IsEscaped (char : Char) : Prop :=
  (char ≠ '<' ∧ char.toLower ∉ "/script!-".toList) ∧
    (quoteChar char).head? = some '\\' ∧ '<' ∉ quoteChar char

instance (char : Char) : Decidable (IsEscaped char) := inferInstanceAs (Decidable (_ ∧ _))

theorem quoteChar_cases (char : Char) : quoteChar char = [char] ∨ IsEscaped char := by
  by_cases small : char.toNat < 32
  · have controls : ∀ code < 32, IsEscaped (Char.ofNat code) := by decide +kernel
    have escaped := controls char.toNat small
    rw [Char.ofNat_toNat] at escaped
    exact Or.inr escaped
  · by_cases quote : char = '"'
    · subst quote
      exact Or.inr (by decide +kernel)
    · by_cases backslash : char = '\\'
      · subst backslash
        exact Or.inr (by decide +kernel)
      · refine Or.inl ?_
        unfold quoteChar
        rw [if_neg quote, if_neg backslash, if_neg (by omega), if_neg (by omega),
          if_neg (by omega), if_neg (by omega), if_neg (by omega), if_neg small]

theorem IsEscaped.cons {char : Char} (escaped : IsEscaped char) :
    ∃ rest, quoteChar char = '\\' :: rest := List.head?_eq_some_iff.mp escaped.2.1

theorem startsFold_quote {pattern : List Char} (text : List Char)
    (inside : ∀ mark ∈ pattern, mark ∈ "/script!-".toList) :
    startsFold pattern (text.flatMap quoteChar) = startsFold pattern text := by
  induction pattern generalizing text with
  | nil => rfl
  | cons mark pattern ih =>
      have isInside := inside mark List.mem_cons_self
      cases text with
      | nil => rfl
      | cons char text =>
          rw [List.flatMap_cons]
          rcases quoteChar_cases char with plain | escaped
          · rw [plain, List.singleton_append, startsFold, startsFold,
              ih text fun other member => inside other (List.mem_cons_of_mem _ member)]
          · obtain ⟨rest, same⟩ := escaped.cons
            have apart : char.toLower ≠ mark := fun equal => escaped.1.2 (equal ▸ isInside)
            have backslash : '\\' ≠ mark := by
              rintro rfl
              exact absurd isInside (by decide)
            rw [same, List.cons_append, startsFold, startsFold]
            simp [apart, backslash]

theorem breaks_quote_eq_nil_iff (text : List Char) :
    breaks (text.flatMap quoteChar) = [] ↔ breaks text = [] := by
  induction text with
  | nil => rfl
  | cons char text ih =>
      rw [List.flatMap_cons]
      rcases quoteChar_cases char with plain | escaped
      · have same : startsBreak (char :: text.flatMap quoteChar) = startsBreak (char :: text) := by
          rw [startsBreak, startsBreak,
            startsFold_quote text (List.all_iff_forall_prop.mp (by decide)),
            startsFold_quote text (List.all_iff_forall_prop.mp (by decide))]
        rw [plain, List.singleton_append, breaks, breaks, same]
        split
        · exact iff_of_false (List.cons_ne_nil _ _) (List.cons_ne_nil _ _)
        · exact ih
      · rw [breaks_append_of_not_mem escaped.2.2, breaks_cons escaped.1.1, ih]

theorem breaks_quoteText_eq_nil_iff (text : String) :
    breaks (quoteText text) = [] ↔ breaks text.toList = [] := by
  have stops : Stops ['"'] := by
    rintro char ⟨⟩
    decide
  rw [quoteText, breaks_cons (by decide), breaks_append_eq_nil_iff stops,
    breaks_quote_eq_nil_iff]
  exact and_iff_left rfl

mutual

def IsUnbroken : Json → Prop
  | .string value => breaks value.toList = []
  | .array items => ItemsUnbroken items
  | .object fields => FieldsUnbroken fields
  | _ => True

def ItemsUnbroken : List Json → Prop
  | [] => True
  | item :: rest => IsUnbroken item ∧ ItemsUnbroken rest

def FieldsUnbroken : List (String × Json) → Prop
  | [] => True
  | (name, value) :: rest =>
      breaks name.toList = [] ∧ IsUnbroken value ∧ FieldsUnbroken rest

end

theorem stops_cons {char : Char} (outside : char.toLower ∉ "/script!-".toList)
    (text : List Char) : Stops (char :: text) := by
  rintro _ ⟨⟩
  exact outside

theorem breaks_number (value : Runtime.JsonNumber) : breaks value.text.toList = [] :=
  breaks_of_not_mem fun member => absurd (value.plain _ member) (by decide)

theorem stops_moreItems (items : List Json) (closing : List Char) (stops : Stops closing) :
    Stops (Runtime.stringifyMoreItems items ++ closing) := by
  cases items with
  | nil => exact stops
  | cons item rest => exact stops_cons (by decide) _

theorem stops_moreFields (fields : List (String × Json)) (closing : List Char)
    (stops : Stops closing) : Stops (Runtime.stringifyMoreFields fields ++ closing) := by
  cases fields with
  | nil => exact stops
  | cons field rest => exact stops_cons (by decide) _

mutual

theorem breaks_stringify_iff : (value : Json) →
    (breaks value.stringify = [] ↔ IsUnbroken value)
  | .null => iff_of_true (by decide) trivial
  | .boolean value => iff_of_true (by cases value <;> decide) trivial
  | .number value => iff_of_true (breaks_number value) trivial
  | .string value => breaks_quoteText_eq_nil_iff value
  | .array items => by
      rw [Json.stringify, breaks_cons (by decide)]
      exact breaks_items_iff items (stops_cons (by decide) []) rfl
  | .object fields => by
      rw [Json.stringify, breaks_cons (by decide)]
      exact breaks_fields_iff fields (stops_cons (by decide) []) rfl

theorem breaks_items_iff {closing : List Char} : (items : List Json) → Stops closing →
    breaks closing = [] →
      (breaks (Runtime.stringifyItems items ++ closing) = [] ↔ ItemsUnbroken items)
  | [], _, unbroken => iff_of_true unbroken trivial
  | item :: rest, stops, unbroken => by
      rw [Runtime.stringifyItems, List.append_assoc,
        breaks_append_eq_nil_iff (stops_moreItems rest closing stops), breaks_stringify_iff item,
        breaks_moreItems_iff rest stops unbroken]
      rfl

theorem breaks_moreItems_iff {closing : List Char} : (items : List Json) → Stops closing →
    breaks closing = [] →
      (breaks (Runtime.stringifyMoreItems items ++ closing) = [] ↔ ItemsUnbroken items)
  | [], _, unbroken => iff_of_true unbroken trivial
  | item :: rest, stops, unbroken => by
      rw [Runtime.stringifyMoreItems, List.cons_append, breaks_cons (by decide), List.append_assoc,
        breaks_append_eq_nil_iff (stops_moreItems rest closing stops), breaks_stringify_iff item,
        breaks_moreItems_iff rest stops unbroken]
      rfl

theorem breaks_fields_iff {closing : List Char} : (fields : List (String × Json)) →
    Stops closing → breaks closing = [] →
      (breaks (Runtime.stringifyFields fields ++ closing) = [] ↔ FieldsUnbroken fields)
  | [], _, unbroken => iff_of_true unbroken trivial
  | (name, value) :: rest, stops, unbroken => by
      rw [Runtime.stringifyFields, List.append_assoc, List.cons_append,
        breaks_append_eq_nil_iff (stops_cons (by decide) _), breaks_cons (by decide),
        List.append_assoc, breaks_append_eq_nil_iff (stops_moreFields rest closing stops),
        breaks_quoteText_eq_nil_iff, breaks_stringify_iff value,
        breaks_moreFields_iff rest stops unbroken]
      rfl

theorem breaks_moreFields_iff {closing : List Char} : (fields : List (String × Json)) →
    Stops closing → breaks closing = [] →
      (breaks (Runtime.stringifyMoreFields fields ++ closing) = [] ↔ FieldsUnbroken fields)
  | [], _, unbroken => iff_of_true unbroken trivial
  | (name, value) :: rest, stops, unbroken => by
      rw [Runtime.stringifyMoreFields, List.cons_append, breaks_cons (by decide),
        List.append_assoc, List.cons_append, breaks_append_eq_nil_iff (stops_cons (by decide) _),
        breaks_cons (by decide), List.append_assoc,
        breaks_append_eq_nil_iff (stops_moreFields rest closing stops),
        breaks_quoteText_eq_nil_iff, breaks_stringify_iff value,
        breaks_moreFields_iff rest stops unbroken]
      rfl

end

theorem breaks_stringify?_iff (value : Option Json) :
    breaks (stringify value) = [] ↔ ∀ json ∈ value, IsUnbroken json := by
  cases value with
  | none => exact iff_of_true (by decide) nofun
  | some json =>
      refine (breaks_stringify_iff json).trans ⟨?_, fun all => all json rfl⟩
      rintro unbroken _ ⟨⟩
      exact unbroken

end Houdini.React
