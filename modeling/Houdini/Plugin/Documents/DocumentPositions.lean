import Houdini.Plugin.Documents.ProcessFile
import Mathlib.Data.List.Nodup

/-! No two documents of a file have the same position. -/

set_option autoImplicit false

namespace Houdini.Plugin.Extraction

theorem searchLine_before (positions : List Nat) (absPos : Nat) (steps lo hi : Nat)
    (before : lo = 0 ∨ positions.getD (lo - 1) 0 < absPos) :
    searchLine positions absPos steps lo hi = 0 ∨
      positions.getD (searchLine positions absPos steps lo hi - 1) 0 < absPos := by
  induction steps generalizing lo hi with
  | zero => exact before
  | succ steps ih =>
      rw [searchLine]
      split
      · dsimp only
        split
        · next earlier => exact ih _ _ (.inr earlier)
        · exact ih _ _ before
      · exact before

theorem lineAndColumn_injective (text : Text) : Function.Injective (lineAndColumn text) := by
  intro place other same
  have placeBefore := searchLine_before (newlinePositions text) place
    (newlinePositions text).length 0 (newlinePositions text).length (.inl rfl)
  have otherBefore := searchLine_before (newlinePositions text) other
    (newlinePositions text).length 0 (newlinePositions text).length (.inl rfl)
  rw [lineAndColumn, lineAndColumn] at same
  generalize searchLine (newlinePositions text) place _ 0 _ = line at same placeBefore
  generalize searchLine (newlinePositions text) other _ 0 _ = otherLine at same otherBefore
  have lines : line = otherLine := by
    have first := congrArg Prod.fst same
    split at first <;> split at first <;> exact first
  subst lines
  have columns := congrArg Prod.snd same
  by_cases zero : line = 0
  · rwa [if_pos zero, if_pos zero] at columns
  · rw [if_neg zero, if_neg zero] at columns
    have placeLater := placeBefore.resolve_left zero
    have otherLater := otherBefore.resolve_left zero
    dsimp only at columns
    omega

theorem mem_findAll {regex : Text → Option Found} {start skip : Nat} {text : Text}
    {found : Nat × Found} (member : found ∈ findAll regex start skip text) :
    ∃ behind, skip ≤ behind ∧ found.1 = start + behind ∧
      regex (text.drop behind) = some found.2 := by
  induction text generalizing start skip with
  | nil => cases skip <;> cases member
  | cons char rest ih =>
      cases skip with
      | succ skip =>
          obtain ⟨behind, later, place, matched⟩ := ih member
          exact ⟨behind + 1, by omega, by omega, matched⟩
      | zero =>
          rw [findAll] at member
          cases here : regex (char :: rest) with
          | none =>
              rw [here] at member
              obtain ⟨behind, later, place, matched⟩ := ih member
              exact ⟨behind + 1, by omega, by omega, matched⟩
          | some first =>
              rw [here] at member
              cases member with
              | head => exact ⟨0, Nat.le_refl 0, rfl, here⟩
              | tail _ member =>
                  obtain ⟨behind, later, place, matched⟩ := ih member
                  exact ⟨behind + 1, by omega, by omega, matched⟩

theorem findAll_pairwise {regex : Text → Option Found}
    (filled : ∀ text found, regex text = some found → 0 < found.length) (start skip : Nat)
    (text : Text) : (findAll regex start skip text).Pairwise fun first second =>
      first.1 + first.2.length ≤ second.1 := by
  induction text generalizing start skip with
  | nil => cases skip <;> exact List.Pairwise.nil
  | cons char rest ih =>
      cases skip with
      | succ skip => exact ih _ _
      | zero =>
          rw [findAll]
          cases here : regex (char :: rest) with
          | none => exact ih _ _
          | some first =>
              refine List.Pairwise.cons (fun second member => ?_) (ih _ _)
              obtain ⟨behind, later, place, _⟩ := mem_findAll member
              have long := filled _ _ here
              dsimp only
              omega

theorem matchQuery_length {last : Char} {text : Text} {sizes : Nat × Nat}
    (matched : matchQuery last text = some sizes) : sizes.1 < sizes.2 := by
  induction text using matchQuery.induct last generalizing sizes with
  | case1 => cases matched
  | case2 => cases matched
  | case3 next rest =>
      rw [matchQuery, if_pos rfl, Option.map_eq_some_iff] at matched
      obtain ⟨length, _, rfl⟩ := matched
      exact Nat.succ_pos length
  | case4 char next rest notQuote escaped content length inner ih =>
      rw [matchQuery, if_neg notQuote, if_pos escaped, inner] at matched
      cases matched
      exact Nat.add_lt_add_right (ih inner) 2
  | case5 char next rest notQuote escaped inner _ ih =>
      rw [matchQuery, if_neg notQuote, if_pos escaped, inner] at matched
      obtain ⟨other, found, rfl⟩ := Option.map_eq_some_iff.mp matched
      exact Nat.add_lt_add_right (ih found) 1
  | case6 char next rest notQuote notEscaped ih =>
      rw [matchQuery, if_neg notQuote, if_neg notEscaped] at matched
      obtain ⟨other, found, rfl⟩ := Option.map_eq_some_iff.mp matched
      exact Nat.add_lt_add_right (ih found) 1

def Opened (opening : Char) (text : Text) (place : Nat) : Prop :=
  ∃ count, count + 2 ≤ place ∧ text[place - 2 - count]? = some opening ∧
    ∀ index < count, ∃ char, text[place - 2 - index]? = some char ∧ isSpace char = true

theorem spaces_of_lt {text : Text} {index : Nat} (among : index < spaces text) :
    ∃ char, text[index]? = some char ∧ isSpace char = true := by
  obtain ⟨tail, whole⟩ := @List.takeWhile_prefix _ text isSpace
  have inside : index < (text.takeWhile isSpace).length := among
  have char := List.getElem_mem inside
  refine ⟨_, ?_, List.all_eq_true.mp List.all_takeWhile _ char⟩
  have left : text[index]? = (text.takeWhile isSpace ++ tail)[index]? := by rw [whole]
  rw [left, List.getElem?_append_left inside, List.getElem?_eq_getElem inside]

theorem opened_of_prefix {name text : Text} {opening : Char} {start : Nat}
    (named : name.isPrefixOf (text.drop start) = true) (ends : name.getLast? = some opening) :
    Opened opening text (start + name.length + spaces (text.drop (start + name.length)) + 1) := by
  obtain ⟨tail, whole⟩ := List.isPrefixOf_iff_prefix.mp named
  have filled : 0 < name.length := by
    cases name with
    | nil => cases ends
    | cons _ _ => exact Nat.succ_pos _
  refine ⟨spaces (text.drop (start + name.length)), by omega, ?_, fun index among => ?_⟩
  · have place : start + name.length + spaces (text.drop (start + name.length)) + 1 - 2 -
        spaces (text.drop (start + name.length)) = start + (name.length - 1) := by omega
    rw [place, ← List.getElem?_drop, ← whole, List.getElem?_append_left (by omega),
      ← List.getLast?_eq_getElem?, ends]
  · have inside : spaces (text.drop (start + name.length)) - 1 - index <
        spaces (text.drop (start + name.length)) := by omega
    obtain ⟨char, here, space⟩ := spaces_of_lt inside
    refine ⟨char, ?_, space⟩
    rw [List.getElem?_drop] at here
    rw [← here]
    congr 1
    omega

theorem Opened.drop {opening : Char} {text : Text} {behind place : Nat}
    (opened : Opened opening (text.drop behind) place) : Opened opening text (behind + place) := by
  obtain ⟨count, short, first, between⟩ := opened
  refine ⟨count, by omega, ?_, fun index among => ?_⟩
  · rw [List.getElem?_drop] at first
    rw [← first]
    congr 1
    omega
  · obtain ⟨char, here, space⟩ := between index among
    refine ⟨char, ?_, space⟩
    rw [List.getElem?_drop] at here
    rw [← here]
    congr 1
    omega

theorem Opened.unique {opening other : Char} {text : Text} {place : Nat}
    (opened : Opened opening text place) (otherOpened : Opened other text place)
    (visible : isSpace opening = false) (otherVisible : isSpace other = false) :
    opening = other := by
  obtain ⟨count, _, first, between⟩ := opened
  obtain ⟨otherCount, _, otherFirst, otherBetween⟩ := otherOpened
  rcases Nat.lt_trichotomy count otherCount with less | same | more
  · obtain ⟨char, here, space⟩ := otherBetween count less
    rw [first] at here
    cases here
    rw [visible] at space
    cases space
  · subst same
    rw [first] at otherFirst
    exact Option.some.inj otherFirst
  · obtain ⟨char, here, space⟩ := between otherCount more
    rw [otherFirst] at here
    cases here
    rw [otherVisible] at space
    cases space

theorem graphqlRegex_opened {text : Text} {found : Found}
    (matched : graphqlRegex text = some found) :
    found.contentAt < found.length ∧ Opened '(' text found.contentAt := by
  rw [graphqlRegex] at matched
  split at matched
  · next conditions =>
      obtain ⟨sizes, query, rfl⟩ := Option.map_eq_some_iff.mp matched
      rw [Bool.and_eq_true] at conditions
      have named : "graphql(".toList.isPrefixOf (text.drop 0) = true := conditions.1
      have opened : Opened '(' text _ := opened_of_prefix named (by decide)
      have sized := matchQuery_length query
      refine ⟨by dsimp only; omega, ?_⟩
      simpa using opened
  · cases matched

theorem componentFieldRegex_opened {text : Text} {found : Found}
    (matched : componentFieldRegex text = some found) :
    found.contentAt < found.length ∧ Opened '<' text found.contentAt := by
  rw [componentFieldRegex] at matched
  split at matched
  · next conditions =>
      obtain ⟨sizes, query, rfl⟩ := Option.map_eq_some_iff.mp matched
      rw [Bool.and_eq_true, Bool.and_eq_true] at conditions
      have opened : Opened '<' text _ := opened_of_prefix conditions.1.2 (by decide)
      have sized := matchQuery_length query
      exact ⟨by dsimp only; omega, opened⟩
  · cases matched

def queryPlaces (text : Text) : List Nat :=
  (findAll graphqlRegex 0 0 text ++ findAll componentFieldRegex 0 0 text).map fun found =>
    found.1 + found.2.contentAt

theorem nodup_places {regex : Text → Option Found}
    (inside : ∀ text found, regex text = some found → found.contentAt < found.length)
    (text : Text) :
    ((findAll regex 0 0 text).map fun found => found.1 + found.2.contentAt).Nodup := by
  have apart := findAll_pairwise
    (fun text found matched => Nat.zero_lt_of_lt (inside text found matched)) 0 0 text
  rw [List.Nodup, List.pairwise_map]
  refine apart.imp_of_mem fun member _ before => ?_
  obtain ⟨_, _, _, matched⟩ := mem_findAll member
  have early := inside _ _ matched
  omega

theorem opened_of_mem_findAll {regex : Text → Option Found} {opening : Char}
    (opens : ∀ text found, regex text = some found → Opened opening text found.contentAt)
    {text : Text} {found : Nat × Found} (member : found ∈ findAll regex 0 0 text) :
    Opened opening text (found.1 + found.2.contentAt) := by
  obtain ⟨behind, _, place, matched⟩ := mem_findAll member
  rw [place, Nat.zero_add]
  exact (opens _ _ matched).drop

theorem nodup_queryPlaces (text : Text) : (queryPlaces text).Nodup := by
  rw [queryPlaces, List.map_append, List.nodup_append]
  refine ⟨nodup_places (fun _ _ matched => (graphqlRegex_opened matched).1) text,
    nodup_places (fun _ _ matched => (componentFieldRegex_opened matched).1) text, ?_⟩
  intro place call other field same
  obtain ⟨found, member, rfl⟩ := List.mem_map.mp call
  obtain ⟨otherFound, otherMember, rfl⟩ := List.mem_map.mp field
  have opened := opened_of_mem_findAll (fun _ _ matched => (graphqlRegex_opened matched).2) member
  have otherOpened := opened_of_mem_findAll
    (fun _ _ matched => (componentFieldRegex_opened matched).2) otherMember
  rw [← same] at otherOpened
  exact absurd (opened.unique otherOpened rfl rfl) (by decide)

theorem nodup_processFile (filePath original : Text) :
    ((processFile filePath original).map fun doc =>
      (doc.offsetRow, doc.offsetColumn)).Nodup := by
  rw [processFile]
  split
  · exact List.nodup_singleton _
  · have places := (nodup_queryPlaces (stripComments original)).map
      (lineAndColumn_injective original)
    rw [queryPlaces, List.map_map] at places
    rw [List.map_map]
    exact places

theorem filePath_of_mem_processFile {filePath original : Text} {doc : DiscoveredDocument}
    (member : doc ∈ processFile filePath original) : doc.filePath = filePath := by
  rw [processFile] at member
  split at member
  · rw [List.mem_singleton.mp member]
  · obtain ⟨found, _, rfl⟩ := List.mem_map.mp member
    rfl

end Houdini.Plugin.Extraction
