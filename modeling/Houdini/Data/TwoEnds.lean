import Mathlib.Data.List.Nodup

/-! Lists that grow at both ends. Chunks that are concatenated one after the other end up in
another order than the same entries when each is put outermost at its end, or innermost at the
start: when the two agree. -/

set_option autoImplicit false

universe u

namespace List

variable {Entry : Type u}

theorem length_le_one_of_reverse {entries : List Entry} (nodup : entries.Nodup)
    (same : entries.reverse = entries) : entries.length ≤ 1 := by
  cases entries with
  | nil => exact Nat.zero_le 1
  | cons first rest =>
      rcases rest.eq_nil_or_concat with rfl | ⟨middle, last, rfl⟩
      · exact Nat.le_refl 1
      · simp at same
        obtain ⟨rfl, _⟩ := same
        simp at nodup

theorem length_le_one_of_flatten {chunks : List (List Entry)}
    (nonempty : ∀ chunk ∈ chunks, chunk ≠ []) (nodup : chunks.flatten.Nodup)
    (same : chunks.flatten = chunks.reverse.flatten) : chunks.length ≤ 1 := by
  cases chunks with
  | nil => exact Nat.zero_le 1
  | cons first rest =>
      rcases rest.eq_nil_or_concat with rfl | ⟨middle, last, rfl⟩
      · exact Nat.le_refl 1
      · cases first with
        | nil => exact absurd rfl (nonempty _ mem_cons_self)
        | cons entry others =>
            cases last with
            | nil => exact absurd rfl (nonempty [] (by simp))
            | cons other lasts =>
                simp at same
                obtain ⟨rfl, _⟩ := same
                simp at nodup

theorem eq_nil_of_append_eq {first other back rest : List Entry}
    (same : first ++ rest = other ++ back) (nonempty : first ≠ [])
    (apart : ∀ entry ∈ first, entry ∉ other) : other = [] := by
  cases other with
  | nil => rfl
  | cons entry others =>
      cases first with
      | nil => exact absurd rfl nonempty
      | cons head tail =>
          have equal : head = entry := (cons.inj same).1
          exact absurd (by simp [equal]) (apart head mem_cons_self)

theorem eq_nil_of_append_eq' {front back last other : List Entry}
    (same : front ++ last = back ++ other) (nonempty : last ≠ [])
    (apart : ∀ entry ∈ last, entry ∉ other) : other = [] := by
  have backwards : last.reverse ++ front.reverse = other.reverse ++ back.reverse := by
    rw [← reverse_append, ← reverse_append, same]
  have empty := eq_nil_of_append_eq backwards (by simpa using nonempty) (by simpa using apart)
  simpa using empty

/-- Chunks before a list and entries after it, in the order of their insertion and in the order
that concatenation gives them. -/
theorem ends_eq_iff {prepended : List (List Entry)}
    {appended before counted shownStart shownEnd : List Entry}
    (nonempty : ∀ chunk ∈ prepended, chunk ≠ [])
    (nodupStart : prepended.flatten.Nodup) (nodupEnd : appended.Nodup)
    (apartStart : ∀ entry ∈ prepended.flatten, entry ∉ shownStart)
    (apartEnd : ∀ entry ∈ appended, entry ∉ shownEnd) :
    prepended.flatten ++ before ++ appended.reverse =
        shownStart ++ (prepended.reverse.flatten ++ counted ++ appended) ++ shownEnd ↔
      before = shownStart ++ counted ++ shownEnd ∧ (prepended ≠ [] → shownStart = []) ∧
        (appended ≠ [] → shownEnd = []) ∧ prepended.length ≤ 1 ∧ appended.length ≤ 1 := by
  constructor
  · intro same
    have starts : (prepended ≠ [] → shownStart = []) ∧ prepended.length ≤ 1 ∧
        before ++ appended.reverse = shownStart ++ counted ++ appended ++ shownEnd := by
      by_cases none : prepended = []
      · subst none
        exact ⟨fun some => absurd rfl some, Nat.zero_le 1, by simpa using same⟩
      · have filled : prepended.flatten ≠ [] := by
          intro empty
          obtain ⟨chunk, member⟩ := exists_mem_of_ne_nil _ none
          exact nonempty chunk member (flatten_eq_nil_iff.mp empty chunk member)
        have begins : prepended.flatten ++ (before ++ appended.reverse) =
            shownStart ++ (prepended.reverse.flatten ++ counted ++ appended ++ shownEnd) := by
          simpa only [append_assoc] using same
        obtain rfl := eq_nil_of_append_eq begins filled apartStart
        have lengths : prepended.flatten.length = prepended.reverse.flatten.length := by
          simp [length_flatten]
        rw [nil_append] at begins
        simp only [append_assoc] at begins
        obtain ⟨chunks, rest⟩ := append_inj begins lengths
        exact ⟨fun _ => rfl, length_le_one_of_flatten nonempty nodupStart chunks,
          by simpa only [nil_append, append_assoc] using rest⟩
    obtain ⟨unshownStart, oneStart, same⟩ := starts
    by_cases none : appended = []
    · subst none
      exact ⟨by simpa using same, unshownStart, fun some => absurd rfl some, oneStart,
        Nat.zero_le 1⟩
    · obtain rfl : shownEnd = [] := eq_nil_of_append_eq' same (by simpa using none)
        fun entry member => apartEnd entry (mem_reverse.mp member)
      rw [append_nil] at same
      obtain ⟨rest, ends⟩ := append_inj' same (by simp)
      exact ⟨by simpa using rest, unshownStart, fun _ => rfl, oneStart,
        length_le_one_of_reverse nodupEnd ends⟩
  · intro agree
    obtain ⟨rfl, unshownStart, unshownEnd, oneStart, oneEnd⟩ := agree
    have chunks : prepended.reverse = prepended := by
      match prepended, oneStart with
      | [], _ => rfl
      | [_], _ => rfl
    have entries : appended.reverse = appended := by
      match appended, oneEnd with
      | [], _ => rfl
      | [_], _ => rfl
    rw [chunks, entries]
    by_cases noStart : prepended = []
    · subst noStart
      by_cases noEnd : appended = []
      · simp [noEnd]
      · simp [unshownEnd noEnd]
    · by_cases noEnd : appended = []
      · simp [noEnd, unshownStart noStart]
      · simp [unshownEnd noEnd, unshownStart noStart]

end List
