import Houdini.GraphQL.Reading

/-! When the text of a string is read as its value. -/

set_option autoImplicit false

namespace GraphQL

def Spells (text : List Char) (char : Char) : Prop :=
  ∀ rest, readString (text ++ rest) =
    (readString rest).map fun read => (char :: read.1, read.2)

def Unreadable (text : List Char) : Prop := ∀ rest, readString (text ++ rest) = none

theorem spells_plain {char : Char} (source : isSource char = true)
    (plain : char ≠ '"' ∧ char ≠ '\\' ∧ char ≠ '\n' ∧ char ≠ '\r') : Spells [char] char := by
  intro rest
  obtain ⟨quote, backslash, newline, return_⟩ := plain
  rw [List.singleton_append, readString]
  · rw [if_pos (by simp [source, backslash, isLineTerminator, newline, return_])]
    cases readString rest <;> rfl
  · exact quote
  · exact fun _ _ _ _ _ same _ => backslash same
  · exact fun _ _ same _ => backslash same

theorem spells_simple {escaped char : Char} (escape : simpleEscape escaped = some char) :
    Spells ['\\', escaped] char := by
  intro rest
  have other : escaped ≠ 'u' := by
    rintro rfl
    have none : simpleEscape 'u' = none := by decide
    rw [none] at escape
    cases escape
  change readString ('\\' :: escaped :: rest) = _
  rw [readString]
  · rw [escape]
    cases readString rest <;> rfl
  · exact fun _ _ _ _ _ same _ => other same

theorem spells_unicode {first second third fourth char : Char}
    (escape : unicodeEscape first second third fourth = some char) :
    Spells ['\\', 'u', first, second, third, fourth] char := by
  intro rest
  change readString ('\\' :: 'u' :: first :: second :: third :: fourth :: rest) = _
  rw [readString, escape]
  cases readString rest <;> rfl

theorem unreadable_escape {escaped : Char} (unknown : simpleEscape escaped = none)
    (other : escaped ≠ 'u') (text : List Char) : Unreadable ('\\' :: escaped :: text) := by
  intro rest
  rw [List.cons_append, List.cons_append, readString]
  · rw [unknown]
    rfl
  · exact fun _ _ _ _ _ same _ => other same

theorem readString_flatMap {write : Char → List Char} {fine : Char → Prop}
    (spells : ∀ char, fine char → Spells (write char) char)
    (unreadable : ∀ char, ¬ fine char → Unreadable (write char)) (value rest : List Char) :
    ((∀ char ∈ value, fine char) →
        readString (value.flatMap write ++ '"' :: rest) = some (value, rest)) ∧
      ((¬ ∀ char ∈ value, fine char) → readString (value.flatMap write ++ '"' :: rest) = none) := by
  induction value with
  | nil => exact ⟨fun _ => by simp [readString], fun bad => absurd (List.forall_mem_nil _) bad⟩
  | cons char value ih =>
      rw [List.flatMap_cons, List.append_assoc, List.forall_mem_cons]
      by_cases first : fine char
      · rw [spells char first]
        constructor
        · intro all
          rw [ih.1 all.2]
          rfl
        · intro bad
          rw [ih.2 fun all => bad ⟨first, all⟩]
          rfl
      · exact ⟨fun all => absurd all.1 first, fun _ => unreadable char first _⟩

theorem scan_string {rest : List Char} (single : ∀ more, rest ≠ '"' :: '"' :: more) :
    scan ('"' :: rest) =
      match readString rest with
      | some (value, rest) => .token (.string value) rest
      | none => .failed := by
  rewrite [scan]
  · cases readString rest <;> rfl
  · exact single

theorem Reads.string {write : Char → List Char} {fine : Char → Prop}
    (spells : ∀ char, fine char → Spells (write char) char)
    (unreadable : ∀ char, ¬ fine char → Unreadable (write char))
    (begins : ∀ char, ∀ rest, write char ≠ [] ∧ write char ≠ '"' :: rest) (value : List Char) :
    Reads ('"' :: value.flatMap write ++ ['"']) [.string value] (∀ char ∈ value, fine char) := by
  intro rest bounded others
  obtain ⟨good, bad⟩ := readString_flatMap spells unreadable value rest
  have single : ∀ more, value.flatMap write ++ '"' :: rest ≠ '"' :: '"' :: more := by
    intro more same
    cases value with
    | nil =>
        -- the next token would have to go on with the closing quote
        cases rest with
        | nil => cases same
        | cons next rest =>
            obtain rfl : next = '"' := by simpa using (List.cons.inj (List.cons.inj same).2).1
            exact absurd (bounded '"' rfl) (by decide)
    | cons char value =>
        rw [List.flatMap_cons, List.append_assoc] at same
        obtain ⟨nonempty, other⟩ := begins char ((write char).tail)
        cases written : write char with
        | nil => exact nonempty written
        | cons first tail =>
            rw [written] at same other
            exact other (by rw [(List.cons.inj same).1, List.tail_cons])
  have text : '"' :: value.flatMap write ++ ['"'] ++ rest =
      '"' :: (value.flatMap write ++ '"' :: rest) := by simp
  rw [text]
  by_cases fineAll : ∀ char ∈ value, fine char
  · rw [lex_token (scan_string single |>.trans (by rw [good fineAll]))]
    simp only [List.cons_append, List.nil_append, map_cons_eq_some_iff]
    exact (and_iff_right fineAll).symm
  · rw [lex_failed (scan_string single |>.trans (by rw [bad fineAll]))]
    exact iff_of_false nofun fun both => fineAll both.1

theorem scan_block (rest : List Char) :
    scan ('"' :: '"' :: '"' :: rest) =
      match readBlock rest with
      | some (content, rest) => .token (.block (blockStringValue content)) rest
      | none => .failed := by
  rewrite [scan]
  cases readBlock rest <;> rfl

theorem lex_quote {text : List Char} {token : Token} {tokens : List Token}
    (success : lex ('"' :: text) = some (token :: tokens)) (name : List Char) :
    token ≠ .name name := by
  by_cases block : ∃ more, text = '"' :: '"' :: more
  · obtain ⟨more, rfl⟩ := block
    have scanned := scan_block more
    cases read : readBlock more with
    | none =>
        rw [read] at scanned
        rw [lex_failed scanned] at success
        cases success
    | some found =>
        rw [read] at scanned
        rw [lex_token scanned] at success
        obtain ⟨_, _, same⟩ := Option.map_eq_some_iff.mp success
        cases same
        exact nofun
  · have scanned := scan_string fun more same => block ⟨more, same⟩
    cases read : readString text with
    | none =>
        rw [read] at scanned
        rw [lex_failed scanned] at success
        cases success
    | some found =>
        rw [read] at scanned
        rw [lex_token scanned] at success
        obtain ⟨_, _, same⟩ := Option.map_eq_some_iff.mp success
        cases same
        exact nofun

theorem Reads.mismatch (text name : List Char) (tokens : List Token) :
    Reads ('"' :: text) (.name name :: tokens) False :=
  fun _ _ _ => iff_of_false (fun success => lex_quote success name rfl) And.left

def Kept (char : Char) : Prop := isWhite char = false ∧ isLineTerminator char = false

theorem count_eq_zero_of_white {char : Char} (kept : Kept char) {text : List Char}
    (white : text.all isWhite = true) : text.count char = 0 := by
  refine List.count_eq_zero.mpr fun member => ?_
  have blank := List.all_eq_true.mp white char member
  rw [kept.1] at blank
  cases blank

theorem count_lines {char : Char} (kept : Kept char) (text : List Char) :
    (lines text).flatten.count char = text.count char := by
  have other (line : Char) (ends : isLineTerminator line = true) : line ≠ char := by
    rintro rfl
    rw [kept.2] at ends
    cases ends
  fun_induction lines text with
  | case1 => rfl
  | case2 rest ih =>
      rw [List.flatten_cons, List.nil_append, ih,
        List.count_cons_of_ne (other '\r' (by decide)), List.count_cons_of_ne (other '\n' (by decide))]
  | case3 line rest _ ends ih =>
      rw [List.flatten_cons, List.nil_append, ih, List.count_cons_of_ne (other line ends)]
  | case4 line rest _ _ empty ih =>
      rw [empty] at ih
      rw [List.count_cons, ← ih]
      simp [List.count_cons]
  | case5 line rest _ _ first others split ih =>
      rw [split] at ih
      rw [List.count_cons, ← ih]
      simp [List.count_cons]

theorem commonIndent_le {others : List (List Char)} {line : List Char} (member : line ∈ others)
    (filled : isBlank line = false) :
    commonIndent others ≤ (line.takeWhile isWhite).length := by
  unfold commonIndent
  have indented : (line.takeWhile isWhite).length ∈
      others.filterMap indent? :=
    List.mem_filterMap.mpr ⟨line, member, by simp [indent?, filled]⟩
  cases least : (others.filterMap indent?).min? with
  | none => exact Nat.zero_le _
  | some indent => exact (List.min?_eq_some_iff.mp least).2 _ indented

theorem count_drop {char : Char} (kept : Kept char) {line : List Char} {indent : Nat}
    (white : isBlank line = true ∨
      indent ≤ (line.takeWhile isWhite).length) :
    (line.drop indent).count char = line.count char := by
  have dropped : (line.take indent).count char = 0 := by
    refine count_eq_zero_of_white kept (List.all_eq_true.mpr fun other member => ?_)
    rcases white with blank | indented
    · exact List.all_eq_true.mp blank other (List.mem_of_mem_take member)
    · have whole : line.takeWhile isWhite ++ line.dropWhile isWhite = line :=
        List.takeWhile_append_dropWhile
      rw [← whole, List.take_append_of_le_length indented] at member
      exact List.mem_takeWhile_imp (List.mem_of_mem_take member)
  have whole := congrArg (List.count char) (List.take_append_drop indent line)
  rw [List.count_append, dropped, Nat.zero_add] at whole
  exact whole

theorem count_flatten_dropWhile {char : Char} (kept : Kept char) (lines : List (List Char)) :
    (lines.dropWhile isBlank).flatten.count char = lines.flatten.count char := by
  induction lines with
  | nil => rfl
  | cons line rest ih =>
      rw [List.dropWhile_cons]
      split
      · next blank =>
          rw [ih, List.flatten_cons, List.count_append, count_eq_zero_of_white kept blank,
            Nat.zero_add]
      · rfl

theorem count_flatten_rdropWhile {char : Char} (kept : Kept char) (lines : List (List Char)) :
    (lines.rdropWhile isBlank).flatten.count char = lines.flatten.count char := by
  have reversed (lines : List (List Char)) :
      lines.reverse.flatten.count char = lines.flatten.count char := by
    rw [List.count_flatten, List.count_flatten, List.map_reverse, List.sum_reverse]
  rw [List.rdropWhile, reversed, count_flatten_dropWhile kept, reversed]

theorem count_intercalate {char : Char} (kept : Kept char) (lines : List (List Char)) :
    (['\n'].intercalate lines).count char = lines.flatten.count char := by
  have other : '\n' ≠ char := by
    rintro rfl
    exact absurd kept.2 (by decide)
  induction lines with
  | nil => rfl
  | cons line rest ih =>
      cases rest with
      | nil => simp
      | cons second rest =>
          rw [List.intercalate_cons_cons, List.count_append, List.count_append, ih,
            List.flatten_cons, List.count_append, List.count_singleton]
          simp [other]

theorem count_blockStringValue {char : Char} (kept : Kept char) (content : List Char) :
    (blockStringValue content).count char = content.count char := by
  rw [← count_lines kept content, blockStringValue]
  cases lines content with
  | nil => rfl
  | cons first others =>
      dsimp only
      rw [count_intercalate kept, count_flatten_rdropWhile kept, count_flatten_dropWhile kept,
        List.flatten_cons, List.flatten_cons, List.count_append, List.count_append]
      refine congrArg _ ?_
      rw [List.count_flatten, List.count_flatten, List.map_map]
      refine congrArg List.sum (List.map_congr_left fun line member => count_drop kept ?_)
      by_cases blank : isBlank line = true
      · exact Or.inl blank
      · exact Or.inr (commonIndent_le member (by simpa using blank))

structure IsBlock (value : List Char) : Prop where
  quotes : ¬ ['"', '"', '"'] <:+: value
  last : ∀ char ∈ value.getLast?, char ≠ '"' ∧ char ≠ '\\'
  source : ∀ char ∈ value, isSource char = true
  dedented : blockStringValue value = value

theorem readBlock_split {text content rest : List Char}
    (success : readBlock text = some (content, rest)) :
    ∃ written, text = written ++ '"' :: '"' :: '"' :: rest ∧
      written.count '"' = content.count '"' ∧
      (content = written ∨ content.count '\\' < written.count '\\') := by
  fun_induction readBlock text generalizing content with
  | case1 => cases success
  | case2 rest =>
      cases success
      exact ⟨[], rfl, rfl, Or.inl rfl⟩
  | case3 tail ih =>
      simp only [bind, Option.bind_eq_some_iff] at success
      obtain ⟨⟨inner, after⟩, read, same⟩ := success
      cases same
      obtain ⟨written, split, quotes, backslashes⟩ := ih read
      refine ⟨'\\' :: '"' :: '"' :: '"' :: written, by rw [split]; rfl, ?_, Or.inr ?_⟩
      · simp [quotes]
      · rcases backslashes with rfl | fewer
        · simp
        · simp
          omega
  | case4 char tail _ _ _ ih =>
      simp only [bind, Option.bind_eq_some_iff] at success
      obtain ⟨⟨inner, after⟩, read, same⟩ := success
      cases same
      obtain ⟨written, split, quotes, backslashes⟩ := ih read
      refine ⟨char :: written, by rw [split]; rfl, ?_, ?_⟩
      · rw [List.count_cons, List.count_cons, quotes]
      · rcases backslashes with rfl | fewer
        · exact Or.inl rfl
        · refine Or.inr ?_
          rw [List.count_cons, List.count_cons]
          exact Nat.add_lt_add_right fewer _
  | case5 => cases success

theorem readBlock_append {value : List Char} (quotes : ¬ ['"', '"', '"'] <:+: value)
    (last : ∀ char ∈ value.getLast?, char ≠ '"' ∧ char ≠ '\\')
    (source : ∀ char ∈ value, isSource char = true) (rest : List Char) :
    readBlock (value ++ '"' :: '"' :: '"' :: rest) = some (value, rest) := by
  induction value with
  | nil => rw [List.nil_append, readBlock]
  | cons char value ih =>
      have below := ih (fun infixed => quotes (List.infix_cons infixed))
        (fun other member => last other (by
          rw [List.getLast?_cons, Option.mem_def.mp member]
          rfl))
        fun other member => source other (List.mem_cons_of_mem _ member)
      rw [List.cons_append, readBlock, if_pos (source char List.mem_cons_self), below]
      · rfl
      · -- the quotes do not close the string here
        rintro more rfl same
        rcases value with _ | ⟨first, _ | ⟨second, value⟩⟩
        · exact (last '"' rfl).1 rfl
        · obtain rfl : first = '"' := (List.cons.inj same).1
          exact (last '"' rfl).1 rfl
        · obtain ⟨rfl, rfl, _⟩ : first = '"' ∧ second = '"' ∧ _ := by simpa using same
          exact quotes ⟨[], value, rfl⟩
      · -- nor are they escaped
        rintro more rfl same
        rcases value with _ | ⟨first, _ | ⟨second, _ | ⟨third, value⟩⟩⟩
        · exact (last '\\' rfl).2 rfl
        · obtain rfl : first = '"' := (List.cons.inj same).1
          exact (last '"' rfl).1 rfl
        · obtain ⟨rfl, rfl, _⟩ : first = '"' ∧ second = '"' ∧ _ := by simpa using same
          exact (last '"' rfl).1 rfl
        · obtain ⟨rfl, rfl, rfl, _⟩ : first = '"' ∧ second = '"' ∧ third = '"' ∧ _ := by
            simpa using same
          exact quotes ⟨['\\'], value, rfl⟩

theorem readBlock_of_append {value rest : List Char}
    (read : readBlock (value ++ '"' :: '"' :: '"' :: rest) = some (value, rest)) :
    ¬ ['"', '"', '"'] <:+: value ∧ (∀ char ∈ value.getLast?, char ≠ '"' ∧ char ≠ '\\') ∧
      ∀ char ∈ value, isSource char = true := by
  induction value with
  | nil => exact ⟨by decide, nofun, List.forall_mem_nil _⟩
  | cons char value ih =>
      by_cases closing : char = '"' ∧ ∃ more,
          value ++ '"' :: '"' :: '"' :: rest = '"' :: '"' :: more
      · obtain ⟨rfl, more, same⟩ := closing
        rw [List.cons_append, same, readBlock] at read
        cases read
      by_cases escaped : char = '\\' ∧ ∃ more,
          value ++ '"' :: '"' :: '"' :: rest = '"' :: '"' :: '"' :: more
      · obtain ⟨rfl, more, same⟩ := escaped
        rw [List.cons_append, same, readBlock] at read
        simp only [bind, Option.bind_eq_some_iff] at read
        obtain ⟨_, _, same⟩ := read
        cases same
      rw [List.cons_append, readBlock] at read
      · split at read
        · next source =>
            simp only [bind, Option.bind_eq_some_iff] at read
            obtain ⟨⟨content, after⟩, inner, same⟩ := read
            have equal : content = value ∧ after = rest := by simpa using same
            rw [equal.1, equal.2] at inner
            obtain ⟨quotes, last, others⟩ := ih inner
            refine ⟨?_, ?_, List.forall_mem_cons.mpr ⟨source, others⟩⟩
            · intro infixed
              rcases List.infix_cons_iff.mp infixed with start | later
              · obtain ⟨tail, whole⟩ := start
                obtain ⟨same, rest_eq⟩ := List.cons.inj whole
                refine closing ⟨same.symm, tail ++ '"' :: '"' :: '"' :: rest, ?_⟩
                rw [← rest_eq]
                rfl
              · exact quotes later
            · cases value with
              | cons second value => simpa [List.getLast?_cons_cons] using last
              | nil =>
                  rintro _ ⟨⟩
                  exact ⟨fun same => closing ⟨same, _, rfl⟩, fun same => escaped ⟨same, _, rfl⟩⟩
        · cases read
      · exact fun more same tail => closing ⟨same, more, tail⟩
      · exact fun more same tail => escaped ⟨same, more, tail⟩

theorem readBlock_whole {value content rest after : List Char}
    (read : readBlock (value ++ '"' :: '"' :: '"' :: rest) = some (content, after))
    (same : blockStringValue content = value) : content = value ∧ after = rest := by
  obtain ⟨written, split, quotes, backslashes⟩ := readBlock_split read
  have sameQuotes : value.count '"' = written.count '"' := by
    rw [quotes, ← count_blockStringValue ⟨by decide, by decide⟩ content, same]
  -- the longer one of the two would have more quotes
  have equal : written = value ∧ rest = after := by
    rcases List.append_eq_append_iff.mp split with ⟨tail, whole, others⟩ | ⟨tail, whole, others⟩
    · cases tail with
      | nil => exact ⟨by rw [whole, List.append_nil], by simpa using others⟩
      | cons quote tail =>
          rw [whole, ← (List.cons.inj others).1, List.count_append, List.count_cons_self]
            at sameQuotes
          omega
    · cases tail with
      | nil => exact ⟨by rw [whole, List.append_nil], by simpa using others.symm⟩
      | cons quote tail =>
          rw [whole, ← (List.cons.inj others).1, List.count_append, List.count_cons_self]
            at sameQuotes
          omega
  obtain ⟨rfl, rfl⟩ := equal
  refine ⟨?_, rfl⟩
  rcases backslashes with whole | fewer
  · exact whole
  · have other : Kept '\\' := ⟨by decide, by decide⟩
    have kept := count_blockStringValue other content
    rw [same] at kept
    omega

theorem Reads.block (value : List Char) :
    Reads ('"' :: '"' :: '"' :: (value ++ ['"', '"', '"'])) [.block value] (IsBlock value) := by
  intro rest bounded others
  have text : '"' :: '"' :: '"' :: (value ++ ['"', '"', '"']) ++ rest =
      '"' :: '"' :: '"' :: (value ++ '"' :: '"' :: '"' :: rest) := by simp
  rw [text]
  have scanned := scan_block (value ++ '"' :: '"' :: '"' :: rest)
  constructor
  · intro success
    cases read : readBlock (value ++ '"' :: '"' :: '"' :: rest) with
    | none =>
        rw [read] at scanned
        rw [lex_failed scanned] at success
        cases success
    | some found =>
        obtain ⟨content, after⟩ := found
        rw [read] at scanned
        rw [lex_token scanned] at success
        obtain ⟨tokens, lexed, same⟩ := Option.map_eq_some_iff.mp success
        obtain ⟨first, tail⟩ := List.cons.inj same
        have dedented : blockStringValue content = value := Token.block.inj first
        obtain ⟨rfl, rfl⟩ := readBlock_whole read dedented
        obtain ⟨quotes, last, source⟩ := readBlock_of_append read
        exact ⟨⟨quotes, last, source, dedented⟩, by rw [lexed, tail]; rfl⟩
  · rintro ⟨⟨quotes, last, source, dedented⟩, lexed⟩
    rw [readBlock_append quotes last source, ] at scanned
    dsimp only at scanned
    rw [lex_token scanned, lexed, dedented]
    rfl

end GraphQL
