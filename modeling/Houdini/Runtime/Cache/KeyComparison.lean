import Houdini.Runtime.KeyNames

/-! When an evaluated template is a given text. Both are compared part by part: whatever follows a
part, they are the same just if the part gives the text and what follows is the same. -/

set_option autoImplicit false

namespace Houdini.Runtime.Cache

open GraphQLValue (NumericFields Delimited isDelimiter stringifyChar stringifyString)
open KeyState (emitted)

def Tidy (text : List Char) : Prop :=
  ∀ before after, text = before ++ '\\' :: after → '"' ∈ before

theorem tidy_cons {char : Char} (plain : char ≠ '\\') {text : List Char} (tidy : Tidy text) :
    Tidy (char :: text) := by
  intro before after same
  cases before with
  | nil => exact absurd (List.cons.inj same).1 plain
  | cons first before =>
      exact List.mem_cons_of_mem _ (tidy before after (List.cons.inj same).2)

theorem tidy_quote (text : List Char) : Tidy ('"' :: text) := by
  intro before after same
  cases before with
  | nil => exact absurd (List.cons.inj same).1 (by decide)
  | cons first before => exact (List.cons.inj same).1 ▸ List.mem_cons_self

theorem tidy_append {text rest : List Char} (plain : '\\' ∉ text) (tidy : Tidy rest) :
    Tidy (text ++ rest) := by
  induction text with
  | nil => exact tidy
  | cons char text ih =>
      exact tidy_cons (fun same => plain (same ▸ List.mem_cons_self))
        (ih fun member => plain (List.mem_cons_of_mem _ member))

structure Followed (text : List Char) : Prop where
  delimited : Delimited text
  tidy : Tidy text

namespace KeyToken

def scanned (inString : Bool) : List KeyToken → Bool
  | [] => inString
  | .plain char :: rest => scanned (if char = '"' then !inString else inString) rest
  | .reference _ :: rest => scanned inString rest

theorem scanned_append (inString : Bool) (tokens rest : List KeyToken) :
    scanned inString (tokens ++ rest) = scanned (scanned inString tokens) rest := by
  induction tokens generalizing inString with
  | nil => rfl
  | cons token tokens ih =>
      cases token with
      | plain char => exact ih _
      | reference name => exact ih _

theorem quoted_append (inString : Bool) (tokens rest : List KeyToken) :
    Quoted inString (tokens ++ rest) ↔
      Quoted inString tokens ∧ Quoted (scanned inString tokens) rest := by
  induction tokens generalizing inString with
  | nil => exact iff_of_eq (true_and _).symm
  | cons token tokens ih =>
      cases token with
      | plain char => exact (and_congr_right fun _ => ih _).trans and_assoc.symm
      | reference name => exact (and_congr_right fun _ => ih _).trans and_assoc.symm

end KeyToken

theorem templateText_map_plain (text : List Char) : templateText (text.map .plain) = text := by
  induction text with
  | nil => rfl
  | cons char rest ih => exact congrArg (List.cons char) ih

theorem quoted_map_plain {text : List Char} (plain : '$' ∉ text) (inString : Bool) :
    KeyToken.Quoted inString (text.map .plain) := by
  induction text generalizing inString with
  | nil => trivial
  | cons char rest ih =>
      exact ⟨fun dollar => absurd (dollar ▸ List.mem_cons_self) plain,
        ih (fun member => plain (List.mem_cons_of_mem _ member)) _⟩

theorem quoted_string (inString : Bool) (text : List Char) :
    KeyToken.Quoted inString (('"' :: (text ++ ['"'])).map .plain) ↔
      KeyToken.Quoted (!inString) (text.map .plain) := by
  rw [List.map_cons, List.map_append, KeyToken.Quoted, KeyToken.quoted_append]
  simp [KeyToken.Quoted]

theorem scanned_string (inString : Bool) (text : List Char) :
    KeyToken.scanned inString (('"' :: (text ++ ['"'])).map .plain) =
      !KeyToken.scanned (!inString) (text.map .plain) := by
  rw [List.map_cons, List.map_append, KeyToken.scanned, KeyToken.scanned_append]
  simp [KeyToken.scanned]

section Scanner

variable {vars : GraphQLObject}

theorem emitted_cons_iff (numeric : NumericFields vars) {inString : Bool} {char : Char}
    {chars others : List Char} :
    emitted vars inString [] (char :: chars) = char :: others ↔
      (char = '$' → inString = true) ∧
        emitted vars (if char = '"' then !inString else inString) [] chars = others := by
  by_cases quoted : char = '$' → inString = true
  · rw [KeyState.emitted_char quoted, List.cons_inj_right]
    exact ⟨fun same => ⟨quoted, same⟩, fun both => both.2⟩
  · obtain ⟨rfl, outside⟩ := Classical.not_imp.mp quoted
    rw [Bool.not_eq_true] at outside
    rw [outside]
    exact iff_of_false (KeyState.emitted_varName numeric false [] _ _)
      fun both => Bool.noConfusion (both.1 rfl)

theorem emitted_plainChar {inString : Bool} {char : Char} (plain : char ≠ '$')
    (chars : List Char) :
    emitted vars inString [] (char :: chars) =
      char :: emitted vars (if char = '"' then !inString else inString) [] chars :=
  KeyState.emitted_char (fun dollar => absurd dollar plain) chars

theorem emitted_append_iff (numeric : NumericFields vars) {inString : Bool}
    {text chars others : List Char} :
    emitted vars inString [] (text ++ chars) = text ++ others ↔
      KeyToken.Quoted inString (text.map .plain) ∧
        emitted vars (KeyToken.scanned inString (text.map .plain)) [] chars = others := by
  induction text generalizing inString with
  | nil => exact iff_of_eq (true_and _).symm
  | cons char text ih =>
      rw [List.cons_append, List.cons_append, emitted_cons_iff numeric, ih]
      exact and_assoc.symm

theorem emitted_append {inString : Bool} {text : List Char} (plain : '$' ∉ text)
    (chars : List Char) :
    emitted vars inString [] (text ++ chars) =
      text ++ emitted vars (KeyToken.scanned inString (text.map .plain)) [] chars := by
  induction text generalizing inString with
  | nil => rfl
  | cons char text ih =>
      rw [List.cons_append, KeyState.emitted_char fun dollar =>
        absurd (dollar ▸ List.mem_cons_self) plain]
      exact congrArg (List.cons char) (ih fun member => plain (List.mem_cons_of_mem _ member))

theorem emitted_delimited {text : List Char} (delimited : Delimited text) (inString : Bool) :
    Delimited (emitted vars inString [] text) := by
  obtain ⟨char, rest, rfl, delimiter⟩ := delimited
  refine ⟨char, _, KeyState.emitted_char (fun dollar => ?_) rest, delimiter⟩
  rw [dollar] at delimiter
  exact absurd delimiter (by decide)

theorem emitted_tidy {text : List Char} (tidy : Tidy text) :
    Tidy (emitted vars true [] text) := by
  induction text with
  | nil =>
      intro before after same
      have empty : ([] : List Char) = before ++ '\\' :: after := same
      cases before <;> cases empty
  | cons char text ih =>
      rw [KeyState.emitted_char fun _ => rfl]
      by_cases quote : char = '"'
      · rw [quote]
        exact tidy_quote _
      · rw [if_neg quote]
        have rest : Tidy text := fun before after same => by
          have found := tidy (char :: before) after (congrArg (List.cons char) same)
          exact (List.mem_cons.mp found).resolve_left (Ne.symm quote)
        refine tidy_cons (fun backslash => ?_) (ih rest)
        exact absurd (tidy [] text (congrArg (· :: text) backslash)) List.not_mem_nil

end Scanner

/-- The part gives the text just if they are alike and the scanner sees the part as it is. -/
structure Renders (vars : GraphQLObject) (tokens : List KeyToken) (text : List Char)
    (alike : Prop) : Prop where
  tidy : ∀ {rest : List Char}, Tidy rest → Tidy (templateText tokens ++ rest)
  iff : ∀ {inString : Bool} {rest others : List Char}, Followed rest → Delimited others →
    (emitted vars inString [] (templateText tokens ++ rest) = text ++ others ↔
      (alike ∧ KeyToken.Quoted inString tokens) ∧
        emitted vars (KeyToken.scanned inString tokens) [] rest = others)

namespace Renders

variable {vars : GraphQLObject} {tokens rest : List KeyToken} {text others : List Char}
  {alike alikeRest : Prop}

theorem nil : Renders vars [] [] True :=
  ⟨fun tidy => tidy, fun _ _ => by
    simp only [KeyToken.Quoted, true_and]
    rfl⟩

theorem congr (renders : Renders vars tokens text alike) (same : alike ↔ alikeRest) :
    Renders vars tokens text alikeRest := propext same ▸ renders

theorem plain (numeric : NumericFields vars) (renders : Renders vars tokens text alike)
    {char : Char} (notBackslash : char ≠ '\\') :
    Renders vars (.plain char :: tokens) (char :: text) alike :=
  ⟨fun tidy => tidy_cons notBackslash (renders.tidy tidy), fun followed delimited => by
    refine (emitted_cons_iff numeric).trans ((and_congr_right fun _ =>
      renders.iff followed delimited).trans ?_)
    exact ⟨fun ⟨quoted, both, tails⟩ => ⟨⟨both.1, quoted, both.2⟩, tails⟩,
      fun ⟨⟨isAlike, quoted, later⟩, tails⟩ => ⟨quoted, ⟨isAlike, later⟩, tails⟩⟩⟩

theorem plains (numeric : NumericFields vars) (renders : Renders vars tokens text alike)
    {name : List Char} (noBackslash : '\\' ∉ name) :
    Renders vars (name.map .plain ++ tokens) (name ++ text) alike := by
  induction name with
  | nil => exact renders
  | cons char name ih =>
      exact (ih fun member => noBackslash (List.mem_cons_of_mem _ member)).plain numeric
        fun same => noBackslash (same ▸ List.mem_cons_self)

theorem ofText (numeric : NumericFields vars) {name : List Char} (noBackslash : '\\' ∉ name) :
    Renders vars (name.map .plain) name True := by
  have both := Renders.nil.plains numeric noBackslash
  rwa [List.append_nil, List.append_nil] at both

theorem append (renders : Renders vars tokens text alike) {char : Char}
    (delimiter : isDelimiter char = true) (rendersRest : Renders vars (.plain char :: rest)
      (char :: others) alikeRest) :
    Renders vars (tokens ++ .plain char :: rest) (text ++ char :: others) (alike ∧ alikeRest) := by
  refine ⟨fun tidy => ?_, fun {inString after more} followed delimited => ?_⟩
  · rw [templateText, List.flatMap_append, List.append_assoc]
    exact renders.tidy (rendersRest.tidy tidy)
  · have between : Followed (templateText (.plain char :: rest) ++ after) :=
      ⟨⟨char, _, rfl, delimiter⟩, rendersRest.tidy followed.tidy⟩
    have later : Delimited (char :: others ++ more) := ⟨char, _, rfl, delimiter⟩
    rw [templateText, List.flatMap_append, List.append_assoc, List.append_assoc]
    refine (renders.iff between later).trans ?_
    rw [rendersRest.iff followed delimited, KeyToken.quoted_append, KeyToken.scanned_append]
    exact ⟨fun ⟨⟨first, seen⟩, ⟨second, seenRest⟩, tails⟩ =>
        ⟨⟨⟨first, second⟩, seen, seenRest⟩, tails⟩,
      fun ⟨⟨⟨first, second⟩, seen, seenRest⟩, tails⟩ =>
        ⟨⟨first, seen⟩, ⟨second, seenRest⟩, tails⟩⟩

theorem number (numeric : NumericFields vars) {digits printed : List Char}
    (plain : ∀ char ∈ digits, char ∈ "+-.0123456789eE".toList)
    (plainOther : ∀ char ∈ printed, GraphQLValue.isPlain char = true) :
    Renders vars (digits.map .plain) printed (digits = printed) := by
  have known : ∀ char ∈ "+-.0123456789eE".toList, GraphQLValue.isPlain char = true :=
    List.all_iff_forall_prop.mp (by decide)
  have backslash : '\\' ∉ digits := fun member => absurd (plain _ member) (by decide)
  have dollar : '$' ∉ digits := fun member => absurd (plain _ member) (by decide)
  refine ⟨(Renders.ofText numeric backslash).tidy, fun {inString after others} followed
    delimited => ?_⟩
  rw [templateText_map_plain, emitted_append dollar, GraphQLValue.append_eq_iff
    (GraphQLValue.afterValue_plains fun char member => known char (plain char member))
    (GraphQLValue.afterValue_plains plainOther)
    (emitted_delimited followed.delimited _) delimited]
  exact and_congr_left fun _ => (and_iff_left (quoted_map_plain dollar inString)).symm

end Renders

/-- A printer escapes the quotes of a string. What it prints otherwise than JSON prints it cannot be
mistaken for that, and is no dollar sign. -/
structure Escapes (print : Char → List Char) : Prop where
  quote : print '"' = ['\\', '"']
  dollar : ∀ {char : Char}, print char ≠ stringifyChar char → '$' ∉ print char
  apart : ∀ {char : Char} {text others : List Char},
    print char ++ text = stringifyChar char ++ others →
      print char = stringifyChar char ∧ text = others

section Strings

variable {vars : GraphQLObject} {print : Char → List Char}

theorem emitted_flatMap_iff (numeric : NumericFields vars) (escapes : Escapes print)
    {inString : Bool} {chars rest others : List Char} :
    emitted vars inString [] (chars.flatMap print ++ rest) =
        chars.flatMap stringifyChar ++ others ↔
      ((∀ char ∈ chars, print char = stringifyChar char) ∧
        KeyToken.Quoted inString ((chars.flatMap print).map .plain)) ∧
        emitted vars (KeyToken.scanned inString ((chars.flatMap print).map .plain)) [] rest =
          others := by
  induction chars generalizing inString with
  | nil =>
      simp only [List.not_mem_nil, false_implies, implies_true, true_and]
      exact iff_of_eq (true_and _).symm
  | cons char chars ih =>
      rw [List.flatMap_cons, List.flatMap_cons, List.append_assoc, List.append_assoc,
        List.forall_mem_cons, List.map_append, KeyToken.quoted_append, KeyToken.scanned_append]
      by_cases alike : print char = stringifyChar char
      · rw [← alike, emitted_append_iff numeric, ih]
        constructor
        · rintro ⟨first, ⟨later, seen⟩, tails⟩
          exact ⟨⟨⟨rfl, later⟩, first, seen⟩, tails⟩
        · rintro ⟨⟨⟨_, later⟩, first, seen⟩, tails⟩
          exact ⟨first, ⟨later, seen⟩, tails⟩
      · refine iff_of_false ?_ fun both => alike both.1.1.1
        rw [emitted_append (escapes.dollar alike)]
        exact fun same => alike (escapes.apart same).1

/-- What is printed for a string is the text of an argument just if every character is printed as
JSON prints it and no name is left out. -/
theorem Renders.string (numeric : NumericFields vars) (escapes : Escapes print) (value : String) :
    Renders vars (('"' :: (value.toList.flatMap print ++ ['"'])).map .plain)
      (unquoteNames (stringifyString value))
      ((∀ char ∈ value.toList, print char = stringifyChar char) ∧ ¬ Renamed value) := by
  refine ⟨fun _ => ?_, fun {inString after others} followed delimited => ?_⟩
  · rw [templateText_map_plain]
    exact tidy_quote _
  have opened (text : List Char) : emitted vars inString [] ('"' :: text) =
      '"' :: emitted vars (!inString) [] text := emitted_plainChar (by decide) text
  have whole : stringifyString value =
      '"' :: (value.toList.flatMap stringifyChar ++ ['"']) := rfl
  rw [templateText_map_plain, Renamed, renamed_iff, not_or, Bool.not_eq_true, Bool.not_eq_true,
    unquoteNames, whole, List.length_cons, List.cons_append, opened]
  cases closes : closesName value.toList with
  | true =>
      obtain ⟨name, more, unquoted, plain⟩ := unquoteNamesWithin_closes closes
        (value.toList.flatMap stringifyChar ++ ['"']).length
      refine iff_of_false ?_ fun both => Bool.noConfusion both.1.1.2.1
      rw [unquoted]
      cases name with
      | nil => exact fun same => absurd (List.cons.inj same).1 (by decide)
      | cons first name =>
          intro same
          exact plain ((List.cons.inj same).1 ▸ List.mem_cons_self)
  | false =>
      rw [unquoteNamesWithin_stays closes, List.cons_append, List.cons_inj_right, List.append_assoc]
      cases renamed : namesAfter value.toList with
      | false =>
          rw [unquoteNamesWithin_string renamed le_rfl, List.append_assoc,
            emitted_flatMap_iff numeric escapes]
          simp only [List.cons_append, List.nil_append]
          rw [emitted_plainChar (by decide), List.cons_inj_right, quoted_string, scanned_string]
          simp
      | true =>
          obtain ⟨before, rest, name, more, same, plain, unquoted⟩ :=
            unquoteNamesWithin_renamed renamed le_rfl
          refine iff_of_false ?_ fun both => Bool.noConfusion both.1.1.2.2
          rw [unquoted, same, List.flatMap_append, List.flatMap_cons, escapes.quote]
          simp only [List.cons_append, List.append_assoc, List.nil_append]
          rw [emitted_flatMap_iff numeric escapes, emitted_plainChar (by decide),
            emitted_plainChar (by decide), List.cons_inj_right]
          rintro ⟨_, quoteFirst⟩
          cases name with
          | nil => exact absurd (List.cons.inj quoteFirst).1 (by decide)
          | cons first name => exact plain ((List.cons.inj quoteFirst).1 ▸ List.mem_cons_self)

theorem Renders.quoted {text printed : List Char}
    (differs : ∀ rest others, Delimited others → '"' :: rest ≠ printed ++ others) :
    Renders vars (('"' :: text).map .plain) printed False := by
  refine ⟨fun _ => ?_, fun _ delimited => iff_of_false ?_ fun both => both.1.1⟩
  · rw [templateText_map_plain]
    exact tidy_quote _
  · rw [templateText_map_plain, List.cons_append, emitted_plainChar (by decide)]
    exact differs _ _ delimited

theorem Renders.block (value : String) (text : List Char) :
    Renders vars (('"' :: '"' :: '"' :: text).map .plain) (unquoteNames (stringifyString value))
      False := by
  refine ⟨fun _ => ?_, fun _ delimited => iff_of_false ?_ fun both => both.1.1⟩
  · rw [templateText_map_plain]
    exact tidy_quote _
  obtain ⟨next, more, rfl, delimiter⟩ := delimited
  have whole : stringifyString value =
      '"' :: (value.toList.flatMap stringifyChar ++ ['"']) := rfl
  rw [templateText_map_plain, unquoteNames, whole, List.length_cons]
  simp only [List.cons_append]
  rw [emitted_plainChar (by decide), emitted_plainChar (by decide), emitted_plainChar (by decide)]
  cases closes : closesName value.toList with
  | true =>
      obtain ⟨name, rest, unquoted, plain⟩ := unquoteNamesWithin_closes closes
        (value.toList.flatMap stringifyChar ++ ['"']).length
      rw [unquoted]
      cases name with
      | nil => exact fun same => absurd (List.cons.inj same).1 (by decide)
      | cons first name =>
          intro same
          exact plain ((List.cons.inj same).1 ▸ List.mem_cons_self)
  | false =>
      rw [unquoteNamesWithin_stays closes]
      intro same
      have tails := (List.cons.inj same).2
      cases characters : value.toList with
      | nil =>
          rw [characters] at tails
          have isQuote : '"' = next := (List.cons.inj (List.cons.inj tails).2).1
          rw [← isQuote] at delimiter
          exact absurd delimiter (by decide)
      | cons char chars =>
          obtain ⟨first, rest, isText, fromChar⟩ := stringifyChar_head char
          have notQuote : first ≠ '"' := by
            rintro rfl
            rcases fromChar with backslash | isChar
            · exact absurd backslash (by decide)
            · subst isChar
              exact absurd (List.cons.inj isText).1 (by decide)
          rw [characters, List.flatMap_cons, isText] at tails
          simp only [List.cons_append, List.length_cons] at tails
          rw [unquoteNamesWithin, if_neg notQuote] at tails
          exact notQuote (List.cons.inj tails).1.symm

end Strings

def orNull : GraphQLValue → GraphQLValue
  | .undefined | .null => .null
  | value => value

section References

variable {vars : GraphQLObject}

theorem variableText_eq (name : String) :
    variableText vars name =
      ((orNull (vars.property name)).stringify).getD "undefined".toList := by
  unfold variableText
  cases vars.property name <;> rfl

theorem numeric_orNull {value : GraphQLValue} (numeric : value.Numeric) :
    (orNull value).Numeric := by
  cases value <;> exact numeric

/-- The text of an argument does not begin with a dollar sign, except for a string without its
first quote. -/
theorem argumentText_head {value : GraphQLValue} {printed : List Char} (numeric : value.Numeric)
    (computed : value.argumentText = .ok printed) :
    (∃ first rest, printed = first :: rest ∧ first ≠ '$') ∨
      ∃ name more, printed = name ++ '\\' :: more ∧ '"' ∉ name := by
  cases value with
  | undefined => cases computed
  | component => cases computed
  | null =>
      obtain rfl := Except.ok.inj computed
      exact .inl ⟨'n', "ull".toList, unquoteNames_plain (by decide), by decide⟩
  | boolean value =>
      obtain rfl := Except.ok.inj computed
      cases value with
      | false => exact .inl ⟨'f', "alse".toList, unquoteNames_plain (by decide), by decide⟩
      | true => exact .inl ⟨'t', "rue".toList, unquoteNames_plain (by decide), by decide⟩
  | number digits =>
      obtain rfl := Except.ok.inj computed
      obtain ⟨first, rest, text, notDollar, _⟩ :=
        GraphQLValue.stringify_head numeric (rfl : (GraphQLValue.number digits).stringify = _)
      rw [unquoteNames_plain (GraphQLValue.not_mem_number numeric)]
      exact .inl ⟨first, rest, text, notDollar⟩
  | string value =>
      obtain rfl := Except.ok.inj computed
      have whole : stringifyString value =
          '"' :: (value.toList.flatMap stringifyChar ++ ['"']) := rfl
      rw [unquoteNames, whole, List.length_cons]
      cases closes : closesName value.toList with
      | true => exact .inr (unquoteNamesWithin_closes closes _)
      | false => exact .inl ⟨'"', _, unquoteNamesWithin_stays closes _, by decide⟩
  | array items =>
      obtain ⟨texts, _, rfl⟩ := GraphQLValue.argumentText_array computed
      exact .inl ⟨'[', _, rfl, by decide⟩
  | object fields =>
      obtain ⟨texts, _, rfl⟩ := GraphQLValue.argumentText_object computed
      exact .inl ⟨Char.ofNat 123, _, rfl, by decide⟩

theorem Renders.reference (numeric : NumericFields vars) {name : String}
    (isName : ∀ char ∈ name.toList, isVarChar char = true) {printed : List Char}
    (computed : (orNull (vars.property name)).argumentText = .ok printed) :
    Renders vars [.reference name] printed (orNull (vars.property name)).Flat := by
  have known := numeric_orNull (GraphQLValue.Numeric.property numeric name)
  have plain {char : Char} (notName : isVarChar char = false) : char ∉ name.toList :=
    fun member => Bool.false_ne_true (notName.symm.trans (isName char member))
  have text (rest : List Char) : templateText [.reference name] ++ rest =
      '$' :: (name.toList ++ rest) := by
    simp [templateText, KeyToken.text]
  have tidy {rest : List Char} (tidyRest : Tidy rest) : Tidy ('$' :: (name.toList ++ rest)) :=
    tidy_cons (by decide) (tidy_append (plain (by decide)) tidyRest)
  refine ⟨fun tidyRest => text _ ▸ tidy tidyRest, fun {inString rest others} followed
    delimited => ?_⟩
  rw [text]
  cases inString with
  | false =>
      obtain ⟨json, isJson⟩ := GraphQLValue.stringify_of_argumentText computed
      obtain ⟨char, more, rfl, delimiter⟩ := followed.delimited
      have ends : isVarChar char = false := by
        have all : ∀ char ∈ [',', ')', ']', Char.ofNat 125, ' '],
            isVarChar char = false := List.all_iff_forall_prop.mp (by decide)
        exact all char (by simpa [isDelimiter] using delimiter)
      rw [KeyState.emitted_dollar, KeyState.emitted_name isName, List.nil_append,
        KeyState.emitted_close ends, String.ofList_toList, variableText_eq, isJson,
        Option.getD_some, GraphQLValue.stringify_eq_iff known isJson computed
          (emitted_delimited followed.delimited false) delimited]
      exact and_congr_left fun _ => (and_iff_left ⟨rfl, trivial⟩).symm
  | true =>
      refine iff_of_false ?_ fun both => Bool.noConfusion both.1.2.1
      rcases argumentText_head known computed with ⟨first, more, rfl, notDollar⟩ |
        ⟨unquoted, more, rfl, noQuote⟩
      · rw [KeyState.emitted_char fun _ => rfl]
        exact fun same => notDollar (List.cons.inj same).1.symm
      · intro same
        have isTidy := @emitted_tidy vars _ (tidy followed.tidy)
        rw [same, List.append_assoc] at isTidy
        exact noQuote (isTidy unquoted (more ++ others) rfl)

end References

end Houdini.Runtime.Cache
