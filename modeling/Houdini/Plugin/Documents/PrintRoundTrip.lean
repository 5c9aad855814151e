import Houdini.Plugin.Documents.PrintedDefinition

/-! When the text of a document is parsed as the document again. -/

set_option autoImplicit false

namespace Houdini.Plugin

open GraphQL (Token Reads ReadsEach Opens IsToken Spells Unreadable word enclosed)

theorem hexValue_hexDigit (digit : Nat) :
    GraphQL.hexValue (hexDigit (digit % 16)) = some (digit % 16) := by
  have all : ∀ digit < 16, GraphQL.hexValue (hexDigit digit) = some digit := by decide +kernel
  exact all _ (Nat.mod_lt _ (by decide))

theorem spells_hexDigits {char : Char} (small : char.toNat < 65536) :
    Spells ('\\' :: 'u' :: hexDigits 4 char.toNat) char := by
  refine GraphQL.spells_unicode ?_
  have whole : ((char.toNat / 16 / 16 / 16 % 16 * 16 + char.toNat / 16 / 16 % 16) * 16 +
      char.toNat / 16 % 16) * 16 + char.toNat % 16 = char.toNat := by omega
  unfold GraphQL.unicodeEscape
  simp only [hexValue_hexDigit, bind, Option.bind_some, whole]
  have valid : char.toNat.isValidChar := char.valid
  unfold GraphQL.charOf
  rw [if_pos valid, Char.ofNat_toNat]

theorem spells_short {char escaped : Char} {code : Nat} (same : char.toNat = code)
    (known : GraphQL.simpleEscape escaped = some (Char.ofNat code)) :
    Spells ['\\', escaped] char := by
  refine GraphQL.spells_simple ?_
  rw [known, ← same, Char.ofNat_toNat]

section Quoted

variable {isPrint : Char → Bool}

theorem quotedChar_spells (source : PrintsNoControl isPrint) {char : Char} (printsBack : PrintsBackChar isPrint char) :
    Spells (quotedChar isPrint char) char := by
  unfold quotedChar
  split
  · next special =>
      refine GraphQL.spells_simple ?_
      rcases special with rfl | rfl <;> decide
  next plain =>
  split
  · next printable =>
      have high := source char printable
      refine GraphQL.spells_plain (by simp [GraphQL.isSource, high]) ⟨?_, ?_, ?_, ?_⟩
      · exact fun same => plain (Or.inl same)
      · exact fun same => plain (Or.inr same)
      · rintro rfl
        exact absurd high (by decide)
      · rintro rfl
        exact absurd high (by decide)
  next unprintable =>
  have escaped : char.toNat ∈ [8, 9, 10, 12, 13] ∨
      (32 ≤ char.toNat ∧ char.toNat ≠ 127 ∧ char.toNat < 65536) := by
    rcases printsBack with quote | backslash | printable | escaped
    · exact absurd (Or.inl quote) plain
    · exact absurd (Or.inr backslash) plain
    · exact absurd printable unprintable
    · exact escaped
  rcases escaped with short | ⟨high, other, low⟩
  · simp only [List.mem_cons, List.not_mem_nil, or_false] at short
    rcases short with code | code | code | code | code <;>
      simp only [code, Nat.reduceEqDiff, if_false, if_true] <;>
      exact spells_short code (by decide)
  · have codes (code : Nat) (below : code < 32) : char.toNat ≠ code := by omega
    rw [if_neg (codes 7 (by decide)), if_neg (codes 8 (by decide)), if_neg (codes 12 (by decide)),
      if_neg (codes 10 (by decide)), if_neg (codes 13 (by decide)), if_neg (codes 9 (by decide)),
      if_neg (codes 11 (by decide)), if_neg (by omega), if_pos low]
    exact spells_hexDigits low

theorem quotedChar_unreadable {char : Char} (other : ¬ PrintsBackChar isPrint char) :
    Unreadable (quotedChar isPrint char) := by
  unfold PrintsBackChar at other
  simp only [not_or, List.mem_cons, List.not_mem_nil, not_and, not_false_eq_true,
    and_true] at other
  obtain ⟨quote, backslash, unprintable, ⟨eight, nine, ten, twelve, thirteen⟩, unicode⟩ := other
  have unknown (escaped : Char) (text : List Char)
      (none : escaped ∈ ['a', 'v', 'x', 'U']) : Unreadable ('\\' :: escaped :: text) := by
    have all : ∀ escaped ∈ ['a', 'v', 'x', 'U'],
        GraphQL.simpleEscape escaped = Option.none ∧ escaped ≠ 'u' :=
      List.all_iff_forall_prop.mp (by decide)
    exact GraphQL.unreadable_escape (all escaped none).1 (all escaped none).2 text
  unfold quotedChar
  rw [if_neg (by simp [quote, backslash]), if_neg unprintable, if_neg eight, if_neg twelve,
    if_neg ten, if_neg thirteen, if_neg nine]
  split
  · exact unknown 'a' [] (by decide)
  split
  · exact unknown 'v' [] (by decide)
  split
  · exact unknown 'x' _ (by decide)
  · rw [if_neg (by omega)]
    exact unknown 'U' _ (by decide)

theorem quotedChar_begins (char : Char) (rest : List Char) :
    quotedChar isPrint char ≠ [] ∧ quotedChar isPrint char ≠ '"' :: rest := by
  have first : ∃ begin ∈ (quotedChar isPrint char).head?, begin ≠ '"' := by
    by_cases special : char = '"' ∨ char = '\\'
    · refine ⟨'\\', ?_, by decide⟩
      unfold quotedChar
      rw [if_pos special]
      rfl
    · by_cases printable : isPrint char = true
      · refine ⟨char, ?_, fun same => special (Or.inl same)⟩
        unfold quotedChar
        rw [if_neg special, if_pos printable]
        rfl
      · refine ⟨'\\', ?_, by decide⟩
        unfold quotedChar
        rw [if_neg special, if_neg printable]
        split_ifs <;> rfl
  obtain ⟨begin, found, other⟩ := first
  constructor
  · intro empty
    rw [empty] at found
    cases found
  · intro same
    rw [same] at found
    exact other (Option.some.inj found).symm

theorem quotedText_reads (source : PrintsNoControl isPrint) (text : String) :
    Reads (quotedText isPrint text) [.string text.toList]
      (∀ char ∈ text.toList, PrintsBackChar isPrint char) :=
  Reads.string (fun _ => quotedChar_spells source) (fun _ => quotedChar_unreadable)
    quotedChar_begins text.toList

theorem joinTexts_comma (texts : List (List Char)) :
    joinTexts ", " texts = [',', ' '].intercalate texts := rfl

theorem joinTexts_reads {texts : List (List Char)} {tokens : List Token} {fine : Prop}
    (each : ReadsEach texts tokens fine) : Reads (joinTexts ", " texts) tokens fine := by
  rw [joinTexts_comma]
  exact each.intercalate (by decide) (List.all_iff_forall_prop.mp (by decide))

theorem joinTexts_spaced {texts : List (List Char)} {tokens : List Token} {fine : Prop}
    (each : ReadsEach texts tokens fine) : Reads (joinTexts " " texts) tokens fine := by
  have spaced : joinTexts " " texts = [' '].intercalate texts := rfl
  rw [spaced]
  exact each.intercalate (by decide) (List.all_iff_forall_prop.mp (by decide))

def Prints (printer : PrintM (List Char)) (tokens : List Token) (fine : Prop) : Prop :=
  ∀ used, Reads (printer.run used).1 tokens fine

def PrintsEach (printer : PrintM (List (List Char))) (tokens : List Token) (fine : Prop) : Prop :=
  ∀ used, ReadsEach (printer.run used).1 tokens fine

theorem entry_reads {name : String} {text : List Char} {tokens : List Token} {fine : Prop}
    (isName : IsName name) (reads : Reads text tokens fine) :
    Reads (name.toList ++ ':' :: ' ' :: text) (word name :: .punctuator ':' :: tokens) fine :=
  Reads.word isName (Reads.punctuator (by decide) (Reads.ignored (by decide) reads))
    (.cons (by decide) _)

theorem printLeaf_prints (source : PrintsNoControl isPrint) {kind : ValueKind} {raw : String}
    {children : List (String × ArgumentValue)}
    (wellFormed : (ArgumentValue.mk kind raw children).WellFormed)
    (leaf : kind ≠ .list ∧ kind ≠ .object) :
    Prints (printValue isPrint (.mk kind raw children))
      (ArgumentValue.mk kind raw children).toValue.tokens
      ((ArgumentValue.mk kind raw children).PrintsBack isPrint) := by
  intro used
  cases kind with
  | «variable» =>
      have isName : IsName raw := wellFormed
      exact Reads.punctuator (by decide) (Reads.single isName)
  | int => exact Reads.single wellFormed
  | float => exact Reads.single wellFormed
  | string => exact quotedText_reads source raw
  | block =>
      exact GraphQL.Reads.block raw.toList
  | boolean =>
      have either : raw = "true" ∨ raw = "false" := wellFormed
      rcases either with rfl | rfl
      · have isName : IsName "true" := ⟨by decide, Or.inl rfl⟩
        exact Reads.single isName
      · have isName : IsName "false" := ⟨by decide, Or.inl rfl⟩
        exact Reads.single isName
  | null => exact Reads.mismatch _ _ _
  | enum =>
      have isName : IsName raw := wellFormed.1
      exact Reads.single isName
  | list => exact absurd rfl leaf.1
  | object => exact absurd rfl leaf.2

mutual

theorem printValue_prints (source : PrintsNoControl isPrint) :
    (value : ArgumentValue) → value.WellFormed →
    Prints (printValue isPrint value) value.toValue.tokens (value.PrintsBack isPrint)
  | .mk kind raw children, wellFormed => by
      cases kind with
      | object =>
          intro used
          exact Reads.enclose (by decide) (by decide)
            (joinTexts_reads (printFields_prints source children wellFormed used))
      | list =>
          intro used
          exact Reads.enclose (by decide) (by decide)
            (joinTexts_reads (printValues_prints source children wellFormed used))
      | _ => exact printLeaf_prints source wellFormed (by decide)

theorem printFields_prints (source : PrintsNoControl isPrint) :
    (children : List (String × ArgumentValue)) →
    WellFormedFields children → PrintsEach (printFields isPrint children)
      (GraphQL.entriesTokens (childFields children)) (ChildrenPrintBack isPrint children)
  | [], _ => fun _ => .nil
  | (_, value) :: rest, ⟨isName, first, others⟩ => fun used =>
      .cons (entry_reads isName (printValue_prints source value first used))
        (printFields_prints source rest others _)

theorem printValues_prints (source : PrintsNoControl isPrint) :
    (children : List (String × ArgumentValue)) →
    WellFormedValues children → PrintsEach (printValues isPrint children)
      (GraphQL.valuesTokens (childValues children)) (ChildrenPrintBack isPrint children)
  | [], _ => fun _ => .nil
  | (_, value) :: rest, ⟨first, others⟩ => fun used =>
      .cons (printValue_prints source value first used) (printValues_prints source rest others _)

end

variable (includeHidden : Bool)

theorem forall_mem_some_iff {value : ArgumentValue} {holds : ArgumentValue → Prop} :
    (∀ given ∈ some value, holds given) ↔ holds value :=
  ⟨fun all => all value rfl, fun own _ same => Option.some.inj same ▸ own⟩

theorem printArgument_prints (source : PrintsNoControl isPrint) {argument : Argument}
    (wellFormed : argument.WellFormed) :
    Prints (printArgument isPrint includeHidden argument)
      (GraphQL.entryTokens argument.toEntry) (argument.PrintsBack isPrint) := by
  intro used
  obtain ⟨name, value, directives⟩ := argument
  obtain ⟨isName, given, rfl⟩ := wellFormed
  have text : ((printArgument isPrint includeHidden (.mk name value [])).run used).1 =
      name.toList ++ ':' :: ' ' :: ((printValue? isPrint value).run used).1 := List.append_nil _
  rw [text]
  cases value with
  | none =>
      have isNull : IsName "null" := ⟨by decide, Or.inl rfl⟩
      refine (entry_reads isName (Reads.single isNull)).congr ?_
      exact iff_of_true trivial nofun
  | some value =>
      exact (entry_reads isName (printValue_prints source value (given value rfl) used)).congr
        forall_mem_some_iff.symm

theorem printEachArgument_prints (source : PrintsNoControl isPrint) {arguments : List Argument}
    (wellFormed : ∀ argument ∈ arguments, argument.WellFormed) :
    PrintsEach (printEachArgument isPrint includeHidden arguments)
      (GraphQL.entriesTokens (arguments.map (·.toEntry))) (ArgumentsPrintBack isPrint arguments) := by
  induction arguments with
  | nil => exact fun _ => ReadsEach.nil.congr (iff_of_true trivial (List.forall_mem_nil _))
  | cons argument rest ih =>
      intro used
      have first := printArgument_prints includeHidden source
        (wellFormed argument List.mem_cons_self) used
      have others := ih fun other member => wellFormed other (List.mem_cons_of_mem _ member)
      exact (ReadsEach.cons first (others _)).congr List.forall_mem_cons.symm

theorem arguments_reads (source : PrintsNoControl isPrint) {arguments : List Argument}
    (wellFormed : ∀ argument ∈ arguments, argument.WellFormed) (used : List String) :
    Reads (if arguments.isEmpty then [] else '(' :: joinTexts ", "
        ((printEachArgument isPrint includeHidden arguments).run used).1 ++ [')'])
      (GraphQL.argumentsTokens (arguments.map (·.toEntry)))
      (ArgumentsPrintBack isPrint arguments) := by
  have each := printEachArgument_prints includeHidden source wellFormed used
  unfold GraphQL.argumentsTokens
  rw [List.isEmpty_map]
  split
  · next empty =>
      rw [List.isEmpty_iff.mp empty]
      exact Reads.nil.congr (iff_of_true trivial (List.forall_mem_nil _))
  · exact Reads.enclose (by decide) (by decide) (joinTexts_reads each)

theorem opens_arguments (empty : Bool) (text : List Char) :
    Opens (if empty then [] else '(' :: text ++ [')']) := by
  split
  · exact .nil
  · exact .cons (by decide) _

theorem printDirective_prints (source : PrintsNoControl isPrint) {directive : Directive}
    (wellFormed : directive.WellFormed) :
    Prints (printDirective isPrint includeHidden directive) directive.toDirective.tokens
      (directive.PrintsBack isPrint) := by
  intro used
  obtain ⟨name, isInternal, arguments⟩ := directive
  obtain ⟨isName, given⟩ := wellFormed
  exact Reads.punctuator (by decide) (Reads.word isName
    (arguments_reads includeHidden source given used) (opens_arguments _ _))

theorem printEachDirective_prints (source : PrintsNoControl isPrint)
    {directives : List Directive} (wellFormed : ∀ directive ∈ directives, directive.WellFormed) :
    PrintsEach (printEachDirective isPrint includeHidden directives)
      (GraphQL.directivesTokens (sentDirectives includeHidden directives))
      (DirectivesPrintBack isPrint includeHidden directives) := by
  induction directives with
  | nil => exact fun _ => ReadsEach.nil.congr (iff_of_true trivial (List.forall_mem_nil _))
  | cons directive rest ih =>
      intro used
      have first := printDirective_prints includeHidden source
        (wellFormed directive List.mem_cons_self)
      have others := ih fun other member => wellFormed other (List.mem_cons_of_mem _ member)
      unfold printEachDirective sentDirectives
      by_cases hidden : (directive.isInternal && !includeHidden) = true
      · have kept : (!directive.isInternal || includeHidden) = false := by
          simpa using hidden
        rw [if_pos hidden, List.filter_cons, if_neg (by simp [kept])]
        refine (others used).congr ?_
        unfold DirectivesPrintBack
        rw [List.forall_mem_cons]
        exact (and_iff_right fun shown => absurd hidden (by simp [shown])).symm
      · have kept : (!directive.isInternal || includeHidden) = true := by
          cases isInternal : directive.isInternal <;> simp_all
        rw [if_neg hidden, List.filter_cons, if_pos kept]
        refine (ReadsEach.cons (first used) (others _)).congr ?_
        unfold DirectivesPrintBack
        rw [List.forall_mem_cons]
        refine and_congr_left' ⟨fun back _ => back, fun back => back (by simpa using hidden)⟩

theorem printDirectives_prints (source : PrintsNoControl isPrint) {directives : List Directive}
    (wellFormed : ∀ directive ∈ directives, directive.WellFormed) :
    Prints (printDirectives isPrint includeHidden directives)
      (GraphQL.directivesTokens (sentDirectives includeHidden directives))
      (DirectivesPrintBack isPrint includeHidden directives) := by
  intro used
  have each := printEachDirective_prints includeHidden source wellFormed used
  have text : ((printDirectives isPrint includeHidden directives).run used).1 =
      if ((printEachDirective isPrint includeHidden directives).run used).1.isEmpty then []
      else ' ' :: joinTexts " " ((printEachDirective isPrint includeHidden directives).run used).1 :=
    rfl
  rw [text]
  split
  · next empty =>
      rw [List.isEmpty_iff.mp empty] at each
      exact joinTexts_spaced each
  · exact Reads.ignored (by decide) (joinTexts_spaced each)

theorem opens_directives (directives : List Directive) (used : List String) :
    Opens ((printDirectives isPrint includeHidden directives).run used).1 := by
  have text : ((printDirectives isPrint includeHidden directives).run used).1 =
      if ((printEachDirective isPrint includeHidden directives).run used).1.isEmpty then []
      else ' ' :: joinTexts " " ((printEachDirective isPrint includeHidden directives).run used).1 :=
    rfl
  rw [text]
  split
  · exact .nil
  · exact .cons (by decide) _

theorem printSelectionStart_prints (source : PrintsNoControl isPrint) {kind : SelectionKind}
    {fieldName : String} {aliased : Option String} {fragmentArgs : List String}
    {arguments : List Argument} {children : List Selection}
    (wellFormed : kind.WellFormed fieldName aliased arguments children) :
    Prints (printSelectionStart isPrint includeHidden kind fieldName aliased fragmentArgs arguments)
      (selectionHead kind fieldName aliased arguments).tokens
      (kind = .field → ArgumentsPrintBack isPrint arguments) := by
  intro used
  cases kind with
  | field =>
      obtain ⟨isName, isAlias, given⟩ := wellFormed
      have text : ((printSelectionArguments isPrint includeHidden arguments).run used).1 =
          if arguments.isEmpty then [] else '(' :: joinTexts ", "
            ((printEachArgument isPrint includeHidden arguments).run used).1 ++ [')'] := by
        unfold printSelectionArguments
        split <;> rfl
      have named := Reads.word isName (arguments_reads includeHidden source given used)
        (opens_arguments _ _)
      rw [← text] at named
      have fine : ArgumentsPrintBack isPrint arguments ↔
          (SelectionKind.field = .field → ArgumentsPrintBack isPrint arguments) :=
        ⟨fun back _ => back, fun back => back rfl⟩
      refine Reads.congr ?_ fine
      cases aliased with
      | none => exact named
      | some name =>
          by_cases same : name = fieldName
          · have written : ((printSelectionStart isPrint includeHidden .field fieldName (some name)
                fragmentArgs arguments).run used).1 = fieldName.toList ++
                  ((printSelectionArguments isPrint includeHidden arguments).run used).1 := by
              unfold printSelectionStart
              simp only [same, if_true]
              rfl
            have head : selectionHead .field fieldName (some name) arguments =
                .field none fieldName (arguments.map (·.toEntry)) := by
              simp [selectionHead, same]
            rw [written, head]
            exact named
          · have written : ((printSelectionStart isPrint includeHidden .field fieldName (some name)
                fragmentArgs arguments).run used).1 = name.toList ++ ':' :: ' ' :: (fieldName.toList
                  ++ ((printSelectionArguments isPrint includeHidden arguments).run used).1) := by
              unfold printSelectionStart
              simp only [same, if_false]
              exact List.append_assoc _ _ _ |>.trans (List.append_assoc _ _ _)
            have head : selectionHead .field fieldName (some name) arguments =
                .field (some name) fieldName (arguments.map (·.toEntry)) := by
              simp [selectionHead, same]
            rw [written, head]
            exact entry_reads (isAlias name rfl) named
  | fragment =>
      have named := Reads.spread (Reads.single wellFormed.1)
      refine Reads.congr ?_ (iff_of_true trivial nofun)
      have written : ((printSelectionStart isPrint includeHidden .fragment fieldName aliased
          fragmentArgs arguments).run used).1 = '.' :: '.' :: '.' :: fieldName.toList := rfl
      rw [written]
      exact named
  | inlineFragment =>
      refine Reads.congr ?_ (iff_of_true trivial nofun)
      by_cases unnamed : fieldName = ""
      · subst unnamed
        exact Reads.spread Reads.nil
      · have isName := wellFormed.1.resolve_left unnamed
        have isOn : IsName "on" := ⟨by decide, Or.inl rfl⟩
        have written : ((printSelectionStart isPrint includeHidden .inlineFragment fieldName aliased
            fragmentArgs arguments).run used).1 =
              '.' :: '.' :: '.' :: ' ' :: ("on".toList ++ ' ' :: fieldName.toList) := by
          unfold printSelectionStart
          simp only [unnamed, if_false]
          rfl
        have head : selectionHead .inlineFragment fieldName aliased arguments =
            .inlineFragment (some fieldName) := by
          simp [selectionHead, unnamed]
        rw [written, head]
        exact Reads.spread (Reads.ignored (by decide) (Reads.word isOn
          (Reads.ignored (by decide) (Reads.single isName)) (.cons (by decide) _)))

theorem indentation_reads {text : List Char} {tokens : List Token} {fine : Prop} (level : Nat)
    (reads : Reads text tokens fine) : Reads (indentation level ++ text) tokens fine :=
  Reads.skip (fun _ member => by rw [List.eq_of_mem_replicate member]; rfl) reads

theorem opens_indentation (level : Nat) : Opens (indentation level) := by
  unfold indentation
  cases 4 * level with
  | zero => exact .nil
  | succ spaces => exact .cons (by decide) _

def setText (level : Nat) (children : List Selection) (printed : List Char) : List Char :=
  if children.isEmpty then []
  else ' ' :: openBrace :: '\n' :: printed ++ indentation level ++ [closeBrace]

theorem opens_setText (level : Nat) (children : List Selection) (printed : List Char) :
    Opens (setText level children printed ++ ['\n']) := by
  refine .append ?_ (.cons (by decide) _)
  unfold setText
  split
  · exact .nil
  · exact .cons (by decide) _

theorem setText_reads (level : Nat) {children : List Selection} {printed : List Char} {fine : Prop}
    (reads : Reads printed (GraphQL.selectionsTokens (toSelections includeHidden children)) fine)
    (empty : children = [] → fine) :
    Reads (setText level children printed) (GraphQL.setTokens
      (if children.isEmpty then none else some (toSelections includeHidden children))) fine := by
  unfold setText
  split
  · next none =>
      exact Reads.nil.congr (iff_of_true trivial (empty (List.isEmpty_iff.mp none)))
  · have spaces : Reads (indentation level) [] True := by
      have skipped := indentation_reads level Reads.nil
      rwa [List.append_nil] at skipped
    have both := (reads.append spaces (opens_indentation level)).congr (and_iff_left trivial)
    rw [List.append_nil] at both
    exact Reads.ignored (by decide) (Reads.enclose (by decide) (by decide)
      (Reads.ignored (by decide) both))

variable (isPrint) in
theorem printSelection_text (level : Nat) (kind : SelectionKind) (fieldName : String)
    (aliased : Option String) (fragmentArgs : List String) (arguments : List Argument)
    (directives : List Directive) (children : List Selection) (used : List String) :
    ∃ noted others, ((printSelection isPrint includeHidden level (.mk kind fieldName aliased
        fragmentArgs arguments directives children)).run used).1 =
      indentation level ++ (((printSelectionStart isPrint includeHidden kind fieldName aliased
          fragmentArgs arguments).run used).1 ++
        (((printDirectives isPrint includeHidden directives).run noted).1 ++
          (setText level children ((printSelections isPrint includeHidden (level + 1) children).run
            others).1 ++ ['\n']))) := by
  let start := (printSelectionStart isPrint includeHidden kind fieldName aliased fragmentArgs
    arguments).run used
  let printedDirectives := (printDirectives isPrint includeHidden directives).run start.2
  refine ⟨start.2, printedDirectives.2, ?_⟩
  rw [printSelection]
  exact (List.append_assoc _ _ _).trans
    ((List.append_assoc _ _ _).trans (List.append_assoc _ _ _))

theorem opens_printSelections (level : Nat) (selections : List Selection) (used : List String) :
    Opens ((printSelections isPrint includeHidden (level + 1) selections).run used).1 := by
  induction selections generalizing used with
  | nil => exact .nil
  | cons selection rest ih =>
      unfold printSelections
      split
      · exact ih used
      · have first : Opens
            ((printSelection isPrint includeHidden (level + 1) selection).run used).1 := by
          obtain ⟨kind, fieldName, aliased, fragmentArgs, arguments, directives, children⟩ :=
            selection
          obtain ⟨noted, others, text⟩ := printSelection_text isPrint includeHidden
            (level + 1) kind fieldName aliased fragmentArgs arguments directives children used
          rw [text]
          exact .cons (by decide) _
        exact first.append (ih _)

mutual

theorem printSelection_prints (source : PrintsNoControl isPrint) (level : Nat) :
    (selection : Selection) → selection.WellFormed →
    Prints (printSelection isPrint includeHidden level selection)
      (selection.toSelection includeHidden).tokens (selection.PrintsBack isPrint includeHidden)
  | .mk kind fieldName aliased fragmentArgs arguments directives children,
      ⟨own, given, below⟩ => by
      intro used
      obtain ⟨noted, others, text⟩ := printSelection_text isPrint includeHidden level
        kind fieldName aliased fragmentArgs arguments directives children used
      have newline : Reads ['\n'] [] True := Reads.ignored (by decide) Reads.nil
      have inner := printSelections_prints source level children below others
      have set := setText_reads includeHidden level inner fun empty => by
        rw [empty]
        trivial
      have opensSet := opens_setText level children
        ((printSelections isPrint includeHidden (level + 1) children).run others).1
      have start : Prints (printSelectionStart isPrint includeHidden kind fieldName aliased
          fragmentArgs arguments) _ _ := printSelectionStart_prints includeHidden source own
      have whole := (start used).append
        ((printDirectives_prints includeHidden source given noted).append
          ((set.append newline (.cons (by decide) _)).congr (and_iff_left trivial)) opensSet)
        (.append (opens_directives includeHidden directives noted) opensSet)
      rw [List.append_nil] at whole
      rw [text]
      exact indentation_reads level whole

theorem printSelections_prints (source : PrintsNoControl isPrint) (level : Nat) :
    (selections : List Selection) → WellFormedSelections selections →
    Prints (printSelections isPrint includeHidden (level + 1) selections)
      (GraphQL.selectionsTokens (toSelections includeHidden selections))
      (SelectionsPrintBack isPrint includeHidden selections)
  | [], _ => fun _ => Reads.nil
  | selection :: rest, ⟨own, others⟩ => by
      intro used
      have first := printSelection_prints source (level + 1) selection own
      have later := printSelections_prints source level rest others
      unfold printSelections toSelections SelectionsPrintBack
      by_cases hidden : selection.isHidden = true
      · rw [if_pos hidden, if_pos hidden]
        exact (later used).congr (and_iff_right fun shown => absurd hidden (by simp [shown])).symm
      · rw [if_neg hidden, if_neg hidden]
        refine ((first used).append (later _)
          (opens_printSelections includeHidden level rest _)).congr (and_congr_left' ?_)
        exact ⟨fun back _ => back, fun back => back (by simpa using hidden)⟩

end

theorem typeText_reads {declared : OperationVariable} (wellFormed : declared.WellFormed) :
    Reads declared.typeText declared.typeReference.tokens True := by
  have known := wellFormed.modifiers
  unfold OperationVariable.typeText OperationVariable.typeReference
  generalize declared.typeModifiers.toList = modifiers at known ⊢
  induction modifiers using List.reverseRecOn with
  | nil =>
      rw [List.count_nil, List.replicate_zero, List.nil_append, List.append_nil]
      exact Reads.single wellFormed.type
  | append_singleton others modifier ih =>
      have inner := ih fun other member => known other (List.mem_append_left _ member)
      rw [List.foldl_concat]
      rcases known modifier (by simp) with rfl | rfl
      · have count : (others ++ ['!']).count ']' = others.count ']' := by simp
        rw [count, ← List.append_assoc, if_pos rfl]
        exact (inner.append (Reads.closing (by decide)) (.cons (by decide) _)).congr
          (and_iff_left trivial)
      · have count : (others ++ [']']).count ']' = others.count ']' + 1 := by simp
        rw [count, ← List.append_assoc, if_neg (by decide), List.replicate_succ]
        exact Reads.enclose (by decide) (by decide) inner

theorem printDefaultValue_prints (source : PrintsNoControl isPrint)
    {defaultValue : Option ArgumentValue} (wellFormed : ∀ value ∈ defaultValue, value.WellFormed) :
    Prints (printDefaultValue isPrint defaultValue)
      (GraphQL.defaultTokens (defaultValue.map (·.toValue)))
      (∀ value ∈ defaultValue, value.PrintsBack isPrint) := by
  intro used
  cases defaultValue with
  | none => exact Reads.nil.congr (iff_of_true trivial nofun)
  | some value =>
      refine Reads.congr ?_ forall_mem_some_iff.symm
      exact Reads.ignored (by decide) (Reads.punctuator (by decide) (Reads.ignored (by decide)
        (printValue_prints source value (wellFormed value rfl) used)))

theorem printDocumentVariables_prints (source : PrintsNoControl isPrint)
    {declared : OperationVariable} (wellFormed : declared.WellFormed) :
    Prints (printDocumentVariables isPrint includeHidden declared)
      (declared.toVariable includeHidden).tokens (declared.PrintsBack isPrint includeHidden) := by
  intro used
  let defaultText := (printDefaultValue isPrint declared.defaultValue).run used
  have text : ((printDocumentVariables isPrint includeHidden declared).run used).1 =
      '$' :: (declared.name.toList ++ ':' :: ' ' :: (declared.typeText ++ (defaultText.1 ++
        ((printDirectives isPrint includeHidden declared.directives).run defaultText.2).1))) := by
    have written : ((printDocumentVariables isPrint includeHidden declared).run used).1 =
        '$' :: declared.name.toList ++ ':' :: ' ' :: declared.typeText ++ defaultText.1 ++
          ((printDirectives isPrint includeHidden declared.directives).run defaultText.2).1 := rfl
    rw [written]
    simp only [List.append_assoc, List.cons_append]
  have opensDefault : Opens defaultText.1 := by
    change Opens ((printDefaultValue isPrint declared.defaultValue).run used).1
    cases declared.defaultValue with
    | none => exact .nil
    | some value => exact .cons (by decide) _
  have opensDirectives : Opens
      ((printDirectives isPrint includeHidden declared.directives).run defaultText.2).1 :=
    opens_directives includeHidden _ _
  have ending := (printDefaultValue_prints source wellFormed.defaultValue used).append
    (printDirectives_prints includeHidden source wellFormed.directives defaultText.2)
    opensDirectives
  have typed := (typeText_reads wellFormed).append ending (opensDefault.append opensDirectives)
  rw [text]
  exact (Reads.punctuator (by decide) (entry_reads wellFormed.name typed)).congr
    (and_iff_right trivial)

variable (isPrint) in
theorem printEachVariable_get? {declarations : List OperationVariable}
    (once : (declarations.map (·.name)).Nodup) (used : List String) {declared : OperationVariable}
    (member : declared ∈ declarations) :
    ∃ noted, ((printEachVariable isPrint includeHidden declarations).run used).1.get?
        declared.name =
      some ((printDocumentVariables isPrint includeHidden declared).run noted).1 := by
  induction declarations generalizing used with
  | nil => cases member
  | cons first rest ih =>
      let own := (printDocumentVariables isPrint includeHidden first).run used
      let others := ((printEachVariable isPrint includeHidden rest).run own.2).1
      obtain ⟨fresh, onceRest⟩ := List.nodup_cons.mp once
      have unknown : ¬ (others.get? first.name).isSome := by
        rw [printEachVariable_isSome isPrint includeHidden rest own.2 first.name]
        exact fresh
      have printed : ((printEachVariable isPrint includeHidden (first :: rest)).run used).1 =
          others.set first.name own.1 := if_neg unknown
      rw [printed]
      rcases List.mem_cons.mp member with rfl | later
      · exact ⟨used, OrderedMap.get?_set_self _ _ _⟩
      · have apart : declared.name ≠ first.name := by
          intro same
          exact fresh (List.mem_map.mpr ⟨declared, later, same⟩)
        rw [OrderedMap.get?_set_of_ne _ _ apart]
        exact ih onceRest own.2 later

theorem variables_read (source : PrintsNoControl isPrint) {declarations : List OperationVariable}
    (wellFormed : ∀ declared ∈ declarations, declared.WellFormed)
    (once : (declarations.map (·.name)).Nodup) (used names : List String) :
    ReadsEach
      (names.map fun name =>
        (((printEachVariable isPrint includeHidden declarations).run used).1.get? name).getD [])
      (((names.filterMap fun name => declarations.find? (·.name = name)).map
        (·.toVariable includeHidden)).flatMap (·.tokens))
      (∀ declared ∈ names.filterMap fun name => declarations.find? (·.name = name),
        declared.PrintsBack isPrint includeHidden) := by
  induction names with
  | nil => exact ReadsEach.nil.congr (iff_of_true trivial (List.forall_mem_nil _))
  | cons name rest ih =>
      rw [List.map_cons, List.filterMap_cons]
      cases found : declarations.find? (·.name = name) with
      | none =>
          have unknown : ((printEachVariable isPrint includeHidden declarations).run used).1.get?
              name = none := by
            rw [← Option.not_isSome_iff_eq_none, printEachVariable_isSome]
            intro member
            obtain ⟨declared, isDeclared, same⟩ := List.mem_map.mp member
            exact List.find?_eq_none.mp found declared isDeclared (by simpa using same)
          rw [unknown]
          exact (ReadsEach.cons Reads.nil ih).congr (and_iff_right trivial)
      | some declared =>
          have member := List.mem_of_find?_eq_some found
          have same : declared.name = name := by simpa using List.find?_some found
          obtain ⟨noted, text⟩ := printEachVariable_get? isPrint includeHidden once used member
          rw [← same, text, List.map_cons, List.flatMap_cons]
          exact (ReadsEach.cons (printDocumentVariables_prints includeHidden source
            (wellFormed declared member) noted) ih).congr List.forall_mem_cons.symm

theorem sortedNames_congr {used others : List String} (same : ∀ name, name ∈ used ↔ name ∈ others) :
    sortedNames used = sortedNames others := by
  have sorted (used : List String) : (sortedNames used).Pairwise (· ≤ ·) :=
    List.pairwise_mergeSort' _ _
  have perm : (sortedNames used).Perm (sortedNames others) := by
    refine (List.mergeSort_perm _ _).trans (.trans ?_ (List.mergeSort_perm _ _).symm)
    refine (List.perm_ext_iff_of_nodup (List.nodup_dedup _) (List.nodup_dedup _)).mpr fun name => ?_
    rw [List.mem_dedup, List.mem_dedup, same]
  exact perm.eq_of_pairwise' (sorted used) (sorted others)

theorem documentKind_isName (kind : DocumentKind) : IsName kind.text := by
  cases kind <;> exact ⟨by decide, Or.inl rfl⟩

def bodyText (text : List Char × List Char) : List Char :=
  text.1 ++ ' ' :: openBrace :: '\n' :: text.2 ++ [closeBrace]

theorem printBody_reads (source : PrintsNoControl isPrint) {document : Document}
    (wellFormed : document.WellFormed) :
    Reads (bodyText ((printBody isPrint includeHidden document).run []).1)
      (GraphQL.directivesTokens (sentDirectives includeHidden document.directives) ++
        enclosed GraphQL.openBrace GraphQL.closeBrace
          (GraphQL.selectionsTokens (toSelections includeHidden document.selections)))
      (DirectivesPrintBack isPrint includeHidden document.directives ∧
        SelectionsPrintBack isPrint includeHidden document.selections) := by
  let documentDirectives := (printDirectives isPrint includeHidden document.directives).run []
  let selection := (printSelections isPrint includeHidden 1 document.selections).run
    documentDirectives.2
  have text : bodyText ((printBody isPrint includeHidden document).run []).1 =
      documentDirectives.1 ++ ' ' :: openBrace :: ('\n' :: selection.1 ++ [closeBrace]) := by
    unfold bodyText
    simp only [List.append_assoc, List.cons_append]
    rfl
  have set := printSelections_prints includeHidden source 0 document.selections
    wellFormed.selections documentDirectives.2
  rw [text]
  exact (printDirectives_prints includeHidden source wellFormed.directives []).append
    (Reads.ignored (by decide) (Reads.enclose (by decide) (by decide)
      (Reads.ignored (by decide) set))) (.cons (by decide) _)

theorem opens_body (document : Document) :
    Opens (bodyText ((printBody isPrint includeHidden document).run []).1) :=
  ((opens_directives includeHidden document.directives []).append (.cons (by decide) _)).append
    (.cons (by decide) _)

def headerText (printedVars : OrderedMap String (List Char)) (toPrint : List String) : List Char :=
  if toPrint.isEmpty then []
  else '(' :: joinTexts ", " (toPrint.map fun name => (printedVars.get? name).getD []) ++ [')']

theorem opens_headerText (printedVars : OrderedMap String (List Char)) (toPrint : List String) :
    Opens (headerText printedVars toPrint) := by
  unfold headerText
  split
  · exact .nil
  · exact .cons (by decide) _

theorem bodyTokens_cons (directives : List GraphQL.Directive) (others : List Token) :
    ∃ token rest, GraphQL.directivesTokens directives ++
        enclosed GraphQL.openBrace GraphQL.closeBrace others = token :: rest ∧
      token ≠ .punctuator '(' := by
  cases directives with
  | nil => exact ⟨_, _, rfl, by decide⟩
  | cons directive rest => exact ⟨_, _, rfl, by decide⟩

theorem header_reads (source : PrintsNoControl isPrint) {document : Document}
    (wellFormed : document.WellFormed) (used : List String) {text : List Char}
    {directives : List GraphQL.Directive} {others : List Token} {fine : Prop}
    (body : Reads text (GraphQL.directivesTokens directives ++
      enclosed GraphQL.openBrace GraphQL.closeBrace others) fine) (opensBody : Opens text) :
    Reads
      (headerText ((printEachVariable isPrint includeHidden document.declared).run used).1
        (sortedNames (document.notes includeHidden)) ++ text)
      ((if ((document.sentVariables includeHidden).map (·.toVariable includeHidden)).isEmpty then []
        else enclosed '(' ')' (((document.sentVariables includeHidden).map
          (·.toVariable includeHidden)).flatMap (·.tokens))) ++
        (GraphQL.directivesTokens directives ++
          enclosed GraphQL.openBrace GraphQL.closeBrace others))
      (document.HeaderPrintsBack isPrint includeHidden ∧ fine) := by
  have each := variables_read includeHidden source wellFormed.declared wellFormed.once used
    (sortedNames (document.notes includeHidden))
  change ReadsEach _ (((document.sentVariables includeHidden).map _).flatMap _)
    (∀ declared ∈ document.sentVariables includeHidden, _) at each
  have names : sortedNames (document.notes includeHidden) = [] ↔
      document.notes includeHidden = [] := by
    rw [List.eq_nil_iff_forall_not_mem, List.eq_nil_iff_forall_not_mem]
    exact forall_congr' fun name => not_congr (mem_sortedNames _ name)
  unfold headerText Document.HeaderPrintsBack
  rw [List.isEmpty_map]
  by_cases unused : document.notes includeHidden = []
  · have none : document.sentVariables includeHidden = [] := by
      unfold Document.sentVariables
      rw [names.mpr unused]
      rfl
    rw [if_pos (List.isEmpty_iff.mpr (names.mpr unused)), if_pos (List.isEmpty_iff.mpr none)]
    refine body.congr (and_iff_right ⟨?_, fun some => absurd unused some⟩).symm
    rw [none]
    exact List.forall_mem_nil _
  · rw [if_neg (by rw [List.isEmpty_iff]; exact fun empty => unused (names.mp empty))]
    by_cases none : document.sentVariables includeHidden = []
    · -- nothing is declared, and the parentheses are empty
      obtain ⟨token, rest, same, apart⟩ := bodyTokens_cons directives others
      rw [if_pos (List.isEmpty_iff.mpr none), same]
      exact (Reads.otherwise (by decide) apart _ _).congr
        (iff_of_false id fun both => both.1.2 unused none)
    · rw [if_neg (by rw [List.isEmpty_iff]; exact none)]
      exact ((Reads.enclose (by decide) (by decide) (joinTexts_reads each)).append body
        opensBody).congr (and_congr_left' (and_iff_left fun _ => none).symm)

theorem operation_reads (source : PrintsNoControl isPrint) {document : Document}
    (wellFormed : document.WellFormed) {kind : GraphQL.OperationKind}
    (sameText : document.kind.text = kind.text) (isOperation : document.kind ≠ .fragment)
    (head : document.definitionHead includeHidden = .operation kind document.name
      ((document.sentVariables includeHidden).map (·.toVariable includeHidden))) :
    Reads (printCollectedDocument isPrint includeHidden document).text
      (document.toDefinition includeHidden).tokens
      (document.HeaderPrintsBack isPrint includeHidden ∧
        DirectivesPrintBack isPrint includeHidden document.directives ∧
        SelectionsPrintBack isPrint includeHidden document.selections) := by
  let body := (printBody isPrint includeHidden document).run []
  let printedVars := (printEachVariable isPrint includeHidden document.declared).run body.2
  have noted : sortedNames printedVars.2 = sortedNames (document.notes includeHidden) :=
    sortedNames_congr fun name => mem_printed_iff isPrint includeHidden document name
  have text : (printCollectedDocument isPrint includeHidden document).text =
      document.kind.text.toList ++ ' ' :: (document.name.toList ++
        (headerText printedVars.1 (sortedNames (document.notes includeHidden)) ++
          bodyText body.1)) := by
    have written : (printCollectedDocument isPrint includeHidden document).text =
        document.kind.text.toList ++ ' ' :: document.name.toList ++
          headerText printedVars.1 (sortedNames printedVars.2) ++ bodyText body.1 := by
      unfold printCollectedDocument
      rw [if_neg isOperation]
      rfl
    rw [written, noted]
    simp only [List.append_assoc, List.cons_append]
  have definition : (document.toDefinition includeHidden).tokens =
      word document.kind.text :: word document.name :: ((if ((document.sentVariables
        includeHidden).map (·.toVariable includeHidden)).isEmpty then []
        else enclosed '(' ')' (((document.sentVariables includeHidden).map
          (·.toVariable includeHidden)).flatMap (·.tokens))) ++
        (GraphQL.directivesTokens (sentDirectives includeHidden document.directives) ++
          enclosed GraphQL.openBrace GraphQL.closeBrace
            (GraphQL.selectionsTokens (toSelections includeHidden document.selections)))) := by
    unfold GraphQL.Definition.tokens Document.toDefinition
    rw [head, sameText]
    rfl
  rw [text, definition]
  exact Reads.word (documentKind_isName _) (Reads.ignored (by decide) (Reads.word wellFormed.name
    (header_reads includeHidden source wellFormed body.2
      (printBody_reads includeHidden source wellFormed) (opens_body includeHidden document))
    ((opens_headerText _ _).append (opens_body includeHidden document)))) (.cons (by decide) _)

theorem fragment_reads (source : PrintsNoControl isPrint) {document : Document}
    (wellFormed : document.WellFormed) (isFragment : document.kind = .fragment) :
    Reads (printCollectedDocument isPrint includeHidden document).text
      (document.toDefinition includeHidden).tokens
      (DirectivesPrintBack isPrint includeHidden document.directives ∧
        SelectionsPrintBack isPrint includeHidden document.selections) := by
  let body := (printBody isPrint includeHidden document).run []
  have text : (printCollectedDocument isPrint includeHidden document).text =
      document.kind.text.toList ++ ' ' :: (document.name.toList ++ ' ' :: ("on".toList ++
        ' ' :: (document.typeCondition.toList ++ bodyText body.1))) := by
    have written : (printCollectedDocument isPrint includeHidden document).text =
        document.kind.text.toList ++ ' ' :: document.name.toList ++ " on ".toList ++
          document.typeCondition.toList ++ bodyText body.1 := by
      unfold printCollectedDocument
      rw [if_pos isFragment]
      rfl
    have spaced : " on ".toList = ' ' :: ("on".toList ++ [' ']) := rfl
    rw [written, spaced]
    simp only [List.append_assoc, List.cons_append, List.nil_append]
  have definition : (document.toDefinition includeHidden).tokens =
      word document.kind.text :: word document.name :: word "on" :: word document.typeCondition ::
        (GraphQL.directivesTokens (sentDirectives includeHidden document.directives) ++
          enclosed GraphQL.openBrace GraphQL.closeBrace
            (GraphQL.selectionsTokens (toSelections includeHidden document.selections))) := by
    unfold GraphQL.Definition.tokens Document.toDefinition Document.definitionHead
    rw [isFragment]
    rfl
  have isOn : IsName "on" := ⟨by decide, Or.inl rfl⟩
  have condition := Reads.word (wellFormed.typeCondition isFragment).1
    (printBody_reads includeHidden source wellFormed) (opens_body includeHidden document)
  rw [text, definition]
  exact Reads.word (documentKind_isName _) (Reads.ignored (by decide) (Reads.word wellFormed.name
    (Reads.ignored (by decide) (Reads.word isOn (Reads.ignored (by decide) condition)
      (.cons (by decide) _))) (.cons (by decide) _))) (.cons (by decide) _)

mutual

theorem toValue_valid : (value : ArgumentValue) → value.WellFormed → value.toValue.Valid
  | .mk kind raw children, wellFormed => by
      cases kind with
      | enum => exact wellFormed.2
      | list => exact childValues_valid children wellFormed
      | object => exact childFields_valid children wellFormed
      | _ => trivial

theorem childValues_valid : (children : List (String × ArgumentValue)) →
    WellFormedValues children → GraphQL.ValidValues (childValues children)
  | [], _ => trivial
  | (_, value) :: rest, ⟨own, others⟩ => ⟨toValue_valid value own, childValues_valid rest others⟩

theorem childFields_valid : (children : List (String × ArgumentValue)) →
    WellFormedFields children → GraphQL.ValidEntries (childFields children)
  | [], _ => trivial
  | (_, value) :: rest, ⟨_, own, others⟩ => ⟨toValue_valid value own, childFields_valid rest others⟩

end

theorem toEntries_valid {arguments : List Argument}
    (wellFormed : ∀ argument ∈ arguments, argument.WellFormed) :
    GraphQL.ValidEntries (arguments.map (·.toEntry)) := by
  induction arguments with
  | nil => trivial
  | cons argument rest ih =>
      refine ⟨?_, ih fun other member => wellFormed other (List.mem_cons_of_mem _ member)⟩
      obtain ⟨name, value, directives⟩ := argument
      obtain ⟨_, given, _⟩ := wellFormed _ List.mem_cons_self
      cases value with
      | none => trivial
      | some value => exact toValue_valid value (given value rfl)

theorem sentDirectives_valid {directives : List Directive}
    (wellFormed : ∀ directive ∈ directives, directive.WellFormed) :
    GraphQL.ValidDirectives (sentDirectives includeHidden directives) := by
  intro directive member
  obtain ⟨own, kept, rfl⟩ := List.mem_map.mp member
  have isWellFormed := wellFormed own (List.mem_filter.mp kept).1
  obtain ⟨name, isInternal, arguments⟩ := own
  exact toEntries_valid isWellFormed.2

theorem selectionHead_valid {kind : SelectionKind} {fieldName : String} {aliased : Option String}
    {arguments : List Argument} {children : List Selection}
    (wellFormed : kind.WellFormed fieldName aliased arguments children)
    (set : Option (List GraphQL.Selection)) (filled : set.isSome ↔ children ≠ []) :
    (selectionHead kind fieldName aliased arguments).Valid ∧
      (selectionHead kind fieldName aliased arguments).allows set = true := by
  cases kind with
  | field => exact ⟨toEntries_valid wellFormed.2.2, rfl⟩
  | fragment =>
      refine ⟨wellFormed.2.1, ?_⟩
      have empty : set = none := by
        rw [← Option.not_isSome_iff_eq_none, filled]
        exact fun filled => filled wellFormed.2.2
      rw [empty]
      rfl
  | inlineFragment => exact ⟨trivial, filled.mpr wellFormed.2⟩

mutual

theorem toSelection_valid_iff : (selection : Selection) → selection.WellFormed →
    ((selection.toSelection includeHidden).Valid ↔ selection.Filled includeHidden)
  | .mk kind fieldName aliased fragmentArgs arguments directives children,
      ⟨own, given, below⟩ => by
      have inner := toSelections_valid_iff children below
      have head := selectionHead_valid own
        (if children.isEmpty then none else some (toSelections includeHidden children))
        (by cases children <;> simp)
      have set : GraphQL.ValidSet
            (if children.isEmpty then none else some (toSelections includeHidden children)) ↔
          (children ≠ [] → toSelections includeHidden children ≠ []) ∧
            SelectionsFilled includeHidden children := by
        by_cases empty : children = []
        · rw [empty]
          exact iff_of_true trivial ⟨fun filled => absurd rfl filled, trivial⟩
        · rw [if_neg (by rw [List.isEmpty_iff]; exact empty)]
          exact and_congr ⟨fun filled _ => filled, fun filled => filled empty⟩ inner
      exact ⟨fun valid => set.mp valid.2.2.2, fun filled =>
        ⟨head.1, sentDirectives_valid includeHidden given, head.2, set.mpr filled⟩⟩

theorem toSelections_valid_iff : (selections : List Selection) → WellFormedSelections selections →
    (GraphQL.ValidSelections (toSelections includeHidden selections) ↔
      SelectionsFilled includeHidden selections)
  | [], _ => Iff.rfl
  | selection :: rest, ⟨own, others⟩ => by
      have first := toSelection_valid_iff selection own
      have later := toSelections_valid_iff rest others
      unfold toSelections SelectionsFilled
      by_cases hidden : selection.isHidden = true
      · rw [if_pos hidden, later]
        exact (and_iff_right fun shown => absurd hidden (by simp [shown])).symm
      · rw [if_neg hidden]
        refine and_congr ?_ later
        rw [first]
        exact ⟨fun filled _ => filled, fun filled => filled (by simpa using hidden)⟩

end

theorem definitionHead_valid {document : Document} (wellFormed : document.WellFormed) :
    (document.definitionHead includeHidden).Valid := by
  have declared : ∀ definition ∈ (document.sentVariables includeHidden).map
      (·.toVariable includeHidden), definition.Valid := by
    intro definition member
    obtain ⟨own, sent, rfl⟩ := List.mem_map.mp member
    obtain ⟨_, _, found⟩ := List.mem_filterMap.mp sent
    have isWellFormed := wellFormed.declared own (List.mem_of_find?_eq_some found)
    refine ⟨isWellFormed.required, ?_, sentDirectives_valid includeHidden isWellFormed.directives⟩
    intro value same
    obtain ⟨given, isDefault, rfl⟩ := Option.map_eq_some_iff.mp same
    exact toValue_valid given (isWellFormed.defaultValue given isDefault)
  unfold Document.definitionHead
  cases kind : document.kind with
  | fragment => exact (wellFormed.typeCondition kind).2
  | _ => exact declared

theorem toDefinition_valid_iff {document : Document} (wellFormed : document.WellFormed) :
    (document.toDefinition includeHidden).Valid ↔
      toSelections includeHidden document.selections ≠ [] ∧
        SelectionsFilled includeHidden document.selections := by
  have selections := toSelections_valid_iff includeHidden document.selections wellFormed.selections
  constructor
  · intro valid
    exact ⟨valid.selections.1, selections.mp valid.selections.2⟩
  · intro filled
    exact ⟨definitionHead_valid includeHidden wellFormed,
      sentDirectives_valid includeHidden wellFormed.directives, filled.1, selections.mpr filled.2⟩

theorem parse_eq_some_iff {text : List Char} {definition : GraphQL.Definition} {fine : Prop}
    (reads : Reads text definition.tokens fine) :
    GraphQL.parse text = some definition ↔ fine ∧ definition.Valid := by
  have whole := reads [] .nil []
  rw [List.append_nil, List.append_nil, GraphQL.lex_nil] at whole
  have lexed : GraphQL.lex text = some definition.tokens ↔ fine := whole.trans (and_iff_left rfl)
  unfold GraphQL.parse
  rw [← lexed, Option.bind_eq_some_iff]
  constructor
  · rintro ⟨tokens, read, parsed⟩
    obtain ⟨rfl, valid⟩ := GraphQL.parseDefinition_eq_some_iff.mp parsed
    exact ⟨read, valid⟩
  · rintro ⟨read, valid⟩
    exact ⟨_, read, GraphQL.parseDefinition_eq_some_iff.mpr ⟨rfl, valid⟩⟩

theorem printCollectedDocument_reads (source : PrintsNoControl isPrint) {document : Document}
    (wellFormed : document.WellFormed) :
    Reads (printCollectedDocument isPrint includeHidden document).text
      (document.toDefinition includeHidden).tokens
      ((document.kind ≠ .fragment → document.HeaderPrintsBack isPrint includeHidden) ∧
        DirectivesPrintBack isPrint includeHidden document.directives ∧
        SelectionsPrintBack isPrint includeHidden document.selections) := by
  by_cases isFragment : document.kind = .fragment
  · exact (fragment_reads includeHidden source wellFormed isFragment).congr
      (and_iff_right fun isOperation => absurd isFragment isOperation).symm
  · have header : document.HeaderPrintsBack isPrint includeHidden ↔
        (document.kind ≠ .fragment → document.HeaderPrintsBack isPrint includeHidden) :=
      ⟨fun back _ => back, fun back => back isFragment⟩
    obtain ⟨kind, sameText, head⟩ : ∃ kind : GraphQL.OperationKind,
        document.kind.text = kind.text ∧ document.definitionHead includeHidden =
          .operation kind document.name
            ((document.sentVariables includeHidden).map (·.toVariable includeHidden)) := by
      unfold Document.definitionHead
      cases kind : document.kind with
      | query => exact ⟨.query, rfl, rfl⟩
      | mutation => exact ⟨.mutation, rfl, rfl⟩
      | subscription => exact ⟨.subscription, rfl, rfl⟩
      | fragment => exact absurd kind isFragment
    exact (operation_reads includeHidden source wellFormed sameText isFragment head).congr
      (and_congr_left' header)

variable (isPrint) in
/-- The text of a document is parsed as the document again exactly if its parts print back. -/
theorem printCollectedDocument_parse_iff (source : PrintsNoControl isPrint) {document : Document}
    (wellFormed : document.WellFormed) :
    GraphQL.parse (printCollectedDocument isPrint includeHidden document).text =
        some (document.toDefinition includeHidden) ↔
      document.PrintsBack isPrint includeHidden := by
  rw [parse_eq_some_iff (printCollectedDocument_reads includeHidden source wellFormed),
    toDefinition_valid_iff includeHidden wellFormed]
  constructor
  · rintro ⟨⟨header, directives, selections⟩, printed, filled⟩
    exact ⟨header, directives, selections, printed, filled⟩
  · intro back
    exact ⟨⟨back.header, back.directives, back.selections⟩, back.printed, back.filled⟩

end Quoted

def isAscii (char : Char) : Bool := 32 ≤ char.toNat && char.toNat < 127

def firstVariable : OperationVariable where
  name := "first"
  type := "Int"
  typeModifiers := "!"

def usersQuery (name : ArgumentValue) : Document where
  name := "Users"
  kind := .query
  declared := [firstVariable]
  selections := [.mk .field "users" none []
    [.mk "first" (some (.leaf .variable "first")) [], .mk "name" (some name) []] []
    [.mk .field "name" (some "called") [] [] [] [], .mk .field "__id" none [] [] [] []]]

theorem isAscii_printsNoControl : PrintsNoControl isAscii := by
  intro char printable
  unfold isAscii at printable
  simp only [Bool.and_eq_true, decide_eq_true_eq] at printable
  exact printable.1

theorem usersQuery_wellFormed {name : ArgumentValue} (wellFormed : name.WellFormed) :
    (usersQuery name).WellFormed := by
  have isName (text : String) (known : text ∈ ["Users", "users", "first", "name", "called", "__id",
      "Int"]) : IsName text := by
    have all : ∀ text ∈ ["Users", "users", "first", "name", "called", "__id", "Int"],
        GraphQL.scan text.toList = .token (word text) [] := by decide +kernel
    exact ⟨all text known, Or.inl rfl⟩
  have declared : firstVariable.WellFormed :=
    ⟨isName _ (by decide), isName _ (by decide), List.all_iff_forall_prop.mp (by decide), trivial,
      nofun, List.forall_mem_nil _⟩
  have selections : WellFormedSelections (usersQuery name).selections := by
    refine ⟨⟨⟨isName _ (by decide), nofun, ?_⟩, List.forall_mem_nil _, ?_⟩, trivial⟩
    · intro argument member
      rcases List.mem_pair.mp member with rfl | rfl
      · exact ⟨isName _ (by decide), fun _ same => Option.some.inj same ▸ isName _ (by decide), rfl⟩
      · exact ⟨isName _ (by decide), fun _ same => Option.some.inj same ▸ wellFormed, rfl⟩
    · refine ⟨⟨⟨isName _ (by decide), ?_, List.forall_mem_nil _⟩, List.forall_mem_nil _, trivial⟩,
        ⟨⟨isName _ (by decide), nofun, List.forall_mem_nil _⟩, List.forall_mem_nil _, trivial⟩,
        trivial⟩
      intro aliased same
      exact Option.some.inj same ▸ isName _ (by decide)
  exact ⟨isName "Users" (by decide), nofun, List.forall_mem_nil _, selections,
    List.forall_mem_singleton.mpr declared, List.nodup_singleton _⟩

theorem usersQuery_printsBack_iff (name : ArgumentValue) :
    (usersQuery name).PrintsBack isAscii false ↔ name.PrintsBack isAscii := by
  constructor
  · intro back
    have own : (ArgumentsPrintBack isAscii _) := (back.selections.1 rfl).1 rfl
    exact own (.mk "name" (some name) []) (by simp) name rfl
  · intro back
    have noted : "first" ∈ (usersQuery name).notes false := List.mem_cons_self
    have sent : (usersQuery name).sentVariables false ≠ [] := by
      have member : firstVariable ∈ (usersQuery name).sentVariables false :=
        List.mem_filterMap.mpr ⟨"first", (mem_sortedNames _ _).mpr noted, rfl⟩
      exact List.ne_nil_of_mem member
    refine ⟨fun _ => ⟨?_, fun _ => sent⟩, List.forall_mem_nil _, ⟨fun _ => ?_, trivial⟩, nofun,
      ⟨fun _ => ⟨nofun, fun _ => ⟨nofun, trivial⟩, fun _ => ⟨nofun, trivial⟩, trivial⟩, trivial⟩⟩
    · intro declared member
      obtain ⟨_, _, found⟩ := List.mem_filterMap.mp member
      obtain rfl := List.mem_singleton.mp (List.mem_of_find?_eq_some found)
      exact ⟨nofun, List.forall_mem_nil _⟩
    · refine ⟨fun _ => ?_, List.forall_mem_nil _, fun _ => ⟨fun _ => List.forall_mem_nil _,
        List.forall_mem_nil _, trivial⟩, fun _ => ⟨fun _ => List.forall_mem_nil _,
        List.forall_mem_nil _, trivial⟩, trivial⟩
      intro argument member
      rcases List.mem_pair.mp member with rfl | rfl
      · exact forall_mem_some_iff.mpr trivial
      · exact forall_mem_some_iff.mpr back

/-- A name with quotes in it. -/
theorem printCollectedDocument_parse_quotes :
    PrintsNoControl isAscii ∧ (usersQuery (.leaf .string "\"Ada\"\n")).WellFormed ∧
      GraphQL.parse (printCollectedDocument isAscii false
          (usersQuery (.leaf .string "\"Ada\"\n"))).text =
        some ((usersQuery (.leaf .string "\"Ada\"\n")).toDefinition false) := by
  have wellFormed : (usersQuery (.leaf .string "\"Ada\"\n")).WellFormed :=
    usersQuery_wellFormed trivial
  have back : (ArgumentValue.leaf .string "\"Ada\"\n").PrintsBack isAscii := by
    change ∀ char ∈ "\"Ada\"\n".toList, PrintsBackChar isAscii char
    unfold PrintsBackChar
    exact List.all_iff_forall_prop.mp (by decide +kernel)
  exact ⟨isAscii_printsNoControl, wellFormed, (printCollectedDocument_parse_iff isAscii false
    isAscii_printsNoControl wellFormed).mpr ((usersQuery_printsBack_iff _).mpr back)⟩

/-- `null` is printed as the text that says so. -/
theorem printCollectedDocument_parse_null :
    PrintsNoControl isAscii ∧ (usersQuery (.leaf .null "null")).WellFormed ∧
      GraphQL.parse (printCollectedDocument isAscii false (usersQuery (.leaf .null "null"))).text ≠
        some ((usersQuery (.leaf .null "null")).toDefinition false) := by
  have wellFormed : (usersQuery (.leaf .null "null")).WellFormed := usersQuery_wellFormed trivial
  refine ⟨isAscii_printsNoControl, wellFormed, fun parsed => ?_⟩
  have reads := printCollectedDocument_reads false isAscii_printsNoControl wellFormed
  have back := ((parse_eq_some_iff reads).mp parsed).1.2.2
  have own : ArgumentsPrintBack isAscii _ := (back.1 rfl).1 rfl
  exact own (.mk "name" (some (.leaf .null "null")) []) (by simp) _ rfl

end Houdini.Plugin
