import Houdini.Plugin.Documents.KeyField

/-! When the runtime evaluates the keys that the compiler emits as they are meant. -/

set_option autoImplicit false

namespace Houdini.Plugin

open Houdini.Runtime (GraphQLObject)
open Houdini.Runtime.Cache (KeyToken templateText evaluatedText variableText evaluateKey)
open Houdini.Runtime.Cache.KeyToken (Separated)
open Houdini.Runtime.GraphQLValue (isDelimiter NumericFields)

section Printing

variable {isPrint : Char → Bool}

mutual

theorem printValue_eq : ∀ (value : ArgumentValue) (used : List String),
    (printValue isPrint value used).1 = templateText (valueTokens isPrint value)
  | .mk kind raw children, used => by
      cases kind with
      | «variable» =>
          rw [valueTokens]
          exact (List.append_nil _).symm
      | int | float | boolean | enum | string | block | null =>
          rw [valueTokens, templateText_plainTokens]
          rfl
      | object =>
          rw [valueTokens, List.cons_append, templateText_cons, templateText_append,
            templateText_joinTokens, ← printFields_eq children used]
          rfl
      | list =>
          rw [valueTokens, List.cons_append, templateText_cons, templateText_append,
            templateText_joinTokens, ← printValues_eq children used]
          rfl

theorem printFields_eq : ∀ (fields : List (String × ArgumentValue)) (used : List String),
    (printFields isPrint fields used).1 = (fieldTokens isPrint fields).map templateText
  | [], used => rfl
  | (name, value) :: rest, used => by
      rw [fieldTokens, List.map_cons, templateText_append, templateText_plainTokens,
        templateText_cons, templateText_cons, ← printValue_eq value used,
        ← printFields_eq rest (printValue isPrint value used).2]
      rfl

theorem printValues_eq : ∀ (items : List (String × ArgumentValue)) (used : List String),
    (printValues isPrint items used).1 = (itemTokens isPrint items).map templateText
  | [], used => rfl
  | (_, value) :: rest, used => by
      rw [itemTokens, List.map_cons, ← printValue_eq value used,
        ← printValues_eq rest (printValue isPrint value used).2]
      rfl

end

theorem printValue?_eq (value : Option ArgumentValue) (used : List String) :
    (printValue? isPrint value used).1 = templateText (valueTokens? isPrint value) := by
  cases value with
  | none => exact (templateText_plainTokens _).symm
  | some value => exact printValue_eq value used

mutual

theorem printDirective_eq : ∀ (directive : Directive) (used : List String),
    (printDirective isPrint false directive used).1 = templateText (directiveTokens isPrint directive)
  | .mk name isInternal arguments, used => by
      rw [directiveTokens, List.cons_append, templateText_cons, templateText_append,
        templateText_plainTokens]
      have printed := printEachArgument_eq arguments used
      by_cases empty : arguments.isEmpty = true
      · rw [if_pos empty]
        change '@' :: (name.toList ++ if arguments.isEmpty = true then _ else _) = _
        rw [if_pos empty]
        rfl
      · rw [if_neg empty, List.cons_append, templateText_cons, templateText_append,
          templateText_joinTokens, ← printed]
        change '@' :: (name.toList ++ if arguments.isEmpty = true then _ else _) = _
        rw [if_neg empty]
        rfl

theorem printEachDirective_eq : ∀ (directives : List Directive) (used : List String),
    (printEachDirective isPrint false directives used).1 =
      (directivesTokens isPrint directives).map templateText
  | [], used => rfl
  | directive :: rest, used => by
      rw [directivesTokens, printEachDirective]
      cases directive.isInternal with
      | true => exact printEachDirective_eq rest used
      | false =>
          rw [if_neg Bool.false_ne_true, List.map_cons, ← printDirective_eq directive used,
            ← printEachDirective_eq rest (printDirective isPrint false directive used).2]
          rfl

theorem printArgument_eq : ∀ (argument : Argument) (used : List String),
    (printArgument isPrint false argument used).1 = templateText (argumentTokens isPrint argument)
  | .mk name value directives, used => by
      rw [argumentTokens, templateText_append, templateText_append, templateText_plainTokens,
        templateText_cons, templateText_cons, ← printValue?_eq value used]
      have printed := printEachDirective_eq directives (printValue? isPrint value used).2
      change (name.toList ++ ':' :: ' ' :: (printValue? isPrint value used).1) ++
        (if (printEachDirective isPrint false directives
            (printValue? isPrint value used).2).1.isEmpty = true then []
          else ' ' :: joinTexts " " (printEachDirective isPrint false directives
            (printValue? isPrint value used).2).1) = _
      rw [printed, List.isEmpty_map]
      congr 1
      split
      · rfl
      · rw [templateText_cons, templateText_joinTokens]

theorem printEachArgument_eq : ∀ (arguments : List Argument) (used : List String),
    (printEachArgument isPrint false arguments used).1 =
      (argumentsTokens isPrint arguments).map templateText
  | [], used => rfl
  | argument :: rest, used => by
      rw [argumentsTokens, List.map_cons, ← printArgument_eq argument used,
        ← printEachArgument_eq rest (printArgument isPrint false argument used).2]
      rfl

end

theorem printSelectionArguments_eq (arguments : List Argument) (used : List String) :
    (printSelectionArguments isPrint false arguments used).1 =
      templateText (selectionArgumentTokens isPrint arguments) := by
  have printed := @printEachArgument_eq isPrint arguments used
  unfold printSelectionArguments selectionArgumentTokens
  by_cases empty : arguments.isEmpty = true
  · rw [if_pos empty, if_pos empty]
    rfl
  · rw [if_neg empty, if_neg empty, List.cons_append, templateText_cons, templateText_append,
      templateText_joinTokens, ← printed]
    rfl

theorem keyText_eq (aliased : String) (arguments : List Argument)
    (mode : Option PaginationMode) :
    keyText isPrint aliased arguments mode =
      templateText (keyTokens isPrint aliased arguments mode) := by
  unfold keyText keyTokens
  rw [templateText_append, templateText_append, templateText_plainTokens,
    templateText_plainTokens]
  split
  · rw [List.append_assoc]
    rfl
  · rw [printSelectionArguments_eq]

def Closed (tokens : List KeyToken) : Prop :=
  ∀ (char : Char) (rest : List KeyToken), isDelimiter char = true → Separated rest →
    Separated (tokens ++ .plain char :: rest)

theorem separated_plainTokens (text : List Char) {rest : List KeyToken}
    (separated : Separated rest) : Separated (plainTokens text ++ rest) := by
  induction text with
  | nil => exact separated
  | cons char text ih => exact ih

theorem closed_plainTokens (text : List Char) : Closed (plainTokens text) :=
  fun _ _ _ separated => separated_plainTokens text separated

theorem Closed.plain {tokens : List KeyToken} (closed : Closed tokens) (char : Char) :
    Closed (.plain char :: tokens) :=
  fun delimiter rest isDelimiter separated => closed delimiter rest isDelimiter separated

theorem Closed.plainTokens {tokens : List KeyToken} (closed : Closed tokens) (text : List Char) :
    Closed (plainTokens text ++ tokens) := fun delimiter rest isDelimiter separated => by
  rw [List.append_assoc]
  exact separated_plainTokens text (closed delimiter rest isDelimiter separated)

theorem Closed.append {tokens rest : List KeyToken} (closed : Closed tokens) {char : Char}
    (delimiter : isDelimiter char = true) (closedRest : Closed rest) :
    Closed (tokens ++ .plain char :: rest) := fun next others isDelimiter separated => by
  rw [List.append_assoc]
  exact closed char _ delimiter (closedRest next others isDelimiter separated)

theorem closed_joinTokens {separator : String} {first : Char} {others : List Char}
    (isSeparator : separator.toList = first :: others) (delimiter : isDelimiter first = true)
    {tokens : List (List KeyToken)} (closed : ∀ each ∈ tokens, Closed each) :
    Closed (joinTokens separator tokens) := by
  unfold joinTokens
  rw [isSeparator]
  induction tokens with
  | nil => exact closed_plainTokens []
  | cons each rest ih =>
      have closedRest := ih fun other member => closed other (List.mem_cons_of_mem _ member)
      cases rest with
      | nil =>
          rw [List.intercalate_singleton]
          exact closed each List.mem_cons_self
      | cons second rest =>
          rw [List.intercalate_cons_cons, List.append_assoc]
          exact (closed each List.mem_cons_self).append delimiter
            (closedRest.plainTokens others)

theorem closed_joinComma {tokens : List (List KeyToken)} (closed : ∀ each ∈ tokens, Closed each) :
    Closed (joinTokens ", " tokens) :=
  @closed_joinTokens ", " ',' [' '] (by decide) (by decide) tokens closed

theorem closed_joinSpace {tokens : List (List KeyToken)} (closed : ∀ each ∈ tokens, Closed each) :
    Closed (joinTokens " " tokens) :=
  @closed_joinTokens " " ' ' [] (by decide) (by decide) tokens closed

mutual

theorem closed_valueTokens : ∀ value : ArgumentValue, Closed (valueTokens isPrint value)
  | .mk kind raw children => by
      cases kind with
      | «variable» =>
          rw [valueTokens]
          exact fun char rest delimiter separated => ⟨⟨char, rest, rfl, delimiter⟩, separated⟩
      | int | float | boolean | enum | string | block | null =>
          rw [valueTokens]
          exact closed_plainTokens _
      | object =>
          rw [valueTokens, List.cons_append]
          exact ((closed_joinComma (closed_fieldTokens children)).append (by decide)
            (closed_plainTokens [])).plain _
      | list =>
          rw [valueTokens, List.cons_append]
          exact ((closed_joinComma (closed_itemTokens children)).append (by decide)
            (closed_plainTokens [])).plain _

theorem closed_fieldTokens : ∀ fields : List (String × ArgumentValue),
    ∀ each ∈ fieldTokens isPrint fields, Closed each
  | [], each, member => absurd member List.not_mem_nil
  | (name, value) :: rest, each, member => by
      rcases List.mem_cons.mp member with rfl | later
      · exact (((closed_valueTokens value).plain ' ').plain ':').plainTokens name.toList
      · exact closed_fieldTokens rest each later

theorem closed_itemTokens : ∀ items : List (String × ArgumentValue),
    ∀ each ∈ itemTokens isPrint items, Closed each
  | [], each, member => absurd member List.not_mem_nil
  | (_, value) :: rest, each, member => by
      rcases List.mem_cons.mp member with rfl | later
      · exact closed_valueTokens value
      · exact closed_itemTokens rest each later

end

theorem closed_valueTokens? (value : Option ArgumentValue) :
    Closed (valueTokens? isPrint value) := by
  cases value with
  | none => exact closed_plainTokens _
  | some value => exact closed_valueTokens value

mutual

theorem closed_directiveTokens : ∀ directive : Directive,
    Closed (directiveTokens isPrint directive)
  | .mk name isInternal arguments => by
      rw [directiveTokens, List.cons_append]
      refine Closed.plain (Closed.plainTokens ?_ _) _
      split
      · exact closed_plainTokens []
      · rw [List.cons_append]
        exact ((closed_joinComma (closed_argumentsTokens arguments)).append (by decide)
          (closed_plainTokens [])).plain _

theorem closed_directivesTokens : ∀ directives : List Directive,
    ∀ each ∈ directivesTokens isPrint directives, Closed each
  | [], each, member => absurd member List.not_mem_nil
  | directive :: rest, each, member => by
      rw [directivesTokens] at member
      split at member
      · exact closed_directivesTokens rest each member
      · rcases List.mem_cons.mp member with rfl | later
        · exact closed_directiveTokens directive
        · exact closed_directivesTokens rest each later

theorem closed_argumentTokens : ∀ argument : Argument, Closed (argumentTokens isPrint argument)
  | .mk name value directives => by
      have printed : Closed (plainTokens name.toList ++
          .plain ':' :: .plain ' ' :: valueTokens? isPrint value) :=
        (((closed_valueTokens? value).plain ' ').plain ':').plainTokens name.toList
      rw [argumentTokens]
      split
      · rw [List.append_nil]
        exact printed
      · exact printed.append (by decide) (closed_joinSpace (closed_directivesTokens directives))

theorem closed_argumentsTokens : ∀ arguments : List Argument,
    ∀ each ∈ argumentsTokens isPrint arguments, Closed each
  | [], each, member => absurd member List.not_mem_nil
  | argument :: rest, each, member => by
      rcases List.mem_cons.mp member with rfl | later
      · exact closed_argumentTokens argument
      · exact closed_argumentsTokens rest each later

end

theorem separated_keyTokens (aliased : String) (arguments : List Argument)
    (mode : Option PaginationMode) : Separated (keyTokens isPrint aliased arguments mode) := by
  have suffix : Separated (plainTokens (paginationSuffix mode)) := by
    rw [← List.append_nil (plainTokens _)]
    exact separated_plainTokens (paginationSuffix mode) trivial
  unfold keyTokens
  rw [List.append_assoc]
  refine separated_plainTokens _ ?_
  split
  · exact suffix
  · unfold selectionArgumentTokens
    split
    · exact suffix
    · rw [List.cons_append, List.cons_append, List.append_assoc]
      exact closed_joinComma (closed_argumentsTokens _) ')' _ (by decide) suffix

/-- The references of the template are replaced by their values and nothing else changes, and two
evaluations are the same just if every variable in the template has the same value. -/
def EvaluatesAsMeant (key : String) (tokens : List KeyToken) : Prop :=
  (∀ vars, NumericFields vars → evaluateKey key vars = String.ofList (evaluatedText vars tokens)) ∧
    ∀ vars others, NumericFields vars → NumericFields others →
      (evaluateKey key vars = evaluateKey key others ↔
        ∀ name ∈ KeyToken.references tokens, variableText vars name = variableText others name)

theorem evaluatesAsMeant_iff_quoted {tokens : List KeyToken} (named : KeyToken.Named tokens)
    (separated : Separated tokens) :
    EvaluatesAsMeant (String.ofList (templateText tokens)) tokens ↔
      KeyToken.Quoted false tokens := by
  constructor
  · rintro ⟨evaluates, _⟩
    have empty : NumericFields [] := trivial
    exact (Runtime.Cache.evaluateKey_iff_quoted empty named separated).mp (evaluates [] empty)
  · intro quoted
    have evaluates (vars : GraphQLObject) (numeric : NumericFields vars) :
        evaluateKey (String.ofList (templateText tokens)) vars =
          String.ofList (evaluatedText vars tokens) :=
      (Runtime.Cache.evaluateKey_iff_quoted numeric named separated).mpr quoted
    refine ⟨evaluates, fun vars others numeric numericOthers => ?_⟩
    rw [evaluates vars numeric, evaluates others numericOthers, String.ofList_inj,
      Runtime.Cache.evaluatedText_eq_iff numeric numericOthers separated]

end Printing

end Houdini.Plugin
