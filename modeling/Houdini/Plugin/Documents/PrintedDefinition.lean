import Houdini.GraphQL.ParserProperties
import Houdini.GraphQL.Strings
import Houdini.Plugin.Documents.SentVariables

/-! What is read from the text of a document: when it is the document again. -/

set_option autoImplicit false

namespace Houdini.Plugin

open GraphQL (Token Reads ReadsEach Opens IsToken word enclosed)

mutual

def ArgumentValue.toValue : ArgumentValue → GraphQL.Value
  | .mk kind raw children =>
      match kind with
      | .variable => .variable raw
      | .int => .int raw
      | .float => .float raw
      | .string => .string raw
      | .block => .block raw
      | .boolean => .boolean (raw = "true")
      | .null => .null
      | .enum => .enum raw
      | .list => .list (childValues children)
      | .object => .object (childFields children)

def childValues : List (String × ArgumentValue) → List GraphQL.Value
  | [] => []
  | (_, value) :: rest => value.toValue :: childValues rest

def childFields : List (String × ArgumentValue) → List (String × GraphQL.Value)
  | [] => []
  | (name, value) :: rest => (name, value.toValue) :: childFields rest

end

def Argument.toEntry : Argument → String × GraphQL.Value
  | .mk name none _ => (name, .null)
  | .mk name (some value) _ => (name, value.toValue)

def Directive.toDirective : Directive → GraphQL.Directive
  | .mk name _ arguments => { name, arguments := arguments.map (·.toEntry) }

def OperationVariable.typeReference (declared : OperationVariable) : GraphQL.TypeReference :=
  declared.typeModifiers.toList.foldl (fun type modifier =>
    if modifier = '!' then .nonNull type else .list type) (.named declared.type)

section Sent

variable (includeHidden : Bool)

def sentDirectives (directives : List Directive) : List GraphQL.Directive :=
  (directives.filter fun directive => !directive.isInternal || includeHidden).map (·.toDirective)

def selectionHead (kind : SelectionKind) (fieldName : String) (aliased : Option String)
    (arguments : List Argument) : GraphQL.SelectionHead :=
  match kind with
  | .field => .field (aliased.filter (· ≠ fieldName)) fieldName (arguments.map (·.toEntry))
  | .fragment => .spread fieldName
  | .inlineFragment => .inlineFragment (if fieldName = "" then none else some fieldName)

mutual

def Selection.toSelection : Selection → GraphQL.Selection
  | .mk kind fieldName aliased _ arguments directives children =>
      .mk (selectionHead kind fieldName aliased arguments) (sentDirectives includeHidden directives)
        (if children.isEmpty then none else some (toSelections children))

def toSelections : List Selection → List GraphQL.Selection
  | [] => []
  | selection :: rest =>
      if selection.isHidden then toSelections rest
      else selection.toSelection :: toSelections rest

end

def OperationVariable.toVariable (declared : OperationVariable) : GraphQL.VariableDefinition where
  name := declared.name
  type := declared.typeReference
  defaultValue := declared.defaultValue.map (·.toValue)
  directives := sentDirectives includeHidden declared.directives

def Document.sentVariables (document : Document) : List OperationVariable :=
  (sortedNames (document.notes includeHidden)).filterMap fun name =>
    document.declared.find? (·.name = name)

def Document.definitionHead (document : Document) : GraphQL.DefinitionHead :=
  let declared := (document.sentVariables includeHidden).map (·.toVariable includeHidden)
  match document.kind with
  | .query => .operation .query document.name declared
  | .mutation => .operation .mutation document.name declared
  | .subscription => .operation .subscription document.name declared
  | .fragment => .fragment document.name document.typeCondition

/-- What is sent of a document: without the `__id` fields, the internal directives and the variables
that are not used. -/
def Document.toDefinition (document : Document) : GraphQL.Definition where
  head := document.definitionHead includeHidden
  directives := sentDirectives includeHidden document.directives
  selections := toSelections includeHidden document.selections

end Sent

def IsName (text : String) : Prop := IsToken (word text) text.toList

mutual

def ArgumentValue.WellFormed : ArgumentValue → Prop
  | .mk kind raw children =>
      match kind with
      | .variable => IsName raw
      | .int => IsToken (.int raw.toList) raw.toList
      | .float => IsToken (.float raw.toList) raw.toList
      | .boolean => raw = "true" ∨ raw = "false"
      | .enum => IsName raw ∧ (GraphQL.Value.enum raw).Valid
      | .list => WellFormedValues children
      | .object => WellFormedFields children
      | .string | .block | .null => True

def WellFormedValues : List (String × ArgumentValue) → Prop
  | [] => True
  | (_, value) :: rest => value.WellFormed ∧ WellFormedValues rest

def WellFormedFields : List (String × ArgumentValue) → Prop
  | [] => True
  | (name, value) :: rest => IsName name ∧ value.WellFormed ∧ WellFormedFields rest

end

def Argument.WellFormed : Argument → Prop
  | .mk name value directives =>
      IsName name ∧ (∀ given ∈ value, given.WellFormed) ∧ directives = []

def Directive.WellFormed : Directive → Prop
  | .mk name _ arguments => IsName name ∧ ∀ argument ∈ arguments, argument.WellFormed

def SelectionKind.WellFormed (kind : SelectionKind) (fieldName : String) (aliased : Option String)
    (arguments : List Argument) (children : List Selection) : Prop :=
  match kind with
  | .field => IsName fieldName ∧ (∀ name ∈ aliased, IsName name) ∧
      ∀ argument ∈ arguments, argument.WellFormed
  | .fragment => IsName fieldName ∧ fieldName ≠ "on" ∧ children = []
  | .inlineFragment => (fieldName = "" ∨ IsName fieldName) ∧ children ≠ []

mutual

def Selection.WellFormed : Selection → Prop
  | .mk kind fieldName aliased _ arguments directives children =>
      kind.WellFormed fieldName aliased arguments children ∧
        (∀ directive ∈ directives, directive.WellFormed) ∧ WellFormedSelections children

def WellFormedSelections : List Selection → Prop
  | [] => True
  | selection :: rest => selection.WellFormed ∧ WellFormedSelections rest

end

/-- The modifiers close lists and require types, none of them twice. -/
structure OperationVariable.WellFormed (declared : OperationVariable) : Prop where
  name : IsName declared.name
  type : IsName declared.type
  modifiers : ∀ modifier ∈ declared.typeModifiers.toList, modifier = '!' ∨ modifier = ']'
  required : declared.typeReference.Valid
  defaultValue : ∀ value ∈ declared.defaultValue, value.WellFormed
  directives : ∀ directive ∈ declared.directives, directive.WellFormed

/-- A document that was parsed. No variable is declared twice. -/
structure Document.WellFormed (document : Document) : Prop where
  name : IsName document.name
  typeCondition : document.kind = .fragment → IsName document.typeCondition ∧ document.name ≠ "on"
  directives : ∀ directive ∈ document.directives, directive.WellFormed
  selections : WellFormedSelections document.selections
  declared : ∀ declared ∈ document.declared, declared.WellFormed
  once : (document.declared.map (·.name)).Nodup

section PrintsBack

variable (isPrint : Char → Bool)

def PrintsNoControl : Prop := ∀ char, isPrint char = true → 32 ≤ char.toNat

def PrintsBackChar (char : Char) : Prop :=
  char = '"' ∨ char = '\\' ∨ isPrint char = true ∨ char.toNat ∈ [8, 9, 10, 12, 13] ∨
    (32 ≤ char.toNat ∧ char.toNat ≠ 127 ∧ char.toNat < 65536)

mutual

/-- No `null` is in the value, its block strings can stand between quotes, and its strings have
characters that print back. -/
def ArgumentValue.PrintsBack : ArgumentValue → Prop
  | .mk kind raw children =>
      match kind with
      | .string => ∀ char ∈ raw.toList, PrintsBackChar isPrint char
      | .block => GraphQL.IsBlock raw.toList
      | .null => False
      | .list | .object => ChildrenPrintBack children
      | _ => True

def ChildrenPrintBack : List (String × ArgumentValue) → Prop
  | [] => True
  | (_, value) :: rest => value.PrintsBack ∧ ChildrenPrintBack rest

end

def Argument.PrintsBack : Argument → Prop
  | .mk _ value _ => ∀ given ∈ value, given.PrintsBack isPrint

def ArgumentsPrintBack (arguments : List Argument) : Prop :=
  ∀ argument ∈ arguments, argument.PrintsBack isPrint

def Directive.PrintsBack : Directive → Prop
  | .mk _ _ arguments => ArgumentsPrintBack isPrint arguments

variable (includeHidden : Bool)

def DirectivesPrintBack (directives : List Directive) : Prop :=
  ∀ directive ∈ directives, (directive.isInternal && !includeHidden) = false →
    directive.PrintsBack isPrint

mutual

def Selection.PrintsBack : Selection → Prop
  | .mk kind _ _ _ arguments directives children =>
      (kind = .field → ArgumentsPrintBack isPrint arguments) ∧
        DirectivesPrintBack isPrint includeHidden directives ∧ SelectionsPrintBack children

def SelectionsPrintBack : List Selection → Prop
  | [] => True
  | selection :: rest =>
      (selection.isHidden = false → selection.PrintsBack) ∧ SelectionsPrintBack rest

end

mutual

def Selection.Filled : Selection → Prop
  | .mk _ _ _ _ _ _ children =>
      (children ≠ [] → toSelections includeHidden children ≠ []) ∧ SelectionsFilled children

def SelectionsFilled : List Selection → Prop
  | [] => True
  | selection :: rest => (selection.isHidden = false → selection.Filled) ∧ SelectionsFilled rest

end

def OperationVariable.PrintsBack (declared : OperationVariable) : Prop :=
  (∀ value ∈ declared.defaultValue, value.PrintsBack isPrint) ∧
    DirectivesPrintBack isPrint includeHidden declared.directives

def Document.HeaderPrintsBack (document : Document) : Prop :=
  (∀ declared ∈ document.sentVariables includeHidden, declared.PrintsBack isPrint includeHidden) ∧
    (document.notes includeHidden ≠ [] → document.sentVariables includeHidden ≠ [])

structure Document.PrintsBack (document : Document) : Prop where
  header : document.kind ≠ .fragment → document.HeaderPrintsBack isPrint includeHidden
  directives : DirectivesPrintBack isPrint includeHidden document.directives
  selections : SelectionsPrintBack isPrint includeHidden document.selections
  printed : toSelections includeHidden document.selections ≠ []
  filled : SelectionsFilled includeHidden document.selections

end PrintsBack

end Houdini.Plugin
