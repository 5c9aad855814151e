import Houdini.GraphQL.Lexer

/-! Executable definitions, and the tokens that they are written with. -/

set_option autoImplicit false

namespace GraphQL

inductive Value where
  | «variable» (name : String)
  | int (text : String)
  | float (text : String)
  | string (value : String)
  | block (value : String)
  | boolean (value : Bool)
  | null
  | enum (name : String)
  | list (values : List Value)
  | object (fields : List (String × Value))
  deriving Repr

inductive TypeReference where
  | named (name : String)
  | list (element : TypeReference)
  | nonNull (type : TypeReference)
  deriving DecidableEq, Repr

structure Directive where
  name : String
  arguments : List (String × Value) := []
  deriving Repr

structure VariableDefinition where
  name : String
  type : TypeReference
  defaultValue : Option Value := none
  directives : List Directive := []
  deriving Repr

inductive SelectionHead where
  | field (aliased : Option String) (name : String) (arguments : List (String × Value))
  | spread (name : String)
  | inlineFragment (typeCondition : Option String)
  deriving Repr

inductive Selection where
  | mk (head : SelectionHead) (directives : List Directive) (set : Option (List Selection))
  deriving Repr

inductive OperationKind where
  | query
  | mutation
  | subscription
  deriving DecidableEq, Repr

inductive DefinitionHead where
  | operation (kind : OperationKind) (name : String) (declared : List VariableDefinition)
  | fragment (name typeCondition : String)
  deriving Repr

structure Definition where
  head : DefinitionHead
  directives : List Directive := []
  selections : List Selection
  deriving Repr

def word (text : String) : Token := .name text.toList

def enclosed (opening closing : Char) (tokens : List Token) : List Token :=
  .punctuator opening :: (tokens ++ [.punctuator closing])

mutual

def Value.tokens : Value → List Token
  | .variable name => [.punctuator '$', word name]
  | .int text => [.int text.toList]
  | .float text => [.float text.toList]
  | .string value => [.string value.toList]
  | .block value => [.block value.toList]
  | .boolean value => [word (if value then "true" else "false")]
  | .null => [word "null"]
  | .enum name => [word name]
  | .list values => enclosed '[' ']' (valuesTokens values)
  | .object fields => enclosed openBrace closeBrace (entriesTokens fields)

def valuesTokens : List Value → List Token
  | [] => []
  | value :: rest => value.tokens ++ valuesTokens rest

def entriesTokens : List (String × Value) → List Token
  | [] => []
  | (name, value) :: rest => word name :: .punctuator ':' :: (value.tokens ++ entriesTokens rest)

end

def TypeReference.tokens : TypeReference → List Token
  | .named name => [word name]
  | .list element => enclosed '[' ']' element.tokens
  | .nonNull type => type.tokens ++ [.punctuator '!']

def argumentsTokens (arguments : List (String × Value)) : List Token :=
  if arguments.isEmpty then [] else enclosed '(' ')' (entriesTokens arguments)

def Directive.tokens (directive : Directive) : List Token :=
  .punctuator '@' :: word directive.name :: argumentsTokens directive.arguments

def directivesTokens (directives : List Directive) : List Token := directives.flatMap (·.tokens)

def SelectionHead.tokens : SelectionHead → List Token
  | .field none name arguments => word name :: argumentsTokens arguments
  | .field (some aliased) name arguments =>
      word aliased :: .punctuator ':' :: word name :: argumentsTokens arguments
  | .spread name => [.spread, word name]
  | .inlineFragment none => [.spread]
  | .inlineFragment (some typeCondition) => [.spread, word "on", word typeCondition]

mutual

def Selection.tokens : Selection → List Token
  | .mk head directives set => head.tokens ++ (directivesTokens directives ++ setTokens set)

def setTokens : Option (List Selection) → List Token
  | none => []
  | some selections => enclosed openBrace closeBrace (selectionsTokens selections)

def selectionsTokens : List Selection → List Token
  | [] => []
  | selection :: rest => selection.tokens ++ selectionsTokens rest

end

def defaultTokens : Option Value → List Token
  | none => []
  | some value => .punctuator '=' :: value.tokens

def VariableDefinition.tokens (definition : VariableDefinition) : List Token :=
  .punctuator '$' :: word definition.name :: .punctuator ':' :: (definition.type.tokens ++
    (defaultTokens definition.defaultValue ++ directivesTokens definition.directives))

def OperationKind.text : OperationKind → String
  | .query => "query"
  | .mutation => "mutation"
  | .subscription => "subscription"

def DefinitionHead.tokens : DefinitionHead → List Token
  | .operation kind name declared =>
      word kind.text :: word name ::
        if declared.isEmpty then [] else enclosed '(' ')' (declared.flatMap (·.tokens))
  | .fragment name typeCondition =>
      [word "fragment", word name, word "on", word typeCondition]

def Definition.tokens (definition : Definition) : List Token :=
  definition.head.tokens ++ (directivesTokens definition.directives ++
    enclosed openBrace closeBrace (selectionsTokens definition.selections))

mutual

def Value.Valid : Value → Prop
  | .enum name => name ≠ "true" ∧ name ≠ "false" ∧ name ≠ "null"
  | .list values => ValidValues values
  | .object fields => ValidEntries fields
  | _ => True

def ValidValues : List Value → Prop
  | [] => True
  | value :: rest => value.Valid ∧ ValidValues rest

def ValidEntries : List (String × Value) → Prop
  | [] => True
  | (_, value) :: rest => value.Valid ∧ ValidEntries rest

end

def TypeReference.Valid : TypeReference → Prop
  | .named _ => True
  | .list element => element.Valid
  | .nonNull (.nonNull _) => False
  | .nonNull type => type.Valid

def ValidDirectives (directives : List Directive) : Prop :=
  ∀ directive ∈ directives, ValidEntries directive.arguments

def SelectionHead.Valid : SelectionHead → Prop
  | .field _ _ arguments => ValidEntries arguments
  | .spread name => name ≠ "on"
  | .inlineFragment _ => True

def SelectionHead.allows {Set : Type} : SelectionHead → Option Set → Bool
  | .field .., _ => true
  | .spread _, set => set.isNone
  | .inlineFragment _, set => set.isSome

mutual

def Selection.Valid : Selection → Prop
  | .mk head directives set =>
      head.Valid ∧ ValidDirectives directives ∧ head.allows set = true ∧ ValidSet set

def ValidSet : Option (List Selection) → Prop
  | none => True
  | some selections => selections ≠ [] ∧ ValidSelections selections

def ValidSelections : List Selection → Prop
  | [] => True
  | selection :: rest => selection.Valid ∧ ValidSelections rest

end

structure VariableDefinition.Valid (definition : VariableDefinition) : Prop where
  type : definition.type.Valid
  defaultValue : ∀ value ∈ definition.defaultValue, value.Valid
  directives : ValidDirectives definition.directives

def DefinitionHead.Valid : DefinitionHead → Prop
  | .operation _ _ declared => ∀ definition ∈ declared, definition.Valid
  | .fragment name _ => name ≠ "on"

structure Definition.Valid (definition : Definition) : Prop where
  head : definition.head.Valid
  directives : ValidDirectives definition.directives
  selections : ValidSet (some definition.selections)

end GraphQL
