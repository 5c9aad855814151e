import Houdini.GraphQL.Definitions

/-! A parser for single executable definitions that have a name. -/

set_option autoImplicit false

universe u v

namespace GraphQL

abbrev Parser (Parsed : Type u) := List Token → Option (Parsed × List Token)

section Repetition

variable {Parsed : Type u} (parse : Parser Parsed)

def parseUpToWithin (stop : Token) : Nat → Parser (List Parsed)
  | 0, _ | _, [] => none
  | steps + 1, token :: rest =>
      if token = stop then some ([], rest)
      else
        match parse (token :: rest) with
        | none => none
        | some (first, rest) =>
            match parseUpToWithin stop steps rest with
            | none => none
            | some (others, rest) => some (first :: others, rest)

def parseUpTo (stop : Token) : Parser (List Parsed) := fun tokens =>
  parseUpToWithin parse stop (tokens.length + 1) tokens

def parseWhileWithin (start : Token) : Nat → Parser (List Parsed)
  | 0, _ => none
  | _, [] => some ([], [])
  | steps + 1, token :: rest =>
      if token ≠ start then some ([], token :: rest)
      else
        match parse (token :: rest) with
        | none => none
        | some (first, rest) =>
            match parseWhileWithin start steps rest with
            | none => none
            | some (others, rest) => some (first :: others, rest)

def parseWhile (start : Token) : Parser (List Parsed) := fun tokens =>
  parseWhileWithin parse start (tokens.length + 1) tokens

def parseEnclosed (opening closing : Char) : Parser (List Parsed)
  | [] => some ([], [])
  | token :: rest =>
      if token ≠ .punctuator opening then some ([], token :: rest)
      else
        match parseUpTo parse (.punctuator closing) rest with
        | some (first :: others, rest) => some (first :: others, rest)
        | _ => none

end Repetition

def namedValue (name : String) : Value :=
  if name = "true" then .boolean true
  else if name = "false" then .boolean false
  else if name = "null" then .null
  else .enum name

def parseEntry (parse : Parser Value) : Parser (String × Value)
  | .name name :: .punctuator ':' :: rest =>
      match parse rest with
      | some (value, rest) => some ((String.ofList name, value), rest)
      | none => none
  | _ => none

def parseVariableName : Parser Value
  | .name name :: rest => some (.variable (String.ofList name), rest)
  | _ => none

def parseValue : Nat → Parser Value
  | depth + 1, .punctuator char :: rest =>
      if char = '[' then
        match parseUpTo (parseValue depth) (.punctuator ']') rest with
        | some (values, rest) => some (.list values, rest)
        | none => none
      else if char = openBrace then
        match parseUpTo (parseEntry (parseValue depth)) (.punctuator closeBrace) rest with
        | some (fields, rest) => some (.object fields, rest)
        | none => none
      else if char = '$' then parseVariableName rest
      else none
  | _ + 1, .int text :: rest => some (.int (String.ofList text), rest)
  | _ + 1, .float text :: rest => some (.float (String.ofList text), rest)
  | _ + 1, .string value :: rest => some (.string (String.ofList value), rest)
  | _ + 1, .block value :: rest => some (.block (String.ofList value), rest)
  | _ + 1, .name name :: rest => some (namedValue (String.ofList name), rest)
  | _, _ => none

def parseRequired (type : TypeReference) : List Token → TypeReference × List Token
  | [] => (type, [])
  | token :: rest =>
      if token = .punctuator '!' then (.nonNull type, rest) else (type, token :: rest)

def parseType : Nat → Parser TypeReference
  | _ + 1, .name name :: rest => some (parseRequired (.named (String.ofList name)) rest)
  | depth + 1, .punctuator '[' :: rest =>
      match parseType depth rest with
      | some (element, .punctuator ']' :: rest) => some (parseRequired (.list element) rest)
      | _ => none
  | _, _ => none

section Definitions

-- how deep anything is nested at most
variable (depth : Nat)

def parseArguments : Parser (List (String × Value)) :=
  parseEnclosed (parseEntry (parseValue depth)) '(' ')'

def parseDirective : Parser Directive
  | .punctuator '@' :: .name name :: rest =>
      match parseArguments depth rest with
      | some (arguments, rest) => some ({ name := String.ofList name, arguments }, rest)
      | none => none
  | _ => none

def parseDirectives : Parser (List Directive) :=
  parseWhile (parseDirective depth) (.punctuator '@')

def parseField (aliased : Option String) (name : List Char) : Parser SelectionHead := fun rest =>
  match parseArguments depth rest with
  | some (arguments, rest) => some (.field aliased (String.ofList name) arguments, rest)
  | none => none

def parseHead : Parser SelectionHead
  | .spread :: .name name :: rest =>
      if name = "on".toList then
        match rest with
        | .name typeCondition :: rest =>
            some (.inlineFragment (some (String.ofList typeCondition)), rest)
        | _ => none
      else some (.spread (String.ofList name), rest)
  | .spread :: rest => some (.inlineFragment none, rest)
  | .name aliased :: .punctuator ':' :: .name name :: rest =>
      parseField depth (some (String.ofList aliased)) name rest
  | .name name :: rest => parseField depth none name rest
  | _ => none

def parseSet (parse : Parser Selection) : Parser (Option (List Selection)) := fun tokens =>
  match parseEnclosed parse openBrace closeBrace tokens with
  | some ([], rest) => some (none, rest)
  | some (selections, rest) => some (some selections, rest)
  | none => none

def parseSelection : Nat → Parser Selection
  | 0, _ => none
  | level + 1, tokens =>
      match parseHead depth tokens with
      | none => none
      | some (head, rest) =>
          match parseDirectives depth rest with
          | none => none
          | some (directives, rest) =>
              match parseSet (parseSelection level) rest with
              | none => none
              | some (set, rest) =>
                  if head.allows set then some (.mk head directives set, rest) else none

def parseDefault : Parser (Option Value)
  | [] => some (none, [])
  | token :: rest =>
      if token ≠ .punctuator '=' then some (none, token :: rest)
      else
        match parseValue depth rest with
        | some (value, rest) => some (some value, rest)
        | none => none

def parseVariable : Parser VariableDefinition
  | .punctuator '$' :: .name name :: .punctuator ':' :: rest =>
      match parseType depth rest with
      | none => none
      | some (type, rest) =>
          match parseDefault depth rest with
          | none => none
          | some (defaultValue, rest) =>
              match parseDirectives depth rest with
              | none => none
              | some (directives, rest) =>
                  some ({ name := String.ofList name, type, defaultValue, directives }, rest)
  | _ => none

def operationKind (name : List Char) : Option OperationKind :=
  [.query, .mutation, .subscription].find? fun kind => kind.text.toList = name

def parseDefinitionHead : Parser DefinitionHead
  | .name keyword :: .name name :: rest =>
      match operationKind keyword with
      | some kind =>
          match parseEnclosed (parseVariable depth) '(' ')' rest with
          | some (declared, rest) => some (.operation kind (String.ofList name) declared, rest)
          | none => none
      | none =>
          match rest with
          | .name on :: .name typeCondition :: rest =>
              if keyword = "fragment".toList ∧ on = "on".toList ∧ name ≠ "on".toList then
                some (.fragment (String.ofList name) (String.ofList typeCondition), rest)
              else none
          | _ => none
  | _ => none

end Definitions

def parseDefinition (tokens : List Token) : Option Definition :=
  match parseDefinitionHead tokens.length tokens with
  | none => none
  | some (head, rest) =>
      match parseDirectives tokens.length rest with
      | none => none
      | some (directives, rest) =>
          match parseSet (parseSelection tokens.length tokens.length) rest with
          | some (some selections, []) => some { head, directives, selections }
          | _ => none

def parse (text : List Char) : Option Definition := (lex text).bind parseDefinition

end GraphQL
