import Houdini.Plugin.Documents.Collected
import Houdini.Plugin.Json

/-! Documents as they are printed for the server. Printing notes the variables that it meets, so
that the header declares no other ones. -/

set_option autoImplicit false

namespace Houdini.Plugin

abbrev PrintM := StateM (List String)

def useVariable (name : String) : PrintM Unit := modify fun used => used ++ [name]

def joinTexts (separator : String) (texts : List (List Char)) : List Char :=
  separator.toList.intercalate texts

def openBrace : Char := Char.ofNat 123

def closeBrace : Char := Char.ofNat 125

def hexDigits : Nat → Nat → List Char
  | 0, _ => []
  | width + 1, number => hexDigits width (number / 16) ++ [hexDigit (number % 16)]

/-- One character of a text that `%q` prints. Which characters are printable, `strconv` looks up
in its tables. -/
def quotedChar (isPrint : Char → Bool) (char : Char) : List Char :=
  if char = '"' ∨ char = '\\' then ['\\', char]
  else if isPrint char then [char]
  else if char.toNat = 7 then ['\\', 'a']
  else if char.toNat = 8 then ['\\', 'b']
  else if char.toNat = 12 then ['\\', 'f']
  else if char.toNat = 10 then ['\\', 'n']
  else if char.toNat = 13 then ['\\', 'r']
  else if char.toNat = 9 then ['\\', 't']
  else if char.toNat = 11 then ['\\', 'v']
  else if char.toNat < 32 ∨ char.toNat = 127 then '\\' :: 'x' :: hexDigits 2 char.toNat
  else if char.toNat < 65536 then '\\' :: 'u' :: hexDigits 4 char.toNat
  else '\\' :: 'U' :: hexDigits 8 char.toNat

def quotedText (isPrint : Char → Bool) (text : String) : List Char :=
  '"' :: text.toList.flatMap (quotedChar isPrint) ++ ['"']

section Printing

variable (isPrint : Char → Bool)

mutual

def stringifyValue : ArgumentValue → PrintM (List Char)
  | .mk kind raw children =>
      match kind with
      | .string | .enum => return quotedText isPrint raw
      | .block => return "\"\"\"".toList ++ raw.toList ++ "\"\"\"".toList
      | .variable => do
          useVariable raw
          return '$' :: raw.toList
      | .int | .float | .boolean => return raw.toList
      | .object => do
          let fields ← stringifyFields children
          return openBrace :: joinTexts ", " fields ++ [closeBrace]
      | .list => do
          let values ← stringifyValues children
          return '[' :: joinTexts ", " values ++ [']']
      | .null => return jsonString raw

def stringifyFields : List (String × ArgumentValue) → PrintM (List (List Char))
  | [] => return []
  | (name, value) :: rest => do
      let text ← stringifyValue value
      let texts ← stringifyFields rest
      return (name.toList ++ ':' :: ' ' :: text) :: texts

def stringifyValues : List (String × ArgumentValue) → PrintM (List (List Char))
  | [] => return []
  | (_, value) :: rest => do
      let text ← stringifyValue value
      let texts ← stringifyValues rest
      return text :: texts

end

mutual

def printValue : ArgumentValue → PrintM (List Char)
  | .mk kind raw children =>
      match kind with
      | .enum => return raw.toList
      | .object => do
          let fields ← printFields children
          return openBrace :: joinTexts ", " fields ++ [closeBrace]
      | .list => do
          let values ← printValues children
          return '[' :: joinTexts ", " values ++ [']']
      | _ => stringifyValue isPrint (.mk kind raw children)

def printFields : List (String × ArgumentValue) → PrintM (List (List Char))
  | [] => return []
  | (name, value) :: rest => do
      let text ← printValue value
      let texts ← printFields rest
      return (name.toList ++ ':' :: ' ' :: text) :: texts

def printValues : List (String × ArgumentValue) → PrintM (List (List Char))
  | [] => return []
  | (_, value) :: rest => do
      let text ← printValue value
      let texts ← printValues rest
      return text :: texts

end

def printValue? : Option ArgumentValue → PrintM (List Char)
  | none => return "null".toList
  | some value => printValue isPrint value

variable (includeHidden : Bool)

mutual

def printDirective : Directive → PrintM (List Char)
  | .mk name _ arguments => do
      let printedArguments ← printEachArgument arguments
      return '@' :: name.toList ++
        if arguments.isEmpty then [] else '(' :: joinTexts ", " printedArguments ++ [')']

def printEachDirective : List Directive → PrintM (List (List Char))
  | [] => return []
  | directive :: rest =>
      if directive.isInternal && !includeHidden then printEachDirective rest
      else do
        let printed ← printDirective directive
        let others ← printEachDirective rest
        return printed :: others

def printArgument : Argument → PrintM (List Char)
  | .mk name value directives => do
      let printedValue ← printValue? isPrint value
      let printedDirectives ← printEachDirective directives
      return name.toList ++ ':' :: ' ' :: printedValue ++
        if printedDirectives.isEmpty then [] else ' ' :: joinTexts " " printedDirectives

def printEachArgument : List Argument → PrintM (List (List Char))
  | [] => return []
  | argument :: rest => do
      let printed ← printArgument argument
      let others ← printEachArgument rest
      return printed :: others

end

def printDirectives (directives : List Directive) : PrintM (List Char) := do
  let printed ← printEachDirective isPrint includeHidden directives
  return if printed.isEmpty then [] else ' ' :: joinTexts " " printed

def printSelectionArguments (arguments : List Argument) : PrintM (List Char) := do
  if arguments.isEmpty then return []
  else
    let printed ← printEachArgument isPrint includeHidden arguments
    return '(' :: joinTexts ", " printed ++ [')']

def Selection.isHidden : Selection → Bool
  | .mk kind fieldName _ _ _ _ _ => kind = .field && fieldName = "__id"

def indentation (level : Nat) : List Char := List.replicate (4 * level) ' '

def printSelectionStart (kind : SelectionKind) (fieldName : String) (aliased : Option String)
    (fragmentArgs : List String) (arguments : List Argument) : PrintM (List Char) :=
  match kind with
  | .fragment => do
      fragmentArgs.forM useVariable
      return "...".toList ++ fieldName.toList
  | .inlineFragment =>
      return "...".toList ++ if fieldName = "" then [] else " on ".toList ++ fieldName.toList
  | .field => do
      let printedArguments ← printSelectionArguments isPrint includeHidden arguments
      return (match aliased with
        | some name => if name = fieldName then [] else name.toList ++ ':' :: [' ']
        | none => []) ++ fieldName.toList ++ printedArguments

mutual

def printSelection (level : Nat) : Selection → PrintM (List Char)
  | .mk kind fieldName aliased fragmentArgs arguments directives children => do
      let start ←
        printSelectionStart isPrint includeHidden kind fieldName aliased fragmentArgs arguments
      let printedDirectives ← printDirectives isPrint includeHidden directives
      let printed ← printSelections (level + 1) children
      return indentation level ++ start ++ printedDirectives ++
        (if children.isEmpty then []
          else ' ' :: openBrace :: '\n' :: printed ++ indentation level ++ [closeBrace]) ++ ['\n']

def printSelections (level : Nat) : List Selection → PrintM (List Char)
  | [] => return []
  | selection :: rest =>
      if selection.isHidden then printSelections level rest
      else do
        let printed ← printSelection level selection
        let others ← printSelections level rest
        return printed ++ others

end

def OperationVariable.typeText (declared : OperationVariable) : List Char :=
  List.replicate (declared.typeModifiers.toList.count ']') '[' ++ declared.type.toList ++
    declared.typeModifiers.toList

def printDefaultValue : Option ArgumentValue → PrintM (List Char)
  | none => return []
  | some value => do
      let printed ← printValue isPrint value
      return " = ".toList ++ printed

def printDocumentVariables (declared : OperationVariable) : PrintM (List Char) := do
  let defaultText ← printDefaultValue isPrint declared.defaultValue
  let printedDirectives ← printDirectives isPrint includeHidden declared.directives
  return '$' :: declared.name.toList ++ ':' :: ' ' :: declared.typeText ++ defaultText ++
    printedDirectives

def DocumentKind.text : DocumentKind → String
  | .query => "query"
  | .mutation => "mutation"
  | .subscription => "subscription"
  | .fragment => "fragment"

def printEachVariable : List OperationVariable → PrintM (OrderedMap String (List Char))
  | [] => return ∅
  | declared :: rest => do
      let printed ← printDocumentVariables isPrint includeHidden declared
      let others ← printEachVariable rest
      return if (others.get? declared.name).isSome then others else others.set declared.name printed

def sortedNames (used : List String) : List String := used.dedup.mergeSort fun first second =>
  decide (first ≤ second)

structure PrintedDocument where
  text : List Char
  headerNames : List String := []
  unusedVariables : List String := []
  deriving DecidableEq, Repr

def printBody (document : Document) : PrintM (List Char × List Char) := do
  let documentDirectives ← printDirectives isPrint includeHidden document.directives
  let selection ← printSelections isPrint includeHidden 1 document.selections
  return (documentDirectives, selection)

def printTitle (document : Document) (printedVars : OrderedMap String (List Char))
    (toPrint : List String) : List Char :=
  document.kind.text.toList ++ ' ' :: document.name.toList ++
    if toPrint.isEmpty then []
    else '(' :: joinTexts ", " (toPrint.map fun name => (printedVars.get? name).getD []) ++ [')']

def printCollectedDocument (document : Document) : PrintedDocument :=
  let body := (printBody isPrint includeHidden document).run []
  let bodyText := body.1.1 ++ ' ' :: openBrace :: '\n' :: body.1.2 ++ [closeBrace]
  if document.kind = .fragment then
    { text := document.kind.text.toList ++ ' ' :: document.name.toList ++
        " on ".toList ++ document.typeCondition.toList ++ bodyText }
  else
    let printedVars := (printEachVariable isPrint includeHidden document.declared).run body.2
    let toPrint := sortedNames printedVars.2
    { text := printTitle document printedVars.1 toPrint ++ bodyText
      headerNames := toPrint.filter fun name => (printedVars.1.get? name).isSome
      unusedVariables :=
        (document.declared.map (·.name)).filter fun name => !printedVars.2.contains name }

end Printing

end Houdini.Plugin
