import Houdini.Plugin.Documents.Print
import Houdini.Runtime.Cache.KeyTemplates

/-! The keys that the compiler gives to the fields of an artifact, and the references to variables
that are in them. -/

set_option autoImplicit false

namespace Houdini.Plugin

open Houdini.Runtime.Cache (KeyToken templateText)
open Houdini.Runtime.GraphQLValue (isDelimiter)

inductive PaginationMode where
  | infinite
  | singlePage
  deriving DecidableEq

def Argument.name : Argument → String
  | .mk name _ _ => name

def paginationArgs : List String := ["first", "last", "after", "before", "limit", "offset"]

def cursorNames : List String := ["first", "after", "last", "before"]

def withCursors (arguments : List Argument) : List Argument :=
  cursorNames.map (fun name =>
      (arguments.reverse.find? fun argument => argument.name = name).getD (.mk name none [])) ++
    arguments.filter fun argument => !cursorNames.contains argument.name

def keyArguments (mode : Option PaginationMode) (arguments : List Argument) : List Argument :=
  match mode with
  | none => arguments
  | some .infinite => arguments.filter fun argument => !paginationArgs.contains argument.name
  | some .singlePage => withCursors arguments

def paginationSuffix (mode : Option PaginationMode) : List Char :=
  if mode = some .infinite then "::paginated".toList else []

section Printing

variable (isPrint : Char → Bool)

/-- `keyField`, for a field that has an alias. The artifact holds it as a JSON text, which reads
back as what it was. -/
def keyText (aliased : String) (arguments : List Argument) (mode : Option PaginationMode) :
    List Char :=
  if arguments.isEmpty then aliased.toList ++ paginationSuffix mode
  else
    aliased.toList ++
      (printSelectionArguments isPrint false (keyArguments mode arguments) []).1 ++
        paginationSuffix mode

def keyField (mode : Option PaginationMode) : Selection → Option String
  | .mk _ _ aliased _ arguments _ _ =>
      aliased.map fun aliased => String.ofList (keyText isPrint aliased arguments mode)

def plainTokens (text : List Char) : List KeyToken := text.map .plain

def joinTokens (separator : String) (tokens : List (List KeyToken)) : List KeyToken :=
  (plainTokens separator.toList).intercalate tokens

mutual

def valueTokens : ArgumentValue → List KeyToken
  | .mk kind raw children =>
      match kind with
      | .variable => [.reference raw]
      | .enum | .int | .float | .boolean => plainTokens raw.toList
      | .string => plainTokens (quotedText isPrint raw)
      | .block => plainTokens ("\"\"\"".toList ++ raw.toList ++ "\"\"\"".toList)
      | .null => plainTokens (jsonString raw)
      | .object => .plain openBrace :: joinTokens ", " (fieldTokens children) ++ [.plain closeBrace]
      | .list => .plain '[' :: joinTokens ", " (itemTokens children) ++ [.plain ']']

def fieldTokens : List (String × ArgumentValue) → List (List KeyToken)
  | [] => []
  | (name, value) :: rest =>
      (plainTokens name.toList ++ .plain ':' :: .plain ' ' :: valueTokens value) ::
        fieldTokens rest

def itemTokens : List (String × ArgumentValue) → List (List KeyToken)
  | [] => []
  | (_, value) :: rest => valueTokens value :: itemTokens rest

end

def valueTokens? : Option ArgumentValue → List KeyToken
  | none => plainTokens "null".toList
  | some value => valueTokens isPrint value

mutual

def directiveTokens : Directive → List KeyToken
  | .mk name _ arguments =>
      .plain '@' :: plainTokens name.toList ++
        if arguments.isEmpty then []
        else .plain '(' :: joinTokens ", " (argumentsTokens arguments) ++ [.plain ')']

def directivesTokens : List Directive → List (List KeyToken)
  | [] => []
  | directive :: rest =>
      if directive.isInternal then directivesTokens rest
      else directiveTokens directive :: directivesTokens rest

def argumentTokens : Argument → List KeyToken
  | .mk name value directives =>
      plainTokens name.toList ++ .plain ':' :: .plain ' ' :: valueTokens? isPrint value ++
        if (directivesTokens directives).isEmpty then []
        else .plain ' ' :: joinTokens " " (directivesTokens directives)

def argumentsTokens : List Argument → List (List KeyToken)
  | [] => []
  | argument :: rest => argumentTokens argument :: argumentsTokens rest

end

def selectionArgumentTokens (arguments : List Argument) : List KeyToken :=
  if arguments.isEmpty then []
  else .plain '(' :: joinTokens ", " (argumentsTokens isPrint arguments) ++ [.plain ')']

def keyTokens (aliased : String) (arguments : List Argument) (mode : Option PaginationMode) :
    List KeyToken :=
  plainTokens aliased.toList ++
    (if arguments.isEmpty then []
      else selectionArgumentTokens isPrint (keyArguments mode arguments)) ++
    plainTokens (paginationSuffix mode)

end Printing

theorem templateText_append (tokens others : List KeyToken) :
    templateText (tokens ++ others) = templateText tokens ++ templateText others :=
  List.flatMap_append

theorem templateText_cons (char : Char) (tokens : List KeyToken) :
    templateText (.plain char :: tokens) = char :: templateText tokens := rfl

theorem templateText_plainTokens (text : List Char) : templateText (plainTokens text) = text := by
  induction text with
  | nil => rfl
  | cons char rest ih => exact congrArg (List.cons char) ih

theorem templateText_joinTokens (separator : String) (tokens : List (List KeyToken)) :
    templateText (joinTokens separator tokens) = joinTexts separator (tokens.map templateText) := by
  have joined (first : List KeyToken) (rest : List (List KeyToken)) :
      templateText (joinTokens separator (first :: rest)) =
        joinTexts separator (templateText first :: rest.map templateText) := by
    induction rest generalizing first with
    | nil =>
        unfold joinTokens joinTexts
        rw [List.intercalate_singleton, List.map_nil, List.intercalate_singleton]
    | cons second rest ih =>
        have later := ih second
        unfold joinTokens joinTexts at later ⊢
        rw [List.intercalate_cons_cons, List.map_cons, List.intercalate_cons_cons,
          templateText_append, templateText_append, templateText_plainTokens, later]
  cases tokens with
  | nil => rfl
  | cons first rest => exact joined first rest

end Houdini.Plugin
