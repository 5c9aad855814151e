import Houdini.React.Manifest
import Houdini.Url.FormEncoding

/-! Links to pages: how values become a url, and what is read of it again. Custom scalars are left
out, so that values are written as they are. -/

set_option autoImplicit false

namespace Houdini.React

open Url (parseForm serializeForm)

inductive ScalarType where
  | boolean
  | id
  | string
  | int
  | float
  deriving DecidableEq

/-- The numbers of scripts but for `NaN`, with both zeros the same: how they are written and read. -/
structure Numbers where
  Number : Type
  isInt : Number → Prop
  print : Number → UrlText
  parseInt : UrlText → Option Number
  parseFloat : UrlText → Option Number
  print_ne_nil : ∀ number, print number ≠ []
  print_symbol : ∀ number, ∀ char ∈ print number,
    char.isAlphanum = true ∨ char = '+' ∨ char = '-' ∨ char = '.'
  parseInt_print : ∀ number, isInt number → parseInt (print number) = some number
  parseFloat_print : ∀ number, parseFloat (print number) = some number

inductive ScalarValue (numbers : Numbers) where
  | boolean (value : Bool)
  | text (value : UrlText)
  | number (value : numbers.Number)

variable {numbers : Numbers}

def ScalarValue.HasType : ScalarValue numbers → ScalarType → Prop
  | .boolean _, type => type = .boolean
  | .text _, type => type = .id ∨ type = .string
  | .number value, type => type = .int ∧ numbers.isInt value ∨ type = .float

def marshalValue : ScalarValue numbers → UrlText
  | .boolean true => "true".toList
  | .boolean false => "false".toList
  | .text value => value
  | .number value => numbers.print value

def parseScalar : ScalarType → UrlText → Option (ScalarValue numbers)
  | .boolean, text => some (.boolean (text = "true".toList))
  | .id, text => some (.text text)
  | .string, text => some (.text text)
  | .int, text => (numbers.parseInt text).map .number
  | .float, text => (numbers.parseFloat text).map .number

/-- A text in brackets, and what follows it. The text holds no closing bracket. -/
def bracketed (opening closing text : UrlText) : Option (UrlText × UrlText) := do
  let inner ← text.dropPrefix? opening
  let key := inner.takeWhile (· ≠ ']')
  if key = [] then none
  else do
    let left ← (inner.dropWhile (· ≠ ']')).dropPrefix? closing
    return (key, left)

def replaceUpTo (opening closing : UrlText) (replacement : UrlText → UrlText) :
    Nat → UrlText → UrlText
  | 0, text => text
  | _ + 1, [] => []
  | steps + 1, char :: rest =>
      match bracketed opening closing (char :: rest) with
      | some (key, left) =>
          replacement key ++ replaceUpTo opening closing replacement steps left
      | none => char :: replaceUpTo opening closing replacement steps rest

def replaceAll (opening closing : UrlText) (replacement : UrlText → UrlText) (text : UrlText) :
    UrlText :=
  replaceUpTo opening closing replacement text.length text

def resolveHref (href : UrlText) (params : UrlText → Option (ScalarValue numbers)) : UrlText :=
  let render (key : UrlText) : Option UrlText := (params key).map marshalValue
  let optional := replaceAll ['/', '[', '['] [']', ']']
    (fun key => ((render key).map ('/' :: ·)).getD []) href
  let rest := replaceAll ['[', '.', '.', '.'] [']'] (fun key => (render key).getD []) optional
  replaceAll ['['] [']'] (fun key => (render key).getD key) rest

inductive SearchValue (numbers : Numbers) where
  | absent
  | scalar (value : ScalarValue numbers)
  | list (values : List (Option (ScalarValue numbers)))

def SearchValue.texts : SearchValue numbers → List UrlText
  | .absent => []
  | .scalar value => [marshalValue value]
  | .list values => values.filterMap fun entry => entry.map marshalValue

def searchEntries (search : List (UrlText × SearchValue numbers)) : List (UrlText × UrlText) :=
  search.flatMap fun entry => entry.2.texts.map fun text => (entry.1, text)

def serializeSearch (search : List (UrlText × SearchValue numbers)) : UrlText :=
  let text := serializeForm (searchEntries search)
  if text = [] then [] else '?' :: text

def buildHref («to» : UrlText) (params : Option (UrlText → Option (ScalarValue numbers)))
    (search : Option (List (UrlText × SearchValue numbers))) : UrlText :=
  let href := match params with
    | some params => resolveHref «to» params
    | none => «to»
  match search with
  | some search => href ++ serializeSearch search
  | none => href

/-- A parameter of a page in the query. -/
structure SearchParam where
  name : UrlText
  type : ScalarType
  isList : Bool

def inheritedNames : List UrlText :=
  ["constructor", "__defineGetter__", "__defineSetter__", "hasOwnProperty", "__lookupGetter__",
    "__lookupSetter__", "isPrototypeOf", "propertyIsEnumerable", "toString", "valueOf",
    "__proto__", "toLocaleString"].map String.toList

/-- The value of a variable. An inherited property may end up in one. -/
inductive Variable (numbers : Numbers) where
  | single (value : ScalarValue numbers)
  | list (values : List (ScalarValue numbers))
  | undefined
  | inherited

abbrev Variables (numbers : Numbers) := OrderedMap UrlText (Variable numbers)

/-- The prototype stays what it is, as nothing that is assigned is another object. -/
def setVariable (vars : Variables numbers) (name : UrlText) (value : Variable numbers) :
    Variables numbers :=
  if name = protoName then vars else vars.set name value

def parseInherited : ScalarType → Variable numbers
  | .boolean => .single (.boolean false)
  | .id => .inherited
  | .string => .inherited
  | .int => .undefined
  | .float => .undefined

/-- A variable that a document declares is parsed if the match has it. -/
def parseVariable (matched : OrderedMap UrlText UrlText) (vars : Variables numbers)
    (declared : UrlText × ScalarType) : Variables numbers :=
  match matched.get? declared.1 with
  | some [] => vars
  | some (char :: rest) =>
      setVariable vars declared.1
        (match parseScalar declared.2 (char :: rest) with
          | some value => .single value
          | none => .undefined)
  | none =>
      if inheritedNames.contains declared.1 then
        setVariable vars declared.1 (parseInherited declared.2)
      else vars

def parseVariables (documents : List (List (UrlText × ScalarType)))
    (matched : OrderedMap UrlText UrlText) : Variables numbers :=
  documents.flatten.foldl (parseVariable matched) (matched.mapValues fun _ text => .single (.text text))

def isSet (vars : Variables numbers) (name : UrlText) : Bool :=
  match vars.get? name with
  | some .undefined => false
  | some _ => true
  | none => inheritedNames.contains name

def getAll (entries : List (UrlText × UrlText)) (name : UrlText) : List UrlText :=
  (entries.filter (·.1 = name)).map Prod.snd

def fillParam (entries : List (UrlText × UrlText)) (vars : Variables numbers)
    (param : SearchParam) : Variables numbers :=
  if isSet vars param.name then vars
  else
    match getAll entries param.name with
    | [] => vars
    | first :: others =>
        if param.isList then
          setVariable vars param.name
            (.list ((first :: others).filterMap (parseScalar param.type)))
        else
          match parseScalar param.type first with
          | some value => setVariable vars param.name (.single value)
          | none => vars

structure LinkedPage where
  dir : RouteDir
  documents : List (List (UrlText × ScalarType))
  searchParams : List SearchParam

def findVariables (isPrint : Char → Bool) (malformed : ByteArray → UrlText) (page : LinkedPage)
    (current : UrlText) : Except String (Option (Variables numbers)) := do
  match ← findMatch [page.dir.page.routerPage isPrint] current with
  | none => return none
  | some (_, matched) =>
      let vars := parseVariables page.documents matched
      let search := (current.dropWhile (· ≠ '?')).drop 1
      if search = [] then return some vars
      else return some (page.searchParams.foldl (fillParam (parseForm malformed search)) vars)

end Houdini.React
