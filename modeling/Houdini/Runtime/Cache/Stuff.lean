import Houdini.Runtime.Selection

/-! Cache keys: the raw key of a field with the values of its variables. -/

set_option autoImplicit false

namespace Houdini.Runtime

namespace GraphQLValue

def hexDigit (digit : Nat) : Char := "0123456789abcdef".toList.getD digit '0'

/-- One character inside the string literal that `JSON.stringify` prints. -/
def stringifyChar (char : Char) : List Char :=
  if char = '"' then ['\\', '"']
  else if char = '\\' then ['\\', '\\']
  else if char.toNat = 8 then ['\\', 'b']
  else if char.toNat = 9 then ['\\', 't']
  else if char.toNat = 10 then ['\\', 'n']
  else if char.toNat = 12 then ['\\', 'f']
  else if char.toNat = 13 then ['\\', 'r']
  else if char.toNat < 32 then
    ['\\', 'u', '0', '0', hexDigit (char.toNat / 16), hexDigit (char.toNat % 16)]
  else [char]

def stringifyString (value : String) : List Char :=
  '"' :: value.toList.flatMap stringifyChar ++ ['"']

mutual

def stringify : GraphQLValue → Option (List Char)
  | .undefined | .component .. => none
  | .null => some "null".toList
  | .boolean value => some (if value then "true".toList else "false".toList)
  | .number text => some text.toList
  | .string value => some (stringifyString value)
  | .array items => some ('[' :: stringifyItems items ++ [']'])
  | .object fields => some (Char.ofNat 123 :: stringifyFields fields ++ [Char.ofNat 125])

/-- An entry without text is printed as `null`. -/
def stringifyItems : List GraphQLValue → List Char
  | [] => []
  | [item] => (stringify item).getD "null".toList
  | item :: rest => (stringify item).getD "null".toList ++ ',' :: stringifyItems rest

def stringifyFields : List (String × GraphQLValue) → List Char
  | [] => []
  | (name, value) :: rest =>
      match stringify value, stringifyFields rest with
      | none, printed => printed
      | some text, [] => stringifyString name ++ ':' :: text
      | some text, printed => stringifyString name ++ ':' :: text ++ ',' :: printed

end

end GraphQLValue

namespace Cache

def rootID : String := "_ROOT_"

def opaqueListID (parentID listName : String) : String := parentID ++ "::" ++ listName

def isVarChar (char : Char) : Bool := char.isAlphanum || char = '_'

/-- The state of `evaluateKey` between two characters. `varName` is empty, or the
variable name so far with its leading `$`. -/
structure KeyState where
  evaluated : List Char := []
  varName : List Char := []
  inString : Bool := false

namespace KeyState

def closeVariable (vars : GraphQLObject) (state : KeyState) : KeyState :=
  let text :=
    match vars.property (String.ofList (state.varName.drop 1)) with
    | .undefined | .null => "null".toList
    | value => (value.stringify).getD "undefined".toList
  { state with evaluated := state.evaluated ++ text, varName := [] }

def addChar (state : KeyState) (char : Char) : KeyState :=
  if char = '$' && !state.inString then { state with varName := ['$'] }
  else
    { state with
      inString := if char = '"' then !state.inString else state.inString
      evaluated := state.evaluated ++ [char] }

def step (vars : GraphQLObject) (state : KeyState) (char : Char) : KeyState :=
  if state.varName.isEmpty then state.addChar char
  else if isVarChar char then { state with varName := state.varName ++ [char] }
  else (state.closeVariable vars).addChar char

end KeyState

def evaluateKey (key : String) (vars : GraphQLObject) : String :=
  if key.toList.contains '$' then
    String.ofList (key.toList.foldl (KeyState.step vars) {}).evaluated
  else key

example : evaluateKey "friends(first: $first, name: \"$\")" [("first", .number "5")] =
    "friends(first: 5, name: \"$\")" := by decide +kernel

end Cache

def SelectionField.key (field : SelectionField) (vars : GraphQLObject) : String :=
  Cache.evaluateKey field.keyRaw vars

end Houdini.Runtime
