import Houdini.Runtime.Cache.Layer
import Houdini.Runtime.Cache.Stuff
import Mathlib.Data.List.Sort
import Mathlib.Data.String.Basic

/-! The keys of the imperative cache API: a field and the values of its arguments. -/

set_option autoImplicit false

namespace Houdini.Runtime

/-- `replace(/"([^"]+)":/g, '$1: ')` for texts up to a length. -/
def unquoteNamesWithin : Nat → List Char → List Char
  | 0, text => text
  | _ + 1, [] => []
  | length + 1, char :: rest =>
      if char = '"' then
        match rest.span (· != '"') with
        | (first :: name, _ :: ':' :: after) =>
            first :: name ++ ':' :: ' ' :: unquoteNamesWithin length after
        | _ => char :: unquoteNamesWithin length rest
      else char :: unquoteNamesWithin length rest

def unquoteNames (text : List Char) : List Char := unquoteNamesWithin text.length text

namespace GraphQLValue

def joinArguments : List (List Char) → List Char
  | [] => []
  | [text] => text
  | text :: rest => text ++ ',' :: ' ' :: joinArguments rest

mutual

/-- `stringify` of `key.ts`. There is no text for `undefined` and for functions, so that
replacing something in it throws. -/
def argumentText : GraphQLValue → Except JSError (List Char)
  | .array items => do
      let texts ← argumentTexts items
      return '[' :: joinArguments texts ++ [']']
  | .object fields => do
      let texts ← propertyTexts fields
      return Char.ofNat 123 :: joinArguments texts ++ [Char.ofNat 125]
  | .undefined | .component .. => .error .typeError
  | .null => return unquoteNames "null".toList
  | .boolean value => return unquoteNames (if value then "true".toList else "false".toList)
  | .number text => return unquoteNames text.toList
  | .string value => return unquoteNames (stringifyString value)

def argumentTexts : List GraphQLValue → Except JSError (List (List Char))
  | [] => return []
  | item :: rest => do
      let text ← argumentText item
      let texts ← argumentTexts rest
      return text :: texts

def propertyTexts : List (String × GraphQLValue) → Except JSError (List (List Char))
  | [] => return []
  | (name, value) :: rest => do
      let text ← argumentText value
      let texts ← propertyTexts rest
      return (name.toList ++ ':' :: ' ' :: text) :: texts

end

end GraphQLValue

/-- The arguments in the order in which `computeKey` prints them. Their names are ASCII. -/
def sortedArguments (args : GraphQLObject) : GraphQLObject :=
  args.insertionSort fun first second => first.1 ≤ second.1

def computeKey (field : String) (args : GraphQLObject := []) : Except JSError String :=
  if args.isEmpty then .ok field
  else do
    let texts ← GraphQLValue.propertyTexts (sortedArguments args)
    return String.ofList (field.toList ++ '(' :: GraphQLValue.joinArguments texts ++ [')'])

example : computeKey "field" [("stringValue", .string "a"), ("intValue", .number "1")] =
    .ok "field(intValue: 1, stringValue: \"a\")" := by decide +kernel

end Houdini.Runtime
