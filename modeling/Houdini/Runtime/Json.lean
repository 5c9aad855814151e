import Mathlib.Data.List.Basic

/-! JSON values, as `JSON.stringify` writes them. -/

set_option autoImplicit false

namespace Houdini.Runtime

structure JsonNumber where
  text : String
  plain : ∀ char ∈ text.toList, char ∈ "+-.0123456789e".toList

inductive Json where
  | null
  | boolean (value : Bool)
  | number (value : JsonNumber)
  | string (value : String)
  | array (items : List Json)
  | object (fields : List (String × Json))

def lowerHexDigit (digit : Nat) : Char := "0123456789abcdef".toList.getD digit '0'

def quoteChar (char : Char) : List Char :=
  if char = '"' then ['\\', '"']
  else if char = '\\' then ['\\', '\\']
  else if char.toNat = 8 then ['\\', 'b']
  else if char.toNat = 12 then ['\\', 'f']
  else if char.toNat = 10 then ['\\', 'n']
  else if char.toNat = 13 then ['\\', 'r']
  else if char.toNat = 9 then ['\\', 't']
  else if char.toNat < 32 then
    ['\\', 'u', '0', '0', lowerHexDigit (char.toNat / 16), lowerHexDigit (char.toNat % 16)]
  else [char]

def quoteText (text : String) : List Char := '"' :: (text.toList.flatMap quoteChar ++ ['"'])

def leftBrace : Char := Char.ofNat 123

def rightBrace : Char := Char.ofNat 125

mutual

def Json.stringify : Json → List Char
  | .null => "null".toList
  | .boolean value => (if value then "true" else "false").toList
  | .number value => value.text.toList
  | .string value => quoteText value
  | .array items => '[' :: (stringifyItems items ++ [']'])
  | .object fields => leftBrace :: (stringifyFields fields ++ [rightBrace])

def stringifyItems : List Json → List Char
  | [] => []
  | item :: rest => item.stringify ++ stringifyMoreItems rest

def stringifyMoreItems : List Json → List Char
  | [] => []
  | item :: rest => ',' :: (item.stringify ++ stringifyMoreItems rest)

def stringifyFields : List (String × Json) → List Char
  | [] => []
  | (name, value) :: rest =>
      quoteText name ++ ':' :: (value.stringify ++ stringifyMoreFields rest)

def stringifyMoreFields : List (String × Json) → List Char
  | [] => []
  | (name, value) :: rest =>
      ',' :: (quoteText name ++ ':' :: (value.stringify ++ stringifyMoreFields rest))

end

def stringify (value : Option Json) : List Char :=
  match value with
  | none => "undefined".toList
  | some json => json.stringify

end Houdini.Runtime
