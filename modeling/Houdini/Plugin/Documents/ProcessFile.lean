import Mathlib.Data.List.Basic

/-! How documents are found in the files of a project. A text is given by its bytes: each of them is
the character of its number. -/

set_option autoImplicit false

namespace Houdini.Plugin.Extraction

abbrev Text := List Char

/-- What the scanner is in. A template ends like a string, at its own quote. -/
inductive Mode where
  | code
  | line
  | block
  | quoted (quote : Char)
  deriving DecidableEq, Repr

def Mode.behind (char : Char) : Mode :=
  if char = '\'' ∨ char = '"' ∨ char = Char.ofNat 96 then .quoted char else .code

def stripFrom : Mode → Text → Text
  | _, [] => []
  | .code, [char] => [char]
  | .code, char :: next :: rest =>
      if char = '/' ∧ next = '/' then ' ' :: ' ' :: stripFrom .line rest
      else if char = '/' ∧ next = '*' then ' ' :: ' ' :: stripFrom .block rest
      else char :: stripFrom (Mode.behind char) (next :: rest)
  | .line, char :: rest =>
      if char = '\n' then char :: stripFrom .code rest else ' ' :: stripFrom .line rest
  | .block, [char] => [if char = '\n' then char else ' ']
  | .block, char :: next :: rest =>
      if char = '*' ∧ next = '/' then ' ' :: ' ' :: stripFrom .code rest
      else (if char = '\n' then char else ' ') :: stripFrom .block (next :: rest)
  | .quoted _, [char] => [char]
  | .quoted quote, char :: next :: rest =>
      if char = '\\' then char :: next :: stripFrom (.quoted quote) rest
      else if char = quote then char :: stripFrom .code (next :: rest)
      else char :: stripFrom (.quoted quote) (next :: rest)

def stripComments (text : Text) : Text := stripFrom .code text

def backtick : Char := Char.ofNat 96

/-- `\s` -/
def isSpace (char : Char) : Bool :=
  char = ' ' || char = '\t' || char = '\n' || char = '\r' || char = Char.ofNat 12

/-- `\w` -/
def isWord (char : Char) : Bool := char.isAlphanum || char = '_'

def spaces (text : Text) : Nat := (text.takeWhile isSpace).length

def closeWith (last : Char) (text : Text) : Option Nat :=
  if (text.drop (spaces text)).head? = some last then some (spaces text + 1) else none

/-- What stands between backticks, and all of the match behind the first one. As few characters as
possible are taken, and an escaped backtick rather than the backslash alone. -/
def matchQuery (last : Char) : Text → Option (Nat × Nat)
  | [] => none
  | [_] => none
  | char :: next :: rest =>
      if char = backtick then (closeWith last (next :: rest)).map fun length => (0, length + 1)
      else if char = '\\' ∧ next = backtick then
        match matchQuery last rest with
        | some (content, length) => some (content + 2, length + 2)
        | none => (matchQuery last (next :: rest)).map fun sizes => (sizes.1 + 1, sizes.2 + 1)
      else (matchQuery last (next :: rest)).map fun sizes => (sizes.1 + 1, sizes.2 + 1)

/-- A match: how long the property is, where the query begins, how long it is and how long all of
it is. -/
structure Found where
  prop : Nat := 0
  contentAt : Nat
  content : Nat
  length : Nat
  deriving DecidableEq, Repr

/-- `graphql\(\s*`, a query in backticks, `\s*\)` -/
def graphqlRegex (text : Text) : Option Found :=
  let name := "graphql(".toList
  let tick := name.length + spaces (text.drop name.length)
  if name.isPrefixOf text && (text.drop tick).head? = some backtick then
    (matchQuery ')' (text.drop (tick + 1))).map fun sizes =>
      ⟨0, tick + 1, sizes.1, tick + 1 + sizes.2⟩
  else none

/-- `(\w+)\s*:\s*GraphQL<\s*`, a query in backticks, `\s*>` -/
def componentFieldRegex (text : Text) : Option Found :=
  let name := "GraphQL<".toList
  let prop := (text.takeWhile isWord).length
  let colon := prop + spaces (text.drop prop)
  let type := colon + 1 + spaces (text.drop (colon + 1))
  let tick := type + name.length + spaces (text.drop (type + name.length))
  if prop ≠ 0 && (text.drop colon).head? = some ':' && name.isPrefixOf (text.drop type) &&
      (text.drop tick).head? = some backtick then
    (matchQuery '>' (text.drop (tick + 1))).map fun sizes =>
      ⟨prop, tick + 1, sizes.1, tick + 1 + sizes.2⟩
  else none

def findAll (regex : Text → Option Found) : Nat → Nat → Text → List (Nat × Found)
  | _, _, [] => []
  | at', skip + 1, _ :: rest => findAll regex (at' + 1) skip rest
  | at', 0, char :: rest =>
      match regex (char :: rest) with
      | some found => (at', found) :: findAll regex (at' + 1) (found.length - 1) rest
      | none => findAll regex (at' + 1) 0 rest

def newlinePositions (text : Text) : List Nat :=
  (List.range text.length).filter fun index => text[index]? = some '\n'

def searchLine (positions : List Nat) (absPos : Nat) : Nat → Nat → Nat → Nat
  | 0, lo, _ => lo
  | steps + 1, lo, hi =>
      if lo < hi then
        let mid := (lo + hi) / 2
        if positions.getD mid 0 < absPos then searchLine positions absPos steps (mid + 1) hi
        else searchLine positions absPos steps lo mid
      else lo

def lineAndColumn (text : Text) (absPos : Nat) : Nat × Nat :=
  let positions := newlinePositions text
  let line := searchLine positions absPos positions.length 0 positions.length
  if line = 0 then (line, absPos) else (line, absPos - positions.getD (line - 1) 0 - 1)

structure DiscoveredDocument where
  filePath : Text
  content : Text
  prop : Text := []
  offsetRow : Nat
  offsetColumn : Nat
  deriving DecidableEq, Repr

def withoutEscapes : Text → Text
  | [] => []
  | [char] => [char]
  | char :: next :: rest =>
      if char = '\\' ∧ next = backtick then backtick :: withoutEscapes rest
      else char :: withoutEscapes (next :: rest)

def documentAt (filePath original : Text) (at' : Nat) (found : Found) : DiscoveredDocument :=
  let position := lineAndColumn original (at' + found.contentAt)
  { filePath
    content := withoutEscapes ((original.drop (at' + found.contentAt)).take found.content)
    prop := (original.drop at').take found.prop
    offsetRow := position.1
    offsetColumn := position.2 }

def isGraphQLFile (filePath : Text) : Bool :=
  ".graphql".toList.isSuffixOf filePath || ".gql".toList.isSuffixOf filePath

def processFile (filePath original : Text) : List DiscoveredDocument :=
  if isGraphQLFile filePath then
    [{ filePath, content := original, offsetRow := 0, offsetColumn := 0 }]
  else
    let stripped := stripComments original
    (findAll graphqlRegex 0 0 stripped ++ findAll componentFieldRegex 0 0 stripped).map
      fun found => documentAt filePath original found.1 found.2

end Houdini.Plugin.Extraction
