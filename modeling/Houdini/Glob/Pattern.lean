import Houdini.Data.SplitText
import Mathlib.Data.List.Infix

/-! Glob patterns, compiled to trees of token matchers. -/

set_option autoImplicit false

namespace Houdini.Glob

/-- The regular expressions of the standard library. -/
structure Regexp (Program : Type) where
  compile : List Char → Except String Program
  matchString : Program → List Char → Bool

inductive TokenMatcher (Program : Type) where
  | literal (text : List Char)
  | regex (pattern : List Char) (program : Program)
  | negation (forbidden : List (List Char)) (suffix : TokenMatcher Program) (full : List Char)

inductive GlobError where
  | unmatchedParenthesis (group : List Char)
  | regexp (message : String)

namespace TokenMatcher

variable {Program : Type}

def string : TokenMatcher Program → List Char
  | literal text => text
  | regex pattern _ => pattern
  | negation _ _ full => full

/-- A negation has a token with its suffix that is none of the forbidden texts before it. -/
def accepts (regexp : Regexp Program) : TokenMatcher Program → List Char → Bool
  | literal text, token => text == token
  | regex _ program, token => regexp.matchString program token
  | negation forbidden suffix _, token =>
      suffix.string.isSuffixOf token &&
        !forbidden.contains (token.take (token.length - suffix.string.length))

end TokenMatcher

def cut (char : Char) : List Char → Option (List Char × List Char)
  | [] => none
  | first :: rest =>
      if first = char then some ([], rest)
      else (cut char rest).map fun parts => (first :: parts.1, parts.2)

theorem cut_eq_some {char : Char} {text before behind : List Char}
    (found : cut char text = some (before, behind)) :
    text = before ++ char :: behind ∧ char ∉ before := by
  induction text generalizing before with
  | nil => cases found
  | cons first rest ih =>
      unfold cut at found
      split at found
      · next same =>
          cases found
          exact ⟨by rw [same]; rfl, List.not_mem_nil⟩
      · next other =>
          obtain ⟨⟨inside, after⟩, further, same⟩ := Option.map_eq_some_iff.mp found
          cases same
          obtain ⟨whole, absent⟩ := ih further
          refine ⟨by rw [whole]; rfl, ?_⟩
          rw [List.mem_cons, not_or]
          exact ⟨fun same => other same.symm, absent⟩

/-- One character of a glob. What is special in a regular expression is escaped. -/
def regexChar (char : Char) : List Char :=
  if char = '*' then ['.', '*']
  else if char = '?' then ['.']
  else if ['.', '(', ')', '+', '|', '^', '$', Char.ofNat 123, Char.ofNat 125, '\\'].contains char then
    ['\\', char]
  else [char]

def globToRegex (glob : List Char) : List Char :=
  match glob with
  | [] => []
  | char :: rest =>
      if char = '[' then
        match closed : cut ']' rest with
        | none => '\\' :: '[' :: globToRegex rest
        | some (inside, behind) =>
            have := (cut_eq_some closed).1
            '[' :: (inside ++ ']' :: globToRegex behind)
      else regexChar char ++ globToRegex rest
termination_by glob.length
decreasing_by
  · simp
  · subst this
    simp
    omega
  · simp

def extglobGroup : Nat → List Char → Option (List Char × List Char)
  | _, [] => none
  | depth, char :: rest =>
      if char = '(' then
        (extglobGroup (depth + 1) rest).map fun parts => (char :: parts.1, parts.2)
      else if char = ')' then
        if depth = 1 then some ([], rest)
        else (extglobGroup (depth - 1) rest).map fun parts => (char :: parts.1, parts.2)
      else (extglobGroup depth rest).map fun parts => (char :: parts.1, parts.2)

theorem extglobGroup_length {depth : Nat} {text inside behind : List Char}
    (found : extglobGroup depth text = some (inside, behind)) : behind.length < text.length := by
  induction text generalizing depth inside with
  | nil => cases found
  | cons char rest ih =>
      have deeper {depth : Nat} (found : ((extglobGroup depth rest).map fun parts =>
          (char :: parts.1, parts.2)) = some (inside, behind)) :
          behind.length < (char :: rest).length := by
        obtain ⟨⟨content, after⟩, further, same⟩ := Option.map_eq_some_iff.mp found
        cases same
        exact Nat.lt_succ_of_lt (ih further)
      unfold extglobGroup at found
      split at found
      · exact deeper found
      · split at found
        · split at found
          · cases found
            exact Nat.lt_succ_self _
          · exact deeper found
        · exact deeper found

def parseExtglobGroup (text : List Char) : Except GlobError (List Char × List Char) :=
  match extglobGroup 1 text with
  | none => .error (.unmatchedParenthesis text)
  | some parts => .ok parts

def quantifier (operator : Char) : List Char :=
  if operator = '@' then [] else [operator]

def compilePicomatchToRegex (pattern : List Char) : Except GlobError (List Char) :=
  match pattern with
  | [] => .ok []
  | char :: rest =>
      if ['?', '+', '*', '@'].contains char && rest.head? == some '(' then
        match _grouped : parseExtglobGroup (rest.drop 1) with
        | .error failure => .error failure
        | .ok (content, behind) => do
            let regex ← compilePicomatchToRegex behind
            let alternatives := content.map fun char => if char = ',' then '|' else char
            return "(?:".toList ++ alternatives ++ ')' :: (quantifier char ++ regex)
      else if char = '[' then
        match closed : cut ']' rest with
        | none => do return '\\' :: '[' :: (← compilePicomatchToRegex rest)
        | some (inside, behind) =>
            have := (cut_eq_some closed).1
            do return '[' :: (inside ++ ']' :: (← compilePicomatchToRegex behind))
      else do return regexChar char ++ (← compilePicomatchToRegex rest)
termination_by pattern.length
decreasing_by
  · have shorter : behind.length < (rest.drop 1).length := by
      unfold parseExtglobGroup at _grouped
      split at _grouped
      · cases _grouped
      · next found =>
          cases _grouped
          exact extglobGroup_length found
    rw [List.length_drop] at shorter
    simp only [List.length_cons]
    omega
  · simp
  · subst this
    simp
    omega
  · simp

section Compiling

variable {Program : Type} (regexp : Regexp Program)

def compileRegex (token regex : List Char) : Except GlobError (TokenMatcher Program) :=
  match regexp.compile ('^' :: (regex ++ ['$'])) with
  | .error message => .error (.regexp message)
  | .ok program => .ok (.regex token program)

def compileTokenMatcher (token : List Char) : Except GlobError (TokenMatcher Program) :=
  if token = ['*', '*'] then .ok (.literal ['*', '*'])
  else if ['!', '('].isPrefixOf token then do
    let (groupContent, suffixPart) ← parseExtglobGroup (token.drop 2)
    return .negation (groupContent.splitOn ',') (.literal suffixPart) token
  else if [['?', '('], ['*', '('], ['+', '('], ['@', '(']].any fun operator =>
      decide (operator <:+: token) then do
    compileRegex regexp token (← compilePicomatchToRegex token)
  else if ['*', '?', '['].any token.contains then compileRegex regexp token (globToRegex token)
  else .ok (.literal token)

end Compiling

/-- The pattern of a path from the root to a terminal node is in the tree. -/
inductive PatternTree (Program : Type) where
  | node (children : List (TokenMatcher Program × PatternTree Program)) (terminal : Bool)

def newPatternTree {Program : Type} : PatternTree Program := .node [] false

section Trees

variable {Program : Type}

/-- Go on below the first child with the matcher's text, or below a new one. -/
def updateChild (add : PatternTree Program → PatternTree Program × Option GlobError)
    (matcher : TokenMatcher Program) :
    List (TokenMatcher Program × PatternTree Program) →
      List (TokenMatcher Program × PatternTree Program) × Option GlobError
  | [] =>
      let (node, failure) := add newPatternTree
      ([(matcher, node)], failure)
  | (other, node) :: rest =>
      if other.string = matcher.string then
        let (node, failure) := add node
        ((other, node) :: rest, failure)
      else
        let (rest, failure) := updateChild add matcher rest
        ((other, node) :: rest, failure)

variable (regexp : Regexp Program)

def addParts : List (List Char) → PatternTree Program → PatternTree Program × Option GlobError
  | [], .node children _ => (.node children true, none)
  | part :: rest, .node children terminal =>
      match compileTokenMatcher regexp part with
      | .error failure => (.node children terminal, some failure)
      | .ok matcher =>
          let (children, failure) := updateChild (addParts rest) matcher children
          (.node children terminal, failure)

def addPattern (tree : PatternTree Program) (pattern : List Char) :
    PatternTree Program × Option GlobError :=
  addParts regexp (pattern.splitOn '/') tree

mutual

def matchHelper : PatternTree Program → List (List Char) → Bool
  | .node children terminal, tokens =>
      if tokens.isEmpty then terminal else matchChildren children tokens

def matchChildren : List (TokenMatcher Program × PatternTree Program) → List (List Char) → Bool
  | [], _ => false
  | (matcher, node) :: rest, tokens =>
      (if matcher.string = ['*', '*'] then tokens.tails.any fun left => matchHelper node left
        else match tokens with
          | [] => false
          | token :: left => matcher.accepts regexp token && matchHelper node left) ||
        matchChildren rest tokens

end

end Trees

/-- Each step leaves one closing brace less, without one there is nothing to expand. -/
def expandClosed : Nat → List Char → List (List Char)
  | 0, pattern => [pattern]
  | closing + 1, pattern =>
      match cut (Char.ofNat 123) pattern with
      | none => [pattern]
      | some (before, rest) =>
          match cut (Char.ofNat 125) rest with
          | none => [pattern]
          | some (options, behind) =>
              (options.splitOn ',').flatMap fun option =>
                expandClosed closing (before ++ option ++ behind)

def expandBraces (pattern : List Char) : List (List Char) :=
  expandClosed (pattern.count (Char.ofNat 125)) pattern

def addPatterns {Program : Type} (regexp : Regexp Program) :
    List (List Char) → PatternTree Program → PatternTree Program × Option GlobError
  | [], tree => (tree, none)
  | pattern :: rest, tree =>
      match addPattern regexp tree pattern with
      | (tree, some failure) => (tree, some failure)
      | (tree, none) => addPatterns regexp rest tree

end Houdini.Glob
