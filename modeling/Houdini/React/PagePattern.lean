import Mathlib.Data.List.Infix

/-! The patterns of pages: what is generated for the url of a page, and what that captures. -/

set_option autoImplicit false

namespace Houdini.React

abbrev UrlText := List Char

inductive RouteSegment where
  | fixed (text : UrlText)
  | param (name : UrlText)
  | optional (name : UrlText)
  | rest (name : UrlText)
  deriving DecidableEq

/-- A parameter of a pattern. -/
structure RouteParam where
  name : UrlText
  optional : Bool := false
  rest : Bool := false
  chained : Bool := false
  deriving DecidableEq

def isRouteGroup (segment : UrlText) : Bool :=
  ['('].isPrefixOf segment && [')'].isSuffixOf segment

def routeSegments (url : UrlText) : List UrlText :=
  ((if ['/'].isPrefixOf url then url.drop 1 else url).splitOn '/').filter fun segment =>
    !segment.isEmpty && !isRouteGroup segment

def parseSegment (segment : UrlText) : RouteSegment :=
  if "[...".toList.isPrefixOf segment && [']'].isSuffixOf segment then
    .rest (segment.drop 4).dropLast
  else if ['[', '['].isPrefixOf segment && [']', ']'].isSuffixOf segment then
    .optional (segment.drop 2).dropLast.dropLast
  else if ['['].isPrefixOf segment && [']'].isSuffixOf segment then
    .param (segment.drop 1).dropLast
  else .fixed segment

def RouteSegment.param? : RouteSegment → Option RouteParam
  | .fixed _ => none
  | .param name => some { name }
  | .optional name => some { name, optional := true, chained := true }
  | .rest name => some { name, rest := true, chained := true }

inductive PagePattern where
  | root
  | segments (route : List RouteSegment)

def parsePagePattern (url : UrlText) : PagePattern × List RouteParam :=
  if url = ['/'] then (.root, [])
  else
    let segments := (routeSegments url).map parseSegment
    (.segments segments, segments.filterMap RouteSegment.param?)

def regexEscape (text : UrlText) : List Char :=
  text.flatMap fun char =>
    if ['.', '+', '*', '?', '^', '$', Char.ofNat 123, Char.ofNat 125, '(', ')', '|', '[', ']',
      '\\'].contains char then ['\\', char] else [char]

def RouteSegment.source : RouteSegment → List Char
  | .fixed text => '\\' :: '/' :: regexEscape text
  | .param _ => "\\/([^/]+?)".toList
  | .optional _ => "(?:\\/([^/]+))?".toList
  | .rest _ => "(?:\\/(.*))?".toList

def PagePattern.source : PagePattern → List Char
  | .root => "/^\\/$/".toList
  | .segments route => "/^".toList ++ route.flatMap RouteSegment.source ++ "\\/?$/".toList

def isLineTerminator (char : Char) : Bool :=
  char = '\n' || char = '\r' || char.toNat = 0x2028 || char.toNat = 0x2029

def PagePattern.isLiteral (pattern : PagePattern) : Bool := !pattern.source.any isLineTerminator

def splits (allowed : Char → Bool) : UrlText → List (UrlText × UrlText)
  | [] => [([], [])]
  | char :: rest =>
      ([], char :: rest) ::
        if allowed char then
          (splits allowed rest).map fun parts => (char :: parts.1, parts.2)
        else []

def someSplits (allowed : Char → Bool) (text : UrlText) : List (UrlText × UrlText) :=
  (splits allowed text).filter fun parts => !parts.1.isEmpty

def captureFirst (next : UrlText → Option (List (Option UrlText)))
    (ways : List (UrlText × UrlText)) : Option (List (Option UrlText)) :=
  ways.findSome? fun parts => (next parts.2).map (some parts.1 :: ·)

def captureBehindSlash (next : UrlText → Option (List (Option UrlText)))
    (ways : UrlText → List (UrlText × UrlText)) : UrlText → Option (List (Option UrlText))
  | [] => none
  | char :: inner => if char = '/' then captureFirst next (ways inner) else none

/-- What the groups of a pattern capture. A parameter takes as little as it can, an optional one and
the rest as much, and a slash may be left. -/
def captureSegments : List RouteSegment → UrlText → Option (List (Option UrlText))
  | [], text => if text = [] ∨ text = ['/'] then some [] else none
  | .fixed segment :: after, text =>
      match text.dropPrefix? ('/' :: segment) with
      | none => none
      | some left => captureSegments after left
  | .param _ :: after, text =>
      captureBehindSlash (captureSegments after) (someSplits (· ≠ '/')) text
  | .optional _ :: after, text =>
      (captureBehindSlash (captureSegments after)
        (fun inner => (someSplits (· ≠ '/') inner).reverse) text).or
      ((captureSegments after text).map (none :: ·))
  | .rest _ :: after, text =>
      (captureBehindSlash (captureSegments after)
        (fun inner => (splits (!isLineTerminator ·) inner).reverse) text).or
      ((captureSegments after text).map (none :: ·))

def PagePattern.captures : PagePattern → UrlText → Option (List (Option UrlText))
  | .root, path => if path = ['/'] then some [] else none
  | .segments route, path => captureSegments route path

end Houdini.React
