import Houdini.Plugin.Documents.Print
import Houdini.React.PagePattern
import Houdini.Runtime.Encoding
import Mathlib.Data.Char
import Mathlib.Data.List.Lex
import Mathlib.Data.List.Sort

/-! The pages of a project: how directories become a manifest, and how a url finds its page. -/

set_option autoImplicit false

namespace Houdini.React

open Houdini.Runtime (decodeURIComponent)
open Houdini.Plugin (hexDigits)

structure DirName where
  text : UrlText
  nonempty : text ≠ []
  plain : '/' ∉ text
  deriving DecidableEq

structure RouteDir where
  path : List DirName
  hasPage : Bool
  deriving DecidableEq

def RouteDir.key (dir : RouteDir) : UrlText :=
  if dir.path = [] then ['.'] else ['/'].intercalate (dir.path.map DirName.text)

def dirKeyToURL (dir : RouteDir) : UrlText :=
  if dir.path = [] then ['/'] else '/' :: (dir.key ++ ['/'])

def trimSlash (url : UrlText) : UrlText :=
  if 1 < url.length && ['/'].isSuffixOf url then url.dropLast else url

def pageID (url : UrlText) : UrlText :=
  (trimSlash url).map fun char =>
    if ['/', '[', ']', '(', ')', '-'].contains char then '_' else char

structure PageManifest where
  id : UrlText
  url : UrlText
  view : RouteDir
  deriving DecidableEq

def RouteDir.page (dir : RouteDir) : PageManifest where
  id := pageID (dirKeyToURL dir)
  url := trimSlash (dirKeyToURL dir)
  view := dir

def dirLe (left right : RouteDir) : Bool :=
  if left.path.length = right.path.length then decide (left.key ≤ right.key)
  else decide (left.path.length < right.path.length)

/-- The pages by their ids. A page takes the place of one with the same id. -/
def loadManifest (dirs : List RouteDir) : OrderedMap UrlText PageManifest :=
  .ofList (((dirs.mergeSort dirLe).filter (·.hasPage)).map fun dir => (dir.page.id, dir.page))

section

-- Which characters the generator prints as they are.
variable (isPrint : Char → Bool)

/-- A character of a quoted text, as scripts read it. They do not know the escapes for a bell and
for characters of other planes, and read them as letters. -/
def quotedChar (char : Char) : UrlText :=
  if isPrint char then [char]
  else if char.toNat = 7 then ['a']
  else if char.toNat < 65536 then [char]
  else 'U' :: hexDigits 8 char.toNat

def quotedText (text : UrlText) : UrlText := text.flatMap (quotedChar isPrint)

structure RouterPage where
  id : UrlText
  url : UrlText
  pattern : PagePattern
  params : List RouteParam
  view : RouteDir

def stripRouteGroups (url : UrlText) : UrlText :=
  '/' :: ['/'].intercalate
    ((url.splitOn '/').filter fun segment => !segment.isEmpty && !isRouteGroup segment)

def PageManifest.routerPage (page : PageManifest) : RouterPage where
  id := quotedText isPrint page.id
  url := quotedText isPrint (stripRouteGroups page.url)
  pattern := (parsePagePattern page.url).1
  params := (parsePagePattern page.url).2.map fun param =>
    { param with name := quotedText isPrint param.name }
  view := page.view

def pageLe (left right : PageManifest) : Bool := decide (left.id ≤ right.id)

def protoName : UrlText := "__proto__".toList

/-- The pages by the order of their ids. Nothing can be read of a file with a pattern that is no
literal. -/
def routerPages (manifest : OrderedMap UrlText PageManifest) : Option (List RouterPage) :=
  let pages := (manifest.values.mergeSort pageLe).map (PageManifest.routerPage isPrint)
  if pages.all (·.pattern.isLiteral) then
    some ((OrderedMap.ofList (pages.map fun page => (page.id, page))).filter
      (·.1 ≠ protoName)).values
  else none

end

def assign (result : OrderedMap UrlText UrlText) (name value : UrlText) :
    OrderedMap UrlText UrlText :=
  if name = protoName then result else result.set name value

def record (result : OrderedMap UrlText UrlText) (capture : Option UrlText × RouteParam) :
    Except String (OrderedMap UrlText UrlText) :=
  match capture.1 with
  | none => .ok (if capture.2.rest then assign result capture.2.name [] else result)
  | some value =>
      match decodeURIComponent value with
      | none => .error "URI malformed"
      | some decoded => .ok (assign result capture.2.name decoded)

def exec (captured : List (Option UrlText)) (params : List RouteParam) :
    Except String (OrderedMap UrlText UrlText) :=
  (captured.zip params).foldlM record ∅

def findMatch (pages : List RouterPage) (current : UrlText) :
    Except String (Option (RouterPage × OrderedMap UrlText UrlText)) :=
  let path := current.takeWhile (· ≠ '?')
  match pages.findSome? fun page => (page.pattern.captures path).map (page, ·) with
  | none => .ok none
  | some (page, captured) => (exec captured page.params).map fun matched => some (page, matched)

end Houdini.React
