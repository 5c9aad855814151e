import Houdini.Data.Base64
import Houdini.Router.AuthToken
import Houdini.Runtime.ToNumber

/-! The cookie that holds a session. Its fields stand beside the claims of the token, in one
object. -/

set_option autoImplicit false

namespace Houdini.Router

open Houdini.Runtime (JsonValue JsonFields named numberOf parseJson isScriptSpace trim)

def utf8 (text : List Char) : List UInt8 := text.flatMap String.utf8EncodeChar

def utf8Decode (bytes : List UInt8) : Option (List Char) :=
  bytes.toByteArray.utf8Decode?.map Array.toList

def base64UrlParse (text : List Char) : Option (List UInt8) :=
  Base64.decode ((TokenPlatform.fromUrlLetters text).filter (!isScriptSpace ·))

def base64UrlStringify (bytes : List UInt8) : List Char :=
  ((Base64.encode bytes).filter (· ≠ '=')).map fun char =>
    if char = '+' then '-' else if char = '/' then '_' else char

def utf8ToUint8Array (text : List Char) : Option (List UInt8) :=
  base64UrlParse (Base64.encode (utf8 text))

def decodeJwtPayload (raw : List Char) : Except Unit (Option JsonValue) :=
  let read (raw : List Char) : Option JsonValue := do
    let bytes ← Base64.decode raw
    let text ← utf8Decode bytes
    parseJson text
  match (raw.flatMap Runtime.codeUnits).length % 4 with
  | 0 => .ok (read raw)
  | 2 => .ok (read (raw ++ ['=', '=']))
  | 3 => .ok (read (raw ++ ['=']))
  | _ => .error ()

abbrev Hmac := List UInt8 → List UInt8 → List UInt8

def importable (secret : String) : Bool :=
  secret ≠ "" && !decide ("-----BEGIN".toList <+: secret.toList)

def headerText : List Char :=
  "\x7b\"typ\":\"JWT\",\"alg\":\"HS256\"\x7d".toList

def fieldOf (name : String) (fields : JsonFields) : Option JsonValue :=
  (fields.find? fun field => field.1 = named name).map Prod.snd

def issued (now : Nat) (payload : JsonFields) : JsonFields :=
  if (fieldOf "iat" payload).any JsonValue.truthy then payload
  else OrderedMap.setEntry (named "iat") (numberOf (now / 1000)) payload

def jwtPart (text : List Char) : Option (List Char) :=
  (utf8ToUint8Array text).map base64UrlStringify

def jwtEncode (hmac : Hmac) (now : Nat) (payload : JsonFields) (secret : String) :
    Option (List Char) := do
  let header ← jwtPart headerText
  let body ← jwtPart (JsonValue.object (issued now payload)).stringify
  let text := header ++ '.' :: body
  if importable secret then do
    let key ← utf8ToUint8Array secret.toList
    let message ← utf8ToUint8Array text
    return text ++ '.' :: base64UrlStringify (hmac key message)
  else none

def jwtDecode (token : List Char) : Except Unit (Option JsonValue × Option JsonValue) :=
  match token.splitOn '.' with
  | header :: payload :: _ => do
      let header ← decodeJwtPayload (TokenPlatform.fromUrlLetters header)
      let payload ← decodeJwtPayload (TokenPlatform.fromUrlLetters payload)
      return (header, payload)
  | _ => .error ()

/-- `payload.name`. What is no object has no such property. -/
def property? (name : String) : JsonValue → Option JsonValue
  | .object fields => fieldOf name fields
  | _ => none

/-- A claim holds back the token: the claim counts as true, and so does the comparison. -/
def claimHolds (claim : Option JsonValue) (compare : Runtime.ScriptNumber → Bool) :
    Except Unit Bool :=
  match claim with
  | none => .ok false
  | some value => if value.truthy then value.toNumber.map compare else .ok false

def jwtVerify (hmac : Hmac) (now : Nat) (token : List Char) (secret : String) : Except Unit Bool :=
  match token.splitOn '.' with
  | [header, body, signature] => do
      match ← jwtDecode token with
      | (_, none) => return false
      | (_, some payload) =>
          if !payload.truthy then return false
          if ← claimHolds (property? "nbf" payload) (·.isAfter (now / 1000)) then
            return false
          if ← claimHolds (property? "exp" payload) (·.isUntil (now / 1000)) then
            return false
          if importable secret then
            match utf8ToUint8Array secret.toList, base64UrlParse signature,
                utf8ToUint8Array (header ++ '.' :: body) with
            | some key, some signature, some message => return signature == hmac key message
            | _, _, _ => .error ()
          else .error ()
  | _ => .error ()

def sessionCookieName : String := "__houdini__"

def sessionLifetime : Nat := 7 * 24 * 60 * 60 * 1000

def expiryOf (now : Nat) : Nat := (now + sessionLifetime) / 1000

def setSession (hmac : Hmac) (now : Nat) (session : JsonFields) : List String → Option (List Char)
  | [] => none
  | key :: _ =>
      jwtEncode hmac now (OrderedMap.setEntry (named "exp") (numberOf (expiryOf now)) session) key

def inheritedNames : List String :=
  ["constructor", "__defineGetter__", "__defineSetter__", "hasOwnProperty", "__lookupGetter__",
    "__lookupSetter__", "isPrototypeOf", "propertyIsEnumerable", "toString", "valueOf", "__proto__",
    "toLocaleString"]

def tryDecode (text : List Char) : List Char := (Runtime.decodeURIComponent text).getD text

def unquoted (text : List Char) : List Char :=
  if text.head? = some '"' then text.tail.dropLast else text

/-- Cookies of a header, at most so many. What stands in front of a semicolon without an equals sign
is skipped. -/
def cookiesUpTo : Nat → OrderedMap (List Char) (List Char) → List Char →
    OrderedMap (List Char) (List Char)
  | 0, known, _ => known
  | count + 1, known, text =>
      match text.dropWhile (· ≠ '=') with
      | [] => known
      | _ :: behind =>
          let before := text.takeWhile (· ≠ '=')
          let key := trim (before.rtakeWhile (· ≠ ';'))
          let value := unquoted (trim (behind.takeWhile (· ≠ ';')))
          let rest := (behind.dropWhile (· ≠ ';')).drop 1
          cookiesUpTo count
            (if known.contains key || inheritedNames.contains (String.ofList key) then known
              else known.set key (tryDecode value)) rest

def parseCookies (header : List Char) : OrderedMap (List Char) (List Char) :=
  cookiesUpTo (header.length + 1) ∅ header

def propertiesOf : JsonValue → JsonFields
  | .object fields => fields
  | .array items => items.zipIdx.map fun item => (named (toString item.2), item.1)
  | .string units => units.zipIdx.map fun unit => (named (toString unit.2), .string [unit.1])
  | _ => []

def withoutClaims (fields : JsonFields) : JsonFields :=
  fields.filter fun field => field.1 ≠ named "exp" && field.1 ≠ named "iat"

/-- The session of a cookie, by the first key that verifies it. Whatever throws is another key's
matter. -/
def sessionOf (hmac : Hmac) (now : Nat) (cookie : List Char) : List String → JsonFields
  | [] => []
  | secret :: rest =>
      match jwtVerify hmac now cookie secret, jwtDecode cookie with
      | .ok true, .ok (_, some payload) => withoutClaims (propertiesOf payload)
      | _, _ => sessionOf hmac now cookie rest

def getSession (hmac : Hmac) (now : Nat) (header : Option (List Char)) (secrets : List String) :
    JsonFields :=
  match header with
  | none => []
  | some header =>
      match (parseCookies header).get? sessionCookieName.toList with
      | none => []
      | some cookie =>
          if cookie = [] || cookie = [Runtime.leftBrace, Runtime.rightBrace] then []
          else sessionOf hmac now cookie secrets

end Houdini.Router
