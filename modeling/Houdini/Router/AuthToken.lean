import Houdini.Data.OrderedMap
import Houdini.Runtime.Encoding
import Houdini.Runtime.Json
import Mathlib.Data.List.Lex

/-! Tokens that a server signs for itself, and how one is bound to a session. -/

set_option autoImplicit false

namespace Houdini.Router

open Houdini.Runtime (Json scriptText lowerHexDigit leftBrace rightBrace)

abbrev Session := List (String × Json)

def firstKey (sessionKeys : List String) : String := sessionKeys.headD "undefined"

def formTokenKey (sessionKeys : List String) : String :=
  firstKey sessionKeys ++ "|houdini-form-csrf"

def sessionTokenKey (sessionKeys : List String) : String :=
  firstKey sessionKeys ++ "|houdini-session-mint"

def redirectTxnKey (sessionKeys : List String) : String :=
  firstKey sessionKeys ++ "|houdini-redirect-txn"

def mismatch (left right : List UInt16) : UInt16 :=
  (left.zip right).foldl (fun found units => found ||| (units.1 ^^^ units.2)) 0

def timingSafeEqual (left right : String) : Bool :=
  (scriptText left).length == (scriptText right).length &&
    mismatch (scriptText left) (scriptText right) == 0

theorem foldl_mismatch_eq_zero_iff {left right : List UInt16} (length : left.length = right.length)
    (found : UInt16) :
    (left.zip right).foldl (fun found units => found ||| (units.1 ^^^ units.2)) found = 0 ↔
      found = 0 ∧ left = right := by
  induction left generalizing right found with
  | nil =>
      have empty := List.eq_nil_of_length_eq_zero length.symm
      subst empty
      simp
  | cons unit rest ih =>
      cases right with
      | nil => cases length
      | cons other others =>
          rw [List.zip_cons_cons, List.foldl_cons,
            ih (Nat.succ.inj length) (found ||| (unit ^^^ other)), UInt16.or_eq_zero_iff,
            UInt16.xor_eq_zero_iff, List.cons.injEq, and_assoc]

theorem timingSafeEqual_iff {left right : String} :
    timingSafeEqual left right = true ↔ left = right := by
  rw [timingSafeEqual, Bool.and_eq_true, beq_iff_eq, beq_iff_eq]
  constructor
  · rintro ⟨length, same⟩
    exact Runtime.scriptText_injective ((foldl_mismatch_eq_zero_iff length 0).mp same).2
  · rintro rfl
    exact ⟨rfl, (foldl_mismatch_eq_zero_iff rfl 0).mpr ⟨rfl, rfl⟩⟩

def nameLe (left right : String) : Bool :=
  decide ((scriptText left).map UInt16.toNat ≤ (scriptText right).map UInt16.toNat)

mutual

/-- An object is written with its names sorted, and so are the objects in it. Those in arrays keep
their order. -/
def stableStringify : Json → List Char
  | .object fields =>
      leftBrace :: ([','].intercalate
        (((stableFields fields).mergeSort fun left right => nameLe left.1 right.1).map
          fun field => Runtime.quoteText field.1 ++ ':' :: field.2) ++ [rightBrace])
  | value => value.stringify

def stableFields : List (String × Json) → List (String × List Char)
  | [] => []
  | (name, value) :: rest => (name, stableStringify value) :: stableFields rest

end

theorem getLast?_stableStringify (session : Session) :
    (stableStringify (.object session)).getLast? = some rightBrace := by
  rw [stableStringify, ← List.cons_append, List.getLast?_concat]

/-- What the server writes into the payload of a token and reads of one. -/
structure Claims where
  houdiniSession : Bool
  clear : Bool
  payload : Option Session
  merge : Bool
  sid : Option String
  jti : Option String
  exp : Option Nat
  nbf : Option Nat
  iat : Option Nat

/-- What tokens rest on: a payload is JSON in Base64, a signature is an HMAC in Base64. -/
structure TokenPlatform where
  writePayload : Claims → List Char
  /-- Nothing is read of what is no Base64, no UTF-8 or no JSON. -/
  readPayload : List Char → Option Claims
  hmac : String → List Char → List UInt8
  writeSignature : List UInt8 → List Char
  readSignature : List Char → Option (List UInt8)

/-- Base64 has neither dots nor braces, and JSON is not empty. -/
structure TokenPlatform.Lawful (platform : TokenPlatform) : Prop where
  payload_ne_nil : ∀ {text claims}, platform.readPayload text = some claims → text ≠ []
  dot_not_mem : ∀ {text claims}, platform.readPayload text = some claims → '.' ∉ text
  brace_not_mem : ∀ {text claims}, platform.readPayload text = some claims → rightBrace ∉ text

def jwtHeader : List Char := "eyJ0eXAiOiJKV1QiLCJhbGciOiJIUzI1NiJ9".toList

namespace TokenPlatform

variable (platform : TokenPlatform)

def signedText (header payload : List Char) : List Char := header ++ '.' :: payload

def issued (now : Nat) (claims : Claims) : Claims :=
  if claims.iat.getD 0 = 0 then { claims with iat := some (now / 1000) } else claims

def encodedText (now : Nat) (claims : Claims) : List Char :=
  signedText jwtHeader (platform.writePayload (issued now claims))

def encode (now : Nat) (claims : Claims) (secret : String) : List Char :=
  let text := platform.encodedText now claims
  text ++ '.' :: platform.writeSignature (platform.hmac secret text)

def fromUrlLetters (part : List Char) : List Char :=
  part.map fun char => if char = '-' then '+' else if char = '_' then '/' else char

/-- One part of a token. Base64 has no text of some lengths, these throw. -/
def decodePayload (raw : List Char) : Except String (Option Claims) :=
  if (raw.flatMap Runtime.codeUnits).length % 4 = 1 then
    .error ("Illegal base64url string!" ++ String.ofList raw)
  else .ok (platform.readPayload raw)

def verify (now : Nat) (token : List Char) (secret : String) : Except String Bool :=
  match token.splitOn '.' with
  | [header, payload, signature] => do
      let _ ← platform.decodePayload (fromUrlLetters header)
      match ← platform.decodePayload (fromUrlLetters payload) with
      | none => return false
      | some claims =>
          if claims.nbf.any fun nbf => nbf != 0 && decide (now / 1000 < nbf) then return false
          if claims.exp.any fun exp => exp != 0 && decide (exp ≤ now / 1000) then return false
          return platform.readSignature signature ==
            some (platform.hmac secret (signedText header payload))
  | _ => .error "token must consist of 3 parts"

def decode (token : List Char) : Except String (Option Claims) :=
  match token.splitOn '.' with
  | header :: payload :: _ => do
      let _ ← platform.decodePayload (fromUrlLetters header)
      platform.decodePayload (fromUrlLetters payload)
  | _ => .error "token must consist of 3 parts"

def hexByte (byte : UInt8) : List Char :=
  [lowerHexDigit (byte.toNat / 16), lowerHexDigit (byte.toNat % 16)]

def sessionFingerprint (session : Session) (key : String) : String :=
  String.ofList ((platform.hmac key (stableStringify (.object session))).flatMap hexByte)

def sessionTokenFingerprint (session : Session) (sessionKeys : List String) : String :=
  platform.sessionFingerprint session (sessionTokenKey sessionKeys)

def sessionTtlSeconds : Nat := 60

def sessionClaims (now : Nat) (payload : Option Session) (sessionKeys : List String)
    (merge : Bool) (priorSession : Session) (jti : String) : Claims where
  houdiniSession := true
  clear := payload.isNone
  payload := payload
  merge := payload.isSome && merge
  sid := some (platform.sessionTokenFingerprint priorSession sessionKeys)
  jti := some jti
  exp := some (now / 1000 + sessionTtlSeconds)
  nbf := none
  iat := none

def signSessionToken (now : Nat) (payload : Option Session) (sessionKeys : List String)
    (merge : Bool) (priorSession : Session) (jti : String) : List Char :=
  platform.encode now (platform.sessionClaims now payload sessionKeys merge priorSession jti)
    (sessionTokenKey sessionKeys)

end TokenPlatform

inductive SessionAction where
  | write (session : Session) (merge : Bool)
  | clear

structure SessionTokenResult where
  action : SessionAction
  sid : String
  jti : String

def Claims.sessionResult (claims : Claims) : Option SessionTokenResult :=
  if claims.houdiniSession then
    match claims.sid, claims.jti with
    | some sid, some jti =>
        some {
          action := if claims.clear then .clear else .write (claims.payload.getD []) claims.merge
          sid
          jti }
    | _, _ => none
  else none

theorem TokenPlatform.readPayload_of_decode {platform : TokenPlatform} {raw : List Char}
    {found : Option Claims} (decoded : platform.decodePayload raw = .ok found) :
    platform.readPayload raw = found := by
  unfold decodePayload at decoded
  split at decoded
  · cases decoded
  · exact Except.ok.inj decoded

theorem TokenPlatform.verify_cases {platform : TokenPlatform} {now : Nat} {token : List Char}
    {secret : String} (verified : platform.verify now token secret = .ok true) :
    ∃ header payload signature claims, token.splitOn '.' = [header, payload, signature] ∧
      platform.readPayload (fromUrlLetters payload) = some claims ∧
      platform.decode token = .ok (some claims) ∧
      (∀ exp ∈ claims.exp, exp ≠ 0 → now / 1000 < exp) ∧
      platform.readSignature signature =
        some (platform.hmac secret (signedText header payload)) := by
  unfold verify at verified
  split at verified
  · next header payload signature parts =>
      cases first : platform.decodePayload (fromUrlLetters header) with
      | error message => rw [first] at verified; cases verified
      | ok _ =>
          cases second : platform.decodePayload (fromUrlLetters payload) with
          | error message => rw [first, second] at verified; cases verified
          | ok found =>
              cases found with
              | none => rw [first, second] at verified; cases verified
              | some claims =>
                  have read : platform.readPayload (fromUrlLetters payload) = some claims :=
                    readPayload_of_decode second
                  have decoded : platform.decode token = .ok (some claims) := by
                    unfold decode
                    rw [parts]
                    dsimp only
                    rw [first, second]
                    rfl
                  rw [first, second] at verified
                  simp only [bind, Except.bind, pure, Except.pure] at verified
                  split at verified
                  · cases verified
                  · split at verified
                    · cases verified
                    · next unexpired =>
                        refine ⟨header, payload, signature, claims, parts, read, decoded, ?_,
                          beq_iff_eq.mp (Except.ok.inj verified)⟩
                        intro exp found nonzero
                        rw [Option.mem_def.mp found] at unexpired
                        simp only [Option.any_some, Bool.and_eq_true, bne_iff_ne,
                          decide_eq_true_eq, not_and, Nat.not_le] at unexpired
                        exact unexpired nonzero
  · cases verified

def TokenPlatform.verifySessionToken (platform : TokenPlatform) (now : Nat) (token : List Char)
    (sessionKeys : List String) : Option SessionTokenResult :=
  match platform.verify now token (sessionTokenKey sessionKeys) with
  | .ok true =>
      match platform.decode token with
      | .ok (some claims) => claims.sessionResult
      | _ => none
  | _ => none

end Houdini.Router
