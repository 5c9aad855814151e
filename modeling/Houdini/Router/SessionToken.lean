import Houdini.Router.AuthToken

/-! How the server applies the tokens for sessions that are presented to it. -/

set_option autoImplicit false

namespace Houdini.Router

def spread (presenter session : Session) : Session :=
  session.foldl (fun fields field => OrderedMap.setEntry field.1 field.2 fields) presenter

structure MintedToken where
  payload : Option Session
  merge : Bool
  priorSession : Session
  jti : String
  time : Nat

/-- A presented token that was verified and not yet consumed. -/
structure Presentation where
  token : List Char
  verified : SessionTokenResult

structure AppliedAction where
  verified : SessionTokenResult
  presenter : Session
  time : Nat

def AppliedAction.session (applied : AppliedAction) : Option Session :=
  match applied.verified.action with
  | .clear => none
  | .write session merge => some (if merge then spread applied.presenter session else session)

/-- The clock is in milliseconds. Besides the store of consumed tokens, `signed` records what was
ever signed with which key, `minted` the tokens among it, and `applied` the actions. -/
structure SessionServer where
  now : Nat
  signed : List (String × List Char) := []
  minted : List MintedToken := []
  presentations : List Presentation := []
  consumedSessionTokens : OrderedMap String Nat := ∅
  applied : List AppliedAction := []

/-- Between `present`, where a token is verified, and `resume`, where it is consumed, the session of
its presenter is read. -/
inductive SessionEvent where
  | tick (passed : Nat)
  | mint (payload : Option Session) (merge : Bool) (priorSession : Session) (jti : String)
  | sign (key : String) (text : List Char)
  | present (token : List Char)
  | resume (index : Nat) (presenter : Session)

def sessionTokenTtlMs : Nat := 60 * 1000

def consume (consumed : OrderedMap String Nat) (now : Nat) (jti : String) (ttlMs : Nat) :
    Bool × OrderedMap String Nat :=
  let kept := consumed.filter fun entry => !decide (entry.2 ≤ now)
  if kept.contains jti then (false, kept) else (true, kept.set jti (now + ttlMs))

section Steps

variable (platform : TokenPlatform) (sessionKeys : List String)

def MintedToken.sessionClaims (minted : MintedToken) : Claims :=
  platform.sessionClaims minted.time minted.payload sessionKeys minted.merge minted.priorSession
    minted.jti

def MintedToken.claims (minted : MintedToken) : Claims :=
  TokenPlatform.issued minted.time (minted.sessionClaims platform sessionKeys)

def MintedToken.expiry (minted : MintedToken) : Nat :=
  (minted.time / 1000 + TokenPlatform.sessionTtlSeconds) * 1000

namespace SessionServer

/-- The fingerprint of a session is signed with the key for its tokens. -/
def signSession (server : SessionServer) (session : Session) : SessionServer :=
  { server with
    signed := (sessionTokenKey sessionKeys, stableStringify (.object session)) :: server.signed }

def mint (server : SessionServer) (minted : MintedToken) : SessionServer :=
  let server := server.signSession sessionKeys minted.priorSession
  { server with
    signed := (sessionTokenKey sessionKeys, platform.encodedText minted.time
      (minted.sessionClaims platform sessionKeys)) :: server.signed
    minted := minted :: server.minted }

def present (server : SessionServer) (token : List Char) : SessionServer :=
  match platform.verifySessionToken server.now token sessionKeys with
  | none => server
  | some verified =>
      { server with presentations := server.presentations ++ [{ token, verified }] }

def applySessionToken (server : SessionServer) (verified : SessionTokenResult)
    (presenter : Session) : SessionServer :=
  if timingSafeEqual verified.sid (platform.sessionTokenFingerprint presenter sessionKeys) then
    let (fresh, consumedSessionTokens) :=
      consume server.consumedSessionTokens server.now verified.jti sessionTokenTtlMs
    if fresh then
      { server with
        consumedSessionTokens
        applied := { verified, presenter, time := server.now } :: server.applied }
    else { server with consumedSessionTokens }
  else server

def resume (server : SessionServer) (index : Nat) (presenter : Session) : SessionServer :=
  match server.presentations[index]? with
  | none => server
  | some presentation =>
      let server := server.signSession sessionKeys presenter
      { server with presentations := server.presentations.eraseIdx index }.applySessionToken
        platform sessionKeys presentation.verified presenter

def step (server : SessionServer) : SessionEvent → SessionServer
  | .tick passed => { server with now := server.now + passed }
  | .mint payload merge priorSession jti =>
      server.mint platform sessionKeys { payload, merge, priorSession, jti, time := server.now }
  | .sign key text => { server with signed := (key, text) :: server.signed }
  | .present token => server.present platform sessionKeys token
  | .resume index presenter => server.resume platform sessionKeys index presenter

def run (server : SessionServer) (events : List SessionEvent) : SessionServer :=
  events.foldl (step platform sessionKeys) server

end SessionServer

def TokenPlatform.Keeps (claims : Claims) : Prop :=
  platform.readPayload (TokenPlatform.fromUrlLetters (platform.writePayload claims)) = some claims

def TokenPlatform.Unforged (signed : List (String × List Char)) (key : String)
    (token : List Char) : Prop :=
  ∀ header payload signature, token.splitOn '.' = [header, payload, signature] →
    platform.readSignature signature =
        some (platform.hmac key (TokenPlatform.signedText header payload)) →
      (key, TokenPlatform.signedText header payload) ∈ signed

/-- A random identifier is new, and none but the mint signs with its key. -/
def SessionEvent.Possible (server : SessionServer) : SessionEvent → Prop
  | .tick _ => True
  | .mint payload merge priorSession jti =>
      (∀ minted ∈ server.minted, minted.jti ≠ jti) ∧
        platform.Keeps (MintedToken.claims platform sessionKeys
          { payload, merge, priorSession, jti, time := server.now })
  | .sign key _ => key ≠ sessionTokenKey sessionKeys
  | .present token => platform.Unforged server.signed (sessionTokenKey sessionKeys) token
  | .resume _ _ => True

def SessionEvent.Timely (server : SessionServer) : SessionEvent → Prop
  | .resume index _ => ∀ presentation ∈ server.presentations[index]?, ∀ claims,
      platform.decode presentation.token = .ok (some claims) →
        ∀ exp ∈ claims.exp, server.now / 1000 < exp
  | _ => True

def PossibleRun : SessionServer → List SessionEvent → Prop
  | _, [] => True
  | server, event :: rest =>
      event.Possible platform sessionKeys server ∧
        PossibleRun (server.step platform sessionKeys event) rest

def TimelyRun : SessionServer → List SessionEvent → Prop
  | _, [] => True
  | server, event :: rest =>
      event.Timely platform server ∧ TimelyRun (server.step platform sessionKeys event) rest

/-- The action is that of a token that was minted for a session like the presenter's and that has
not expired. -/
def AppliedAction.Authorized (server : SessionServer) (applied : AppliedAction) : Prop :=
  ∃ minted ∈ server.minted,
    (minted.claims platform sessionKeys).sessionResult = some applied.verified ∧
      platform.sessionTokenFingerprint minted.priorSession sessionKeys =
        platform.sessionTokenFingerprint applied.presenter sessionKeys ∧
      minted.time ≤ applied.time ∧ applied.time < minted.expiry

/-- No token is applied twice, and none where it does not belong. -/
structure SessionServer.AppliesProperly (server : SessionServer) : Prop where
  authorized : ∀ applied ∈ server.applied, applied.Authorized platform sessionKeys server
  once : (server.applied.map (·.verified.jti)).Nodup

end Steps

end Houdini.Router
