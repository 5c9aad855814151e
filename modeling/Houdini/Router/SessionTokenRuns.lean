import Houdini.Router.SessionToken

/-! No token for a session is applied twice, as long as none expires while it is checked. -/

set_option autoImplicit false

namespace Houdini.Router

open TokenPlatform (signedText fromUrlLetters)

variable {platform : TokenPlatform} {sessionKeys : List String}

theorem signedText_payload {header payload other otherPayload : List Char}
    (clean : '.' ∉ payload) (otherClean : '.' ∉ otherPayload)
    (same : signedText header payload = signedText other otherPayload) :
    payload = otherPayload := by
  rcases List.append_eq_append_iff.mp same with ⟨between, _, tails⟩ | ⟨between, _, tails⟩
  · cases between with
    | nil => exact (List.cons.inj tails).2
    | cons char rest =>
        refine absurd ?_ clean
        rw [(List.cons.inj tails).2]
        exact List.mem_append_right _ List.mem_cons_self
  · cases between with
    | nil => exact (List.cons.inj tails).2.symm
    | cons char rest =>
        refine absurd ?_ otherClean
        rw [(List.cons.inj tails).2]
        exact List.mem_append_right _ List.mem_cons_self

theorem mem_fromUrlLetters {char : Char} {part : List Char} (member : char ∈ part)
    (minus : char ≠ '-') (underscore : char ≠ '_') : char ∈ fromUrlLetters part := by
  refine List.mem_map.mpr ⟨char, member, ?_⟩
  rw [if_neg minus, if_neg underscore]

theorem TokenPlatform.Lawful.clean (lawful : platform.Lawful) {payload : List Char}
    {claims : Claims} (read : platform.readPayload (fromUrlLetters payload) = some claims) :
    '.' ∉ payload := fun member =>
  lawful.dot_not_mem read (mem_fromUrlLetters member (by decide) (by decide))

theorem TokenPlatform.Lawful.not_session (lawful : platform.Lawful) {header payload : List Char}
    {claims : Claims} (read : platform.readPayload (fromUrlLetters payload) = some claims)
    (session : Session) : signedText header payload ≠ stableStringify (.object session) := by
  intro same
  have last := getLast?_stableStringify session
  rw [← same, signedText] at last
  cases payload with
  | nil => exact lawful.payload_ne_nil read rfl
  | cons char rest =>
      rw [List.getLast?_append, List.getLast?_cons_cons] at last
      have found := List.mem_of_getLast? (l := char :: rest) (by simpa using last)
      exact lawful.brace_not_mem read (mem_fromUrlLetters found (by decide) (by decide))

theorem consume_rejects {consumed : OrderedMap String Nat} {now expiry : Nat} {jti : String}
    (found : consumed.get? jti = some expiry) (later : now < expiry) (ttlMs : Nat) :
    (consume consumed now jti ttlMs).1 = false := by
  have kept : (consumed.filter fun entry => !decide (entry.2 ≤ now)).contains jti = true := by
    rw [OrderedMap.contains, OrderedMap.get?_filter, found]
    simp [later]
  unfold consume
  rw [if_pos kept]

theorem get?_consume_of_later {consumed : OrderedMap String Nat} {now expiry : Nat} {id : String}
    (found : consumed.get? id = some expiry) (later : now < expiry) (jti : String) (ttlMs : Nat) :
    (consume consumed now jti ttlMs).2.get? id = some expiry := by
  have kept : (consumed.filter fun entry => !decide (entry.2 ≤ now)).get? id = some expiry := by
    rw [OrderedMap.get?_filter, found]
    simp [later]
  unfold consume
  dsimp only
  split
  · exact kept
  · next absent =>
      have other : jti ≠ id := by
        rintro rfl
        rw [OrderedMap.contains, kept] at absent
        exact absent rfl
      rw [OrderedMap.get?_set, if_neg other.symm]
      exact kept

theorem get?_consume_of_fresh {consumed : OrderedMap String Nat} {now ttlMs : Nat} {jti : String}
    (fresh : (consume consumed now jti ttlMs).1 = true) :
    (consume consumed now jti ttlMs).2.get? jti = some (now + ttlMs) := by
  unfold consume at fresh ⊢
  dsimp only at fresh ⊢
  split
  · next present => rw [if_pos present] at fresh; cases fresh
  · rw [OrderedMap.get?_set, if_pos rfl]

variable (platform sessionKeys) in
/-- What is signed with the key of the mint are its tokens and the sessions of fingerprints. An
action that was applied is remembered until its token expires. -/
structure SessionServer.Secure (server : SessionServer) : Prop where
  signed : ∀ text, (sessionTokenKey sessionKeys, text) ∈ server.signed →
    (∃ session, text = stableStringify (.object session)) ∨
      ∃ minted ∈ server.minted, platform.Keeps (minted.claims platform sessionKeys) ∧
        text = platform.encodedText minted.time (minted.sessionClaims platform sessionKeys)
  fresh : (server.minted.map (·.jti)).Nodup
  past : ∀ minted ∈ server.minted, minted.time ≤ server.now
  presented : ∀ presentation ∈ server.presentations, ∃ minted ∈ server.minted,
    platform.decode presentation.token = .ok (some (minted.claims platform sessionKeys)) ∧
      (minted.claims platform sessionKeys).sessionResult = some presentation.verified
  proper : server.AppliesProperly platform sessionKeys
  remembered : ∀ applied ∈ server.applied, ∀ minted ∈ server.minted,
    minted.jti = applied.verified.jti → server.now < minted.expiry →
      ∃ expiry, server.consumedSessionTokens.get? applied.verified.jti = some expiry ∧
        minted.expiry ≤ expiry

theorem start_secure (now : Nat) : SessionServer.Secure platform sessionKeys { now := now } where
  signed := nofun
  fresh := List.nodup_nil
  past := nofun
  presented := nofun
  proper := ⟨nofun, List.nodup_nil⟩
  remembered := nofun

theorem sessionResult_jti {minted : MintedToken} {verified : SessionTokenResult}
    (result : (minted.claims platform sessionKeys).sessionResult = some verified) :
    verified.jti = minted.jti ∧
      verified.sid = platform.sessionTokenFingerprint minted.priorSession sessionKeys := by
  have same := Option.some.inj result
  rw [← same]
  exact ⟨rfl, rfl⟩

theorem AppliedAction.Authorized.mono {server next : SessionServer} {applied : AppliedAction}
    (authorized : applied.Authorized platform sessionKeys server)
    (kept : server.minted ⊆ next.minted) : applied.Authorized platform sessionKeys next := by
  obtain ⟨minted, member, facts⟩ := authorized
  exact ⟨minted, kept member, facts⟩

namespace SessionServer.Secure

variable {server : SessionServer}

theorem tick (secure : server.Secure platform sessionKeys) (passed : Nat) :
    Secure platform sessionKeys { server with now := server.now + passed } where
  signed := secure.signed
  fresh := secure.fresh
  past := fun minted member => Nat.le_add_right_of_le (secure.past minted member)
  presented := secure.presented
  proper := ⟨secure.proper.authorized, secure.proper.once⟩
  remembered := fun applied isApplied minted isMinted same unexpired =>
    secure.remembered applied isApplied minted isMinted same
      (Nat.lt_of_le_of_lt (Nat.le_add_right _ _) unexpired)

theorem sign (secure : server.Secure platform sessionKeys) {key : String} {text : List Char}
    (allowed : key = sessionTokenKey sessionKeys → ∃ session, text = stableStringify (.object session)) :
    Secure platform sessionKeys { server with signed := (key, text) :: server.signed } where
  signed := by
    intro written member
    rcases List.mem_cons.mp member with isNew | old
    · cases isNew
      exact Or.inl (allowed rfl)
    · exact secure.signed written old
  fresh := secure.fresh
  past := secure.past
  presented := secure.presented
  proper := ⟨secure.proper.authorized, secure.proper.once⟩
  remembered := secure.remembered

theorem signSession (secure : server.Secure platform sessionKeys) (session : Session) :
    (server.signSession sessionKeys session).Secure platform sessionKeys :=
  secure.sign fun _ => ⟨session, rfl⟩

theorem mint (secure : server.Secure platform sessionKeys) {minted : MintedToken}
    (now : minted.time = server.now) (fresh : ∀ other ∈ server.minted, other.jti ≠ minted.jti)
    (keeps : platform.Keeps (minted.claims platform sessionKeys)) :
    (server.mint platform sessionKeys minted).Secure platform sessionKeys := by
  have before := secure.signSession minted.priorSession
  constructor
  · intro text member
    rcases List.mem_cons.mp member with isNew | old
    · cases isNew
      exact Or.inr ⟨minted, List.mem_cons_self, keeps, rfl⟩
    · rcases before.signed text old with isSession | ⟨other, among, facts⟩
      · exact Or.inl isSession
      · exact Or.inr ⟨other, List.mem_cons_of_mem _ among, facts⟩
  · refine List.nodup_cons.mpr ⟨?_, secure.fresh⟩
    rintro member
    obtain ⟨other, among, same⟩ := List.mem_map.mp member
    exact fresh other among same
  · intro other member
    rcases List.mem_cons.mp member with rfl | old
    · exact Nat.le_of_eq now
    · exact secure.past other old
  · intro presentation member
    obtain ⟨other, among, facts⟩ := secure.presented presentation member
    exact ⟨other, List.mem_cons_of_mem _ among, facts⟩
  · exact ⟨fun applied member => (secure.proper.authorized applied member).mono
      (List.subset_cons_self _ _), secure.proper.once⟩
  · intro applied isApplied other member same unexpired
    rcases List.mem_cons.mp member with rfl | old
    · obtain ⟨author, among, result, _⟩ := secure.proper.authorized applied isApplied
      exact absurd ((sessionResult_jti result).1.symm.trans same.symm) (fresh author among)
    · exact secure.remembered applied isApplied other old same unexpired

theorem verified (secure : server.Secure platform sessionKeys) (lawful : platform.Lawful)
    {token : List Char} {verified : SessionTokenResult}
    (unforged : platform.Unforged server.signed (sessionTokenKey sessionKeys) token)
    (valid : platform.verifySessionToken server.now token sessionKeys = some verified) :
    ∃ minted ∈ server.minted,
      platform.decode token = .ok (some (minted.claims platform sessionKeys)) ∧
        (minted.claims platform sessionKeys).sessionResult = some verified := by
  unfold TokenPlatform.verifySessionToken at valid
  split at valid
  · next accepted =>
      obtain ⟨header, payload, signature, claims, parts, read, decoded, _, signs⟩ :=
        TokenPlatform.verify_cases accepted
      rw [decoded] at valid
      rcases secure.signed _ (unforged header payload signature parts signs) with
        ⟨session, isSession⟩ | ⟨minted, isMinted, keeps, same⟩
      · exact absurd isSession (lawful.not_session read session)
      · have samePayload := signedText_payload (lawful.clean read) (lawful.clean keeps) same
        have sameClaims : claims = minted.claims platform sessionKeys := by
          rw [samePayload] at read
          exact Option.some.inj (read.symm.trans keeps)
        rw [sameClaims] at decoded valid
        exact ⟨minted, isMinted, decoded, valid⟩
  · cases valid

theorem present (secure : server.Secure platform sessionKeys) (lawful : platform.Lawful)
    {token : List Char}
    (unforged : platform.Unforged server.signed (sessionTokenKey sessionKeys) token) :
    (server.present platform sessionKeys token).Secure platform sessionKeys := by
  unfold SessionServer.present
  split
  · exact secure
  · next verified valid =>
      have found := secure.verified lawful unforged valid
      exact {
        signed := secure.signed
        fresh := secure.fresh
        past := secure.past
        presented := by
          intro presentation member
          rcases List.mem_append.mp member with old | isNew
          · exact secure.presented presentation old
          · rw [List.mem_singleton.mp isNew]
            exact found
        proper := ⟨secure.proper.authorized, secure.proper.once⟩
        remembered := secure.remembered }

theorem applySessionToken (secure : server.Secure platform sessionKeys) {minted : MintedToken}
    {verified : SessionTokenResult} (isMinted : minted ∈ server.minted)
    (result : (minted.claims platform sessionKeys).sessionResult = some verified)
    (timely : server.now < minted.expiry) (presenter : Session) :
    (server.applySessionToken platform sessionKeys verified presenter).Secure platform
      sessionKeys := by
  unfold SessionServer.applySessionToken
  have remembered {applied : AppliedAction} (isApplied : applied ∈ server.applied)
      {other : MintedToken} (among : other ∈ server.minted)
      (same : other.jti = applied.verified.jti) (unexpired : server.now < other.expiry) :
      ∃ expiry, (consume server.consumedSessionTokens server.now verified.jti
        sessionTokenTtlMs).2.get? applied.verified.jti = some expiry ∧ other.expiry ≤ expiry := by
    obtain ⟨expiry, found, outlives⟩ := secure.remembered applied isApplied other among same unexpired
    exact ⟨expiry, get?_consume_of_later found (Nat.lt_of_lt_of_le unexpired outlives) _ _, outlives⟩
  obtain ⟨jti, sid⟩ := sessionResult_jti result
  split
  · next bound =>
      cases fresh : (consume server.consumedSessionTokens server.now verified.jti
          sessionTokenTtlMs).1 with
      | false =>
          dsimp only
          rw [fresh]
          exact {
            signed := secure.signed
            fresh := secure.fresh
            past := secure.past
            presented := secure.presented
            proper := ⟨secure.proper.authorized, secure.proper.once⟩
            remembered := fun applied isApplied other among same unexpired =>
              remembered isApplied among same unexpired }
      | true =>
          dsimp only
          rw [fresh, if_pos rfl]
          constructor
          · exact secure.signed
          · exact secure.fresh
          · exact secure.past
          · exact secure.presented
          · constructor
            · intro applied member
              rcases List.mem_cons.mp member with isNew | old
              · rw [isNew]
                refine ⟨minted, isMinted, result, ?_, secure.past minted isMinted, timely⟩
                rw [← sid]
                exact timingSafeEqual_iff.mp bound
              · exact secure.proper.authorized applied old
            · refine List.nodup_cons.mpr ⟨fun member => ?_, secure.proper.once⟩
              obtain ⟨applied, isApplied, same⟩ := List.mem_map.mp member
              obtain ⟨expiry, found, outlives⟩ := secure.remembered applied isApplied minted isMinted
                (jti.symm.trans same.symm) timely
              rw [same] at found
              have rejected := consume_rejects found (Nat.lt_of_lt_of_le timely outlives)
                sessionTokenTtlMs
              rw [fresh] at rejected
              cases rejected
          · intro applied member other among same unexpired
            rcases List.mem_cons.mp member with isNew | old
            · rw [isNew]
              refine ⟨_, get?_consume_of_fresh fresh, ?_⟩
              have past := secure.past other among
              unfold MintedToken.expiry TokenPlatform.sessionTtlSeconds sessionTokenTtlMs
              omega
            · exact remembered old among same unexpired
  · exact secure

theorem resume (secure : server.Secure platform sessionKeys) {index : Nat} {presenter : Session}
    (timely : (SessionEvent.resume index presenter).Timely platform server) :
    (server.resume platform sessionKeys index presenter).Secure platform sessionKeys := by
  unfold SessionServer.resume
  split
  · exact secure
  · next presentation found =>
      obtain ⟨minted, isMinted, decoded, result⟩ :=
        secure.presented presentation (List.mem_of_getElem? found)
      have unexpired : server.now < minted.expiry := by
        have seconds := timely presentation found _ decoded
          (minted.time / 1000 + TokenPlatform.sessionTtlSeconds) rfl
        unfold MintedToken.expiry
        omega
      have before := secure.signSession presenter
      have waiting : SessionServer.Secure platform sessionKeys
          { server.signSession sessionKeys presenter with
            presentations := server.presentations.eraseIdx index } := {
        signed := before.signed
        fresh := before.fresh
        past := before.past
        presented := fun other member =>
          secure.presented other (List.mem_of_mem_eraseIdx member)
        proper := ⟨before.proper.authorized, before.proper.once⟩
        remembered := before.remembered }
      exact waiting.applySessionToken isMinted result unexpired presenter

theorem step (secure : server.Secure platform sessionKeys) (lawful : platform.Lawful)
    {event : SessionEvent} (possible : event.Possible platform sessionKeys server)
    (timely : event.Timely platform server) :
    (server.step platform sessionKeys event).Secure platform sessionKeys := by
  cases event with
  | tick passed => exact secure.tick passed
  | mint payload merge priorSession jti => exact secure.mint rfl possible.1 possible.2
  | sign key text => exact secure.sign fun same => absurd same possible
  | present token => exact secure.present lawful possible
  | resume index presenter => exact secure.resume timely

theorem run (secure : server.Secure platform sessionKeys) (lawful : platform.Lawful)
    {events : List SessionEvent} (possible : PossibleRun platform sessionKeys server events)
    (timely : TimelyRun platform sessionKeys server events) :
    (server.run platform sessionKeys events).Secure platform sessionKeys := by
  induction events generalizing server with
  | nil => exact secure
  | cons event rest ih =>
      exact ih (secure.step lawful possible.1 timely.1) possible.2 timely.2

end SessionServer.Secure

/-- Every action that is applied is that of a token that was minted with these keys for a session
like the presenter's and that has not expired, and no token is applied twice, if none expires
between its verification and its consumption. -/
theorem run_appliesProperly (lawful : platform.Lawful) {now : Nat} {events : List SessionEvent}
    (possible : PossibleRun platform sessionKeys { now := now } events)
    (timely : TimelyRun platform sessionKeys { now := now } events) :
    (SessionServer.run platform sessionKeys { now := now } events).AppliesProperly platform
      sessionKeys :=
  ((start_secure now).run lawful possible timely).proper

def anonymousDigest : List UInt8 :=
  [48, 128, 124, 80, 185, 159, 133, 95, 93, 69, 43, 214, 226, 142, 156, 35,
    103, 120, 11, 147, 230, 63, 92, 41, 254, 254, 212, 90, 90, 98, 81, 76]

def anonymousSid : String := "30807c50b99f855f5d452bd6e28e9c2367780b93e63f5c29fefed45a5a62514c"

@[irreducible]
def loginPayload : List Char := List.flatMap String.toList
  ["eyJob3VkaW5p", "U2Vzc2lvbiI6", "dHJ1ZSwicGF5", "bG9hZCI6eyJ1", "c2VyIjoiYWRh",
    "In0sIm1lcmdl", "IjpmYWxzZSwi", "c2lkIjoiMzA4", "MDdjNTBiOTlm", "ODU1ZjVkNDUy",
    "YmQ2ZTI4ZTlj", "MjM2Nzc4MGI5", "M2U2M2Y1YzI5", "ZmVmZWQ0NWE1", "YTYyNTE0YyIs",
    "Imp0aSI6IjM2", "YjhmODRkLWRm", "NGUtNGQ0OS1i", "NjYyLWJjZGU3", "MWE4NzY0ZiIs",
    "ImV4cCI6MTcw", "MDAwMDA2MCwi", "aWF0IjoxNzAw", "MDAwMDAwfQ"]

def loginDigest : List UInt8 :=
  [203, 234, 92, 128, 144, 108, 28, 233, 95, 174, 119, 143, 129, 129, 31, 50,
    48, 120, 83, 136, 147, 139, 75, 202, 153, 49, 250, 164, 96, 221, 122, 18]

def loginSignature : List Char := "y-pcgJBsHOlfrnePgYEfMjB4U4iTi0vKmTH6pGDdehI".toList

def loginClaims : Claims where
  houdiniSession := true
  clear := false
  payload := some [("user", .string "ada")]
  merge := false
  sid := some anonymousSid
  jti := some "36b8f84d-df4e-4d49-b662-bcde71a8764f"
  exp := some 1700000060
  nbf := none
  iat := some 1700000000

/-- The values of the platform that the run needs, for the keys `["secret"]`. -/
def loginPlatform : TokenPlatform where
  writePayload _ := loginPayload
  readPayload text := if text = loginPayload then some loginClaims else none
  hmac _ text := if text = stableStringify (.object []) then anonymousDigest else loginDigest
  writeSignature _ := loginSignature
  readSignature text := if text = loginSignature then some loginDigest else none

theorem loginPlatform_lawful : loginPlatform.Lawful := by
  have only {text : List Char} {claims : Claims}
      (read : loginPlatform.readPayload text = some claims) : text = loginPayload :=
    (Option.ite_none_right_eq_some.mp read).1
  have clean : loginPayload ≠ [] ∧ '.' ∉ loginPayload ∧ Runtime.rightBrace ∉ loginPayload := by
    decide +kernel
  constructor
  · intro text claims read
    rw [only read]
    exact clean.1
  · intro text claims read
    rw [only read]
    exact clean.2.1
  · intro text claims read
    rw [only read]
    exact clean.2.2

def loginServer : SessionServer where
  now := 1700000000000

def loginMint : SessionEvent :=
  .mint (some [("user", .string "ada")]) false [] "36b8f84d-df4e-4d49-b662-bcde71a8764f"

@[irreducible]
def loginToken : List Char :=
  loginPlatform.signSessionToken 1700000000000 (some [("user", .string "ada")]) ["secret"] false
    [] "36b8f84d-df4e-4d49-b662-bcde71a8764f"

theorem loginToken_parts :
    loginToken.splitOn '.' = [jwtHeader, loginPayload, loginSignature] := by
  decide +kernel

theorem loginToken_unforged {signed : List (String × List Char)}
    (minted : (sessionTokenKey ["secret"], signedText jwtHeader loginPayload) ∈ signed) :
    loginPlatform.Unforged signed (sessionTokenKey ["secret"]) loginToken := by
  intro header payload signature parts _
  rw [loginToken_parts] at parts
  obtain ⟨rfl, rfl, rfl⟩ : jwtHeader = header ∧ loginPayload = payload ∧
      loginSignature = signature := by
    simpa using parts
  exact minted

theorem readPayload_login : loginPlatform.readPayload loginPayload = some loginClaims :=
  if_pos rfl

theorem fromUrlLetters_login : fromUrlLetters loginPayload = loginPayload := by
  decide +kernel

theorem loginMint_possible :
    loginMint.Possible loginPlatform ["secret"] loginServer := by
  refine ⟨nofun, ?_⟩
  have sid : loginPlatform.sessionTokenFingerprint [] ["secret"] = anonymousSid := by
    decide +kernel
  have claims : MintedToken.claims loginPlatform ["secret"]
      { payload := some [("user", .string "ada")], merge := false, priorSession := [],
        jti := "36b8f84d-df4e-4d49-b662-bcde71a8764f", time := loginServer.now } = loginClaims := by
    rw [MintedToken.claims, MintedToken.sessionClaims, TokenPlatform.sessionClaims, sid]
    rfl
  change loginPlatform.Keeps _
  rw [claims, TokenPlatform.Keeps]
  change loginPlatform.readPayload (fromUrlLetters loginPayload) = _
  rw [fromUrlLetters_login, readPayload_login]

theorem loginToken_presented (server : SessionServer)
    (minted : (sessionTokenKey ["secret"], signedText jwtHeader loginPayload) ∈ server.signed) :
    (SessionEvent.present loginToken).Possible loginPlatform ["secret"] server := by
  change loginPlatform.Unforged server.signed (sessionTokenKey ["secret"]) loginToken
  exact loginToken_unforged minted

theorem decode_loginToken : loginPlatform.decode loginToken = .ok (some loginClaims) := by
  have decoded {part : List Char} (length : (part.flatMap Runtime.codeUnits).length % 4 ≠ 1) :
      loginPlatform.decodePayload part = .ok (loginPlatform.readPayload part) := if_neg length
  unfold TokenPlatform.decode
  rw [loginToken_parts]
  dsimp only
  rw [decoded (by decide +kernel), decoded (by decide +kernel), fromUrlLetters_login,
    readPayload_login]
  rfl

def loginOnce : List SessionEvent := [loginMint, .present loginToken, .resume 0 []]

theorem run_appliesProperly_login :
    PossibleRun loginPlatform ["secret"] { now := 1700000000000 } loginOnce ∧
      TimelyRun loginPlatform ["secret"] { now := 1700000000000 } loginOnce ∧
      (SessionServer.run loginPlatform ["secret"] { now := 1700000000000 }
        loginOnce).AppliesProperly loginPlatform ["secret"] := by
  have possible : PossibleRun loginPlatform ["secret"] { now := 1700000000000 } loginOnce :=
    ⟨loginMint_possible, loginToken_presented _ List.mem_cons_self, trivial, trivial⟩
  have timely : TimelyRun loginPlatform ["secret"] { now := 1700000000000 } loginOnce := by
    refine ⟨trivial, trivial, ?_, trivial⟩
    intro presentation found claims decoded exp expires
    have tokens : (SessionServer.run loginPlatform ["secret"] { now := 1700000000000 }
        [loginMint, .present loginToken]).presentations.map (·.token) = [loginToken] := by
      decide +kernel
    have token : presentation.token = loginToken := by
      have member := List.mem_map_of_mem (f := Presentation.token) (List.mem_of_getElem? found)
      exact List.mem_singleton.mp (tokens ▸ member)
    rw [token, decode_loginToken] at decoded
    cases decoded
    cases expires
    decide +kernel
  exact ⟨possible, timely, run_appliesProperly loginPlatform_lawful possible timely⟩

/-- A second relay is verified in the last millisecond of the token and consumed in the next. -/
def loginTwice : List SessionEvent :=
  loginOnce ++ [.tick 59999, .present loginToken, .tick 1, .resume 0 []]

/-- The login is applied once more. -/
theorem run_applies_twice :
    PossibleRun loginPlatform ["secret"] { now := 1700000000000 } loginTwice ∧
      ¬ (SessionServer.run loginPlatform ["secret"] { now := 1700000000000 }
        loginTwice).AppliesProperly loginPlatform ["secret"] := by
  constructor
  · refine ⟨loginMint_possible, loginToken_presented _ List.mem_cons_self, trivial, trivial,
      loginToken_presented _ ?_, trivial, trivial, trivial⟩
    decide +kernel
  · intro proper
    have applied : (SessionServer.run loginPlatform ["secret"] { now := 1700000000000 }
        loginTwice).applied.map (·.verified.jti) =
          ["36b8f84d-df4e-4d49-b662-bcde71a8764f", "36b8f84d-df4e-4d49-b662-bcde71a8764f"] := by
      decide +kernel
    have once := proper.once
    rw [applied] at once
    exact absurd once (by decide)

end Houdini.Router
