import Houdini.Router.SessionCookie

/-! When the session that was written into a cookie is read from it. -/

set_option autoImplicit false

namespace Houdini.Router

open Houdini.Runtime (JsonValue JsonFields named numberOf parseJson isScriptSpace trim)

theorem utf8Decode_utf8 (text : List Char) : utf8Decode (utf8 text) = some text := by
  have bytes : (utf8 text).toByteArray = text.utf8Encode := rfl
  rw [utf8Decode, bytes]
  simp only [List.utf8Decode?_utf8Encode, Option.map_some]

/-- The letters of Base64 are no whitespace, no punctuation of tokens or cookies and none of the
letters for URLs, and they are single code units. -/
theorem base64_letter {char : Char} (member : char ∈ Base64.letters) :
    isScriptSpace char = false ∧ char ≠ '-' ∧ char ≠ '_' ∧ char ≠ '.' ∧ char.toNat < 128 := by
  have all : Base64.letters.all fun char => !isScriptSpace char && char != '-' && char != '_' &&
      char != '.' && decide (char.toNat < 128) := by decide +kernel
  have plain := List.all_eq_true.mp all char member
  simpa [and_assoc] using plain

def toUrlLetter (char : Char) : Char :=
  if char = '+' then '-' else if char = '/' then '_' else char

theorem base64UrlStringify_eq (bytes : List UInt8) :
    base64UrlStringify bytes = (Base64.unpadded bytes).map toUrlLetter := by
  have letters : (Base64.encode bytes).filter (· ≠ '=') = Base64.unpadded bytes := by
    rw [Base64.encode, List.filter_append, List.filter_eq_self.mpr, List.filter_eq_nil_iff.mpr,
      List.append_nil]
    · intro char member
      unfold Base64.padding at member
      split at member
      · simp_all
      · split at member <;> simp_all
    · intro char member
      simpa using (Base64.letters_plain (Base64.mem_unpadded member)).1
  rw [base64UrlStringify, letters]
  rfl

theorem fromUrlLetters_map_toUrlLetter {letters : List Char}
    (plain : ∀ char ∈ letters, char ∈ Base64.letters) :
    TokenPlatform.fromUrlLetters (letters.map toUrlLetter) = letters := by
  rw [TokenPlatform.fromUrlLetters, List.map_map]
  refine (List.map_congr_left fun char member => ?_).trans (List.map_id _)
  obtain ⟨_, notMinus, notLine, _⟩ := base64_letter (plain char member)
  rw [Function.comp_apply, id_eq, toUrlLetter]
  by_cases plus : char = '+'
  · rw [if_pos plus, plus]
    rfl
  · by_cases slash : char = '/'
    · rw [if_neg plus, if_pos slash, slash]
      rfl
    · rw [if_neg plus, if_neg slash, if_neg notMinus, if_neg notLine]

theorem fromUrlLetters_base64UrlStringify (bytes : List UInt8) :
    TokenPlatform.fromUrlLetters (base64UrlStringify bytes) = Base64.unpadded bytes := by
  rw [base64UrlStringify_eq, fromUrlLetters_map_toUrlLetter fun _ => Base64.mem_unpadded]

theorem base64UrlParse_base64UrlStringify (bytes : List UInt8) :
    base64UrlParse (base64UrlStringify bytes) = some bytes := by
  have plain : (Base64.unpadded bytes).filter (!isScriptSpace ·) = Base64.unpadded bytes :=
    List.filter_eq_self.mpr fun char member => by
      rw [(base64_letter (Base64.mem_unpadded member)).1]
      rfl
  rw [base64UrlParse, fromUrlLetters_base64UrlStringify, plain, Base64.decode_unpadded]

theorem mem_encode {bytes : List UInt8} {char : Char} (member : char ∈ Base64.encode bytes) :
    char ∈ Base64.letters ∨ char = '=' := by
  rw [Base64.encode, List.mem_append] at member
  rcases member with letter | padding
  · exact .inl (Base64.mem_unpadded letter)
  · right
    unfold Base64.padding at padding
    split at padding
    · simpa using padding
    · split at padding
      · simpa using padding
      · exact absurd padding List.not_mem_nil

theorem utf8ToUint8Array_eq (text : List Char) : utf8ToUint8Array text = some (utf8 text) := by
  have kept : (TokenPlatform.fromUrlLetters (Base64.encode (utf8 text))).filter
      (!isScriptSpace ·) = Base64.encode (utf8 text) := by
    have plain : ∀ char ∈ Base64.encode (utf8 text),
        isScriptSpace char = false ∧ char ≠ '-' ∧ char ≠ '_' := by
      intro char member
      rcases mem_encode member with letter | rfl
      · obtain ⟨visible, notMinus, notLine, _⟩ := base64_letter letter
        exact ⟨visible, notMinus, notLine⟩
      · decide
    have same : TokenPlatform.fromUrlLetters (Base64.encode (utf8 text)) =
        Base64.encode (utf8 text) := by
      refine (List.map_congr_left fun char member => ?_).trans (List.map_id _)
      obtain ⟨_, notMinus, notLine⟩ := plain char member
      exact (if_neg notMinus).trans (if_neg notLine)
    rw [same, List.filter_eq_self]
    intro char member
    rw [(plain char member).1]
    rfl
  rw [utf8ToUint8Array, base64UrlParse, kept, Base64.decode_encode]

theorem jwtPart_eq (text : List Char) : jwtPart text = some (base64UrlStringify (utf8 text)) := by
  rw [jwtPart, utf8ToUint8Array_eq, Option.map_some]

theorem dot_not_mem (bytes : List UInt8) : '.' ∉ base64UrlStringify bytes := by
  rw [base64UrlStringify_eq, List.mem_map]
  rintro ⟨char, member, same⟩
  obtain ⟨_, _, _, notDot, _⟩ := base64_letter (Base64.mem_unpadded member)
  unfold toUrlLetter at same
  split at same
  · cases same
  · split at same
    · cases same
    · exact notDot same

theorem length_codeUnits {letters : List Char} (plain : ∀ char ∈ letters, char ∈ Base64.letters) :
    (letters.flatMap Runtime.codeUnits).length = letters.length := by
  rw [List.length_flatMap]
  have single : letters.map (fun char => (Runtime.codeUnits char).length) =
      letters.map fun _ => 1 := List.map_congr_left fun char member => by
    obtain ⟨_, _, _, _, small⟩ := base64_letter (plain char member)
    rw [Runtime.codeUnits, if_pos (by omega), List.length_singleton]
  rw [single, List.map_const', List.sum_replicate_nat, Nat.mul_one]

theorem decodeJwtPayload_eq (text : List Char) :
    decodeJwtPayload (TokenPlatform.fromUrlLetters (base64UrlStringify (utf8 text))) =
      .ok (parseJson text) := by
  have decoded {raw : List Char} (whole : Base64.decode raw = some (utf8 text)) :
      (do let bytes ← Base64.decode raw
          let text ← utf8Decode bytes
          parseJson text) = parseJson text := by
    rw [whole]
    simp only [bind, Option.bind, utf8Decode_utf8]
  have padded := Base64.decode_encode (utf8 text)
  have count : (utf8 text).length % 3 < 3 := Nat.mod_lt _ (by decide)
  rw [fromUrlLetters_base64UrlStringify, decodeJwtPayload,
    length_codeUnits fun _ => Base64.mem_unpadded, Base64.length_unpadded]
  rw [Base64.encode, Base64.padding] at padded
  generalize (utf8 text).length % 3 = left at count padded
  obtain rfl | rfl | rfl : left = 0 ∨ left = 1 ∨ left = 2 := by omega
  · exact congrArg Except.ok (decoded (Base64.decode_unpadded (utf8 text)))
  · exact congrArg Except.ok (decoded padded)
  · exact congrArg Except.ok (decoded padded)

theorem setEntry_of_not_mem {name : List UInt16} (value : JsonValue) {fields : JsonFields}
    (absent : name ∉ fields.map Prod.fst) :
    OrderedMap.setEntry name value fields = fields ++ [(name, value)] := by
  induction fields with
  | nil => rfl
  | cons field rest ih =>
      rw [List.map_cons, List.mem_cons, not_or] at absent
      rw [OrderedMap.setEntry, if_neg (Ne.symm absent.1), ih absent.2, List.cons_append]

theorem fieldOf_setEntry_self (name : String) (value : JsonValue) (fields : JsonFields) :
    fieldOf name (OrderedMap.setEntry (named name) value fields) = some value := by
  induction fields with
  | nil => simp [fieldOf, OrderedMap.setEntry]
  | cons field rest ih =>
      rw [OrderedMap.setEntry]
      split
      · simp [fieldOf]
      · next other =>
          rw [fieldOf, List.find?_cons_of_neg (by simpa using other)]
          exact ih

theorem fieldOf_setEntry_of_ne {name : String} {other : List UInt16} (different : named name ≠ other)
    (value : JsonValue) (fields : JsonFields) :
    fieldOf name (OrderedMap.setEntry other value fields) = fieldOf name fields := by
  induction fields with
  | nil => simp [fieldOf, OrderedMap.setEntry, different.symm]
  | cons field rest ih =>
      rw [OrderedMap.setEntry]
      split
      · next same =>
          rw [fieldOf, fieldOf, List.find?_cons_of_neg (by simpa using different.symm),
            List.find?_cons_of_neg (by rw [same]; simpa using different.symm)]
      · unfold fieldOf at ih ⊢
        by_cases mine : field.1 = named name
        · rw [List.find?_cons_of_pos (by simpa using mine),
            List.find?_cons_of_pos (by simpa using mine)]
        · rw [List.find?_cons_of_neg (by simpa using mine),
            List.find?_cons_of_neg (by simpa using mine)]
          exact ih

theorem distinctFields_setEntry {name : List UInt16} {value : JsonValue} {fields : JsonFields}
    (distinct : Runtime.DistinctFields fields) (new : value.Distinct) :
    Runtime.DistinctFields (OrderedMap.setEntry name value fields) := by
  induction fields with
  | nil => exact ⟨new, trivial⟩
  | cons field rest ih =>
      rw [Runtime.DistinctFields] at distinct
      rw [OrderedMap.setEntry]
      split
      · exact ⟨new, distinct.2⟩
      · exact ⟨distinct.1, ih distinct.2⟩

theorem distinct_setEntry {name : List UInt16} {value : JsonValue} {fields : JsonFields}
    (distinct : (JsonValue.object fields).Distinct) (new : value.Distinct) :
    (JsonValue.object (OrderedMap.setEntry name value fields)).Distinct :=
  ⟨OrderedMap.nodup_setEntry name value distinct.1, distinctFields_setEntry distinct.2 new⟩

structure ClockTime where
  milliseconds : Nat
  valid : milliseconds + sessionLifetime ≤ 8640000000000000

def sessionPayload (now : Nat) (session : JsonFields) : JsonFields :=
  issued now (OrderedMap.setEntry (named "exp") (numberOf (expiryOf now)) session)

def sessionText (now : Nat) (session : JsonFields) : List Char :=
  base64UrlStringify (utf8 headerText) ++
    '.' :: base64UrlStringify (utf8 (JsonValue.object (sessionPayload now session)).stringify)

def sessionToken (hmac : Hmac) (now : Nat) (session : JsonFields) (key : String) : List Char :=
  sessionText now session ++
    '.' :: base64UrlStringify (hmac (utf8 key.toList) (utf8 (sessionText now session)))

variable {hmac : Hmac} {now : Nat} {session : JsonFields} {key : String}

theorem setSession_cases {keys : List String} {cookie : List Char}
    (written : setSession hmac now session keys = some cookie) :
    ∃ key others, keys = key :: others ∧ importable key = true ∧
      cookie = sessionToken hmac now session key := by
  cases keys with
  | nil => cases written
  | cons key others =>
      refine ⟨key, others, rfl, ?_⟩
      rw [setSession, jwtEncode, jwtPart_eq, jwtPart_eq, utf8ToUint8Array_eq] at written
      simp only [bind, Option.bind, pure, utf8ToUint8Array_eq] at written
      split at written
      · next good => exact ⟨good, (Option.some.inj written).symm⟩
      · cases written

theorem setSession_eq (good : importable key = true) (others : List String) :
    setSession hmac now session (key :: others) = some (sessionToken hmac now session key) := by
  rw [setSession, jwtEncode, jwtPart_eq, jwtPart_eq, utf8ToUint8Array_eq]
  simp only [bind, Option.bind, pure, utf8ToUint8Array_eq]
  rw [if_pos good]
  rfl

theorem splitOn_sessionToken :
    (sessionToken hmac now session key).splitOn '.' =
      [base64UrlStringify (utf8 headerText),
        base64UrlStringify (utf8 (JsonValue.object (sessionPayload now session)).stringify),
        base64UrlStringify (hmac (utf8 key.toList) (utf8 (sessionText now session)))] := by
  rw [sessionToken, sessionText, List.append_assoc, List.cons_append,
    List.splitOn_append_cons_self_of_not_mem (dot_not_mem _),
    List.splitOn_append_cons_self_of_not_mem (dot_not_mem _),
    List.splitOn_eq_singleton (dot_not_mem _)]

theorem distinct_sessionPayload (distinct : (JsonValue.object session).Distinct) :
    (JsonValue.object (sessionPayload now session)).Distinct := by
  have stamped : (JsonValue.object (OrderedMap.setEntry (named "exp") (numberOf (expiryOf now))
      session)).Distinct := distinct_setEntry distinct trivial
  rw [sessionPayload, issued]
  split
  · exact stamped
  · exact distinct_setEntry stamped trivial

theorem jwtDecode_sessionToken (distinct : (JsonValue.object session).Distinct) :
    jwtDecode (sessionToken hmac now session key) =
      .ok (parseJson headerText, some (.object (sessionPayload now session))) := by
  rw [jwtDecode, splitOn_sessionToken]
  dsimp only
  rw [decodeJwtPayload_eq, decodeJwtPayload_eq,
    Runtime.parseJson_stringify (distinct_sessionPayload distinct)]
  rfl

theorem names_ne : named "nbf" ≠ named "exp" ∧ named "nbf" ≠ named "iat" ∧
    named "exp" ≠ named "iat" := by
  refine ⟨?_, ?_, ?_⟩ <;> exact fun same => absurd (Runtime.scriptText_injective same) (by decide)

theorem fieldOf_nbf_sessionPayload :
    fieldOf "nbf" (sessionPayload now session) = fieldOf "nbf" session := by
  obtain ⟨notExp, notIat, _⟩ := names_ne
  rw [sessionPayload, issued]
  split
  · rw [fieldOf_setEntry_of_ne notExp]
  · rw [fieldOf_setEntry_of_ne notIat, fieldOf_setEntry_of_ne notExp]

theorem fieldOf_exp_sessionPayload :
    fieldOf "exp" (sessionPayload now session) = some (numberOf (expiryOf now)) := by
  rw [sessionPayload, issued]
  split
  · rw [fieldOf_setEntry_self]
  · rw [fieldOf_setEntry_of_ne names_ne.2.2, fieldOf_setEntry_self]

theorem claimHolds_exp {issuedAt : ClockTime} {seconds : Nat}
    (unexpired : seconds < expiryOf issuedAt.milliseconds) :
    claimHolds (some (numberOf (expiryOf issuedAt.milliseconds))) (·.isUntil seconds) =
      .ok false := by
  have valid := issuedAt.valid
  have small : expiryOf issuedAt.milliseconds < 2 ^ 53 := by
    rw [expiryOf]
    omega
  have positive : 0 < expiryOf issuedAt.milliseconds := by omega
  have later : ¬ ((expiryOf issuedAt.milliseconds : ℚ) ≤ (seconds : ℚ)) := by
    exact_mod_cast Nat.not_le.mpr unexpired
  rw [claimHolds, Runtime.truthy_numberOf small positive, if_pos rfl,
    Runtime.toNumber_numberOf small]
  exact congrArg Except.ok (decide_eq_false later)

/-- The session has none of the claims of the cookie, and none that holds it back. -/
structure Kept (session : JsonFields) (now : Nat) : Prop where
  exp : named "exp" ∉ session.map Prod.fst
  iat : named "iat" ∉ session.map Prod.fst
  nbf : claimHolds (fieldOf "nbf" session) (·.isAfter (now / 1000)) = .ok false

variable (hmac key) in
theorem jwtVerify_sessionToken (distinct : (JsonValue.object session).Distinct) (readAt : Nat)
    {issuedAt : ClockTime} (unexpired : readAt / 1000 < expiryOf issuedAt.milliseconds)
    (secret : String) :
    jwtVerify hmac readAt (sessionToken hmac issuedAt.milliseconds session key) secret =
      (claimHolds (fieldOf "nbf" session) (·.isAfter (readAt / 1000))).bind fun held =>
        if held then .ok false
        else if importable secret then
          .ok (hmac (utf8 key.toList) (utf8 (sessionText issuedAt.milliseconds session)) ==
            hmac (utf8 secret.toList) (utf8 (sessionText issuedAt.milliseconds session)))
        else .error () := by
  have object : (JsonValue.object (sessionPayload issuedAt.milliseconds session)).truthy = true :=
    rfl
  rw [jwtVerify, splitOn_sessionToken]
  dsimp only
  rw [jwtDecode_sessionToken distinct]
  simp only [bind, Except.bind, pure, Except.pure, object, Bool.not_true, Bool.false_eq_true,
    if_false, property?, fieldOf_nbf_sessionPayload, fieldOf_exp_sessionPayload,
    claimHolds_exp unexpired, utf8ToUint8Array_eq, base64UrlParse_base64UrlStringify]
  cases claimHolds (fieldOf "nbf" session) (·.isAfter (readAt / 1000)) with
  | error => rfl
  | ok held =>
      cases held with
      | true => rfl
      | false => rfl

theorem fieldOf_of_not_mem {name : String} {fields : JsonFields}
    (absent : named name ∉ fields.map Prod.fst) : fieldOf name fields = none := by
  rw [fieldOf, Option.map_eq_none_iff, List.find?_eq_none]
  intro field member same
  rw [decide_eq_true_eq] at same
  exact absent (same ▸ List.mem_map_of_mem member)

theorem withoutClaims_sessionPayload (kept : Kept session now) (issuedAt : Nat) :
    withoutClaims (sessionPayload issuedAt session) = session := by
  have stamped := setEntry_of_not_mem (numberOf (expiryOf issuedAt)) kept.exp
  have noIat : fieldOf "iat"
      (OrderedMap.setEntry (named "exp") (numberOf (expiryOf issuedAt)) session) = none := by
    rw [fieldOf_setEntry_of_ne names_ne.2.2.symm, fieldOf_of_not_mem kept.iat]
  have absent : named "iat" ∉
      (session ++ [(named "exp", numberOf (expiryOf issuedAt))]).map Prod.fst := by
    rw [List.map_append, List.mem_append, List.map_singleton, List.mem_singleton, not_or]
    exact ⟨kept.iat, names_ne.2.2.symm⟩
  have others : withoutClaims session = session := by
    refine List.filter_eq_self.mpr fun field member => ?_
    have notExp : field.1 ≠ named "exp" := fun same =>
      kept.exp (same ▸ List.mem_map_of_mem member)
    have notIat : field.1 ≠ named "iat" := fun same =>
      kept.iat (same ▸ List.mem_map_of_mem member)
    simp [notExp, notIat]
  rw [sessionPayload, issued, noIat, Option.any_none, if_neg Bool.noConfusion, stamped,
    setEntry_of_not_mem _ absent]
  rw [withoutClaims] at others ⊢
  rw [List.filter_append, List.filter_append, others]
  simp

theorem sessionOf_eq {cookie : List Char} {header : Option JsonValue} {payload : JsonValue}
    (decoded : jwtDecode cookie = .ok (header, some payload)) {secrets : List String}
    (verified : ∃ secret ∈ secrets, jwtVerify hmac now cookie secret = .ok true) :
    sessionOf hmac now cookie secrets = withoutClaims (propertiesOf payload) := by
  induction secrets with
  | nil => exact absurd verified (by simp)
  | cons secret rest ih =>
      rw [sessionOf, decoded]
      by_cases first : jwtVerify hmac now cookie secret = .ok true
      · rw [first]
      · obtain ⟨other, member, valid⟩ := verified
        have later : other ∈ rest := (List.mem_cons.mp member).resolve_left fun same =>
          first (same ▸ valid)
        rw [← ih ⟨other, later, valid⟩]
        split
        · next valid' same => exact absurd valid' first
        · rfl

theorem sessionOf_eq_nil {cookie : List Char} {secrets : List String}
    (rejected : ∀ secret ∈ secrets, jwtVerify hmac now cookie secret ≠ .ok true) :
    sessionOf hmac now cookie secrets = [] := by
  induction secrets with
  | nil => rfl
  | cons secret rest ih =>
      rw [sessionOf]
      split
      · next valid _ => exact absurd valid (rejected secret List.mem_cons_self)
      · exact ih fun other member => rejected other (List.mem_cons_of_mem _ member)

def cookiePair (value : List Char) : List Char := sessionCookieName.toList ++ '=' :: value

/-- A value that stands for itself in a header. -/
structure PlainCookie (value : List Char) : Prop where
  space : ∀ char ∈ value, isScriptSpace char = false
  semicolon : ';' ∉ value
  quote : '"' ∉ value
  escape : '%' ∉ value

theorem cookiesUpTo_nil (count : Nat) (known : OrderedMap (List Char) (List Char)) :
    cookiesUpTo count known [] = known := by
  cases count <;> rfl

theorem parseCookies_cookiePair {value : List Char} (plain : PlainCookie value) :
    (parseCookies (cookiePair value)).get? sessionCookieName.toList = some value := by
  have noEquals : ∀ char ∈ sessionCookieName.toList, decide (char ≠ '=') = true :=
    List.all_eq_true.mp (by decide)
  have name : trim (sessionCookieName.toList.rtakeWhile (· ≠ ';')) = sessionCookieName.toList := by
    decide
  have own : inheritedNames.contains (String.ofList sessionCookieName.toList) = false := by
    rw [String.ofList_toList]
    decide
  have before : (cookiePair value).takeWhile (· ≠ '=') = sessionCookieName.toList := by
    rw [cookiePair, List.takeWhile_append_of_pos noEquals,
      List.takeWhile_cons_of_neg (by decide), List.append_nil]
  have behind : (cookiePair value).dropWhile (· ≠ '=') = '=' :: value := by
    rw [cookiePair, List.dropWhile_append_of_pos noEquals, List.dropWhile_cons_of_neg (by decide)]
  have noEnd : ∀ char ∈ value, decide (char ≠ ';') = true := by
    intro char member
    rw [decide_eq_true_eq]
    rintro rfl
    exact plain.semicolon member
  have taken : value.takeWhile (· ≠ ';') = value := List.takeWhile_eq_self_iff.mpr noEnd
  have left : value.dropWhile (· ≠ ';') = [] := List.dropWhile_eq_nil_iff.mpr noEnd
  have unquotedSame : unquoted value = value := by
    rw [unquoted, if_neg]
    intro first
    exact plain.quote (List.mem_of_head? first)
  have decoded : tryDecode value = value := by
    rw [tryDecode, Runtime.decodeURIComponent_plain plain.escape, Option.getD_some]
  rw [parseCookies, cookiesUpTo, behind]
  dsimp only
  rw [before, name, taken, left, Runtime.trim_of_plain plain.space, unquotedSame, decoded, own,
    List.drop_nil, cookiesUpTo_nil, Bool.or_false]
  have new : (∅ : OrderedMap (List Char) (List Char)).contains sessionCookieName.toList = false := rfl
  rw [new, if_neg Bool.noConfusion, OrderedMap.get?_set_self]

theorem plainCookie_sessionToken : PlainCookie (sessionToken hmac now session key) := by
  have letters : Base64.letters.all fun char => !isScriptSpace (toUrlLetter char) &&
      !([';', '"', '%'].contains (toUrlLetter char)) := by decide +kernel
  have part (bytes : List UInt8) : ∀ char ∈ base64UrlStringify bytes,
      isScriptSpace char = false ∧ char ≠ ';' ∧ char ≠ '"' ∧ char ≠ '%' := by
    intro char member
    rw [base64UrlStringify_eq, List.mem_map] at member
    obtain ⟨letter, among, rfl⟩ := member
    have plain := List.all_eq_true.mp letters letter (Base64.mem_unpadded among)
    simpa using plain
  have all : ∀ char ∈ sessionToken hmac now session key,
      isScriptSpace char = false ∧ char ≠ ';' ∧ char ≠ '"' ∧ char ≠ '%' := by
    rw [sessionToken, sessionText, List.forall_mem_append, List.forall_mem_append,
      List.forall_mem_cons, List.forall_mem_cons]
    exact ⟨⟨part _, by decide, part _⟩, by decide, part _⟩
  refine ⟨fun char member => (all char member).1, fun member => ?_, fun member => ?_,
    fun member => ?_⟩
  · exact (all _ member).2.1 rfl
  · exact (all _ member).2.2.1 rfl
  · exact (all _ member).2.2.2 rfl

def Signed (hmac : Hmac) (secret : String) (cookie : List Char) : Prop :=
  ∃ header body signature, cookie.splitOn '.' = [header, body, signature] ∧
    base64UrlParse signature = some (hmac (utf8 secret.toList) (utf8 (header ++ '.' :: body)))

theorem signed_of_jwtVerify {cookie : List Char} {secret : String}
    (verified : jwtVerify hmac now cookie secret = .ok true) : Signed hmac secret cookie := by
  unfold jwtVerify at verified
  split at verified
  · next header body signature parts =>
      refine ⟨header, body, signature, parts, ?_⟩
      rcases decoded : jwtDecode cookie with _ | ⟨_, _ | payload⟩
      · rw [decoded] at verified
        cases verified
      · rw [decoded] at verified
        cases verified
      · rw [decoded] at verified
        simp only [bind, Except.bind, pure, Except.pure, utf8ToUint8Array_eq] at verified
        split at verified
        · cases verified
        · split at verified
          · cases verified
          · split at verified
            · cases verified
            · split at verified
              · cases verified
              · split at verified
                · cases verified
                · split at verified
                  · cases given : base64UrlParse signature with
                    | none =>
                        rw [given] at verified
                        cases verified
                    | some signature =>
                        rw [given] at verified
                        exact congrArg some (beq_iff_eq.mp (Except.ok.inj verified))
                  · cases verified
  · cases verified

theorem getSession_eq_nil {header : List Char} {secrets : List String}
    (unsigned : ∀ cookie ∈ (parseCookies header).get? sessionCookieName.toList,
      ∀ secret ∈ secrets, ¬ Signed hmac secret cookie) :
    getSession hmac now (some header) secrets = [] := by
  rw [getSession]
  cases found : (parseCookies header).get? sessionCookieName.toList with
  | none => rfl
  | some cookie =>
      have rejected : ∀ secret ∈ secrets, jwtVerify hmac now cookie secret ≠ .ok true :=
        fun secret member verified =>
          unsigned cookie found secret member (signed_of_jwtVerify verified)
      dsimp only
      rw [sessionOf_eq_nil rejected, ite_self]

theorem getSession_sessionToken {issuedAt readAt : Nat} {secrets : List String} :
    getSession hmac readAt (some (cookiePair (sessionToken hmac issuedAt session key))) secrets =
      sessionOf hmac readAt (sessionToken hmac issuedAt session key) secrets := by
  have dot : '.' ∈ sessionToken hmac issuedAt session key := by simp [sessionToken]
  have filled : (sessionToken hmac issuedAt session key = [] ||
      sessionToken hmac issuedAt session key = [Runtime.leftBrace, Runtime.rightBrace]) = false := by
    rw [Bool.or_eq_false_iff, decide_eq_false_iff_not, decide_eq_false_iff_not]
    constructor
    · intro empty
      rw [empty] at dot
      exact List.not_mem_nil dot
    · intro braces
      rw [braces] at dot
      exact absurd dot (by decide)
  rw [getSession, parseCookies_cookiePair plainCookie_sessionToken]
  dsimp only
  rw [filled, if_neg Bool.noConfusion]

theorem claim_not_mem_getSession {name : List UInt16}
    (claim : name = named "exp" ∨ name = named "iat") (header : Option (List Char))
    (secrets : List String) : name ∉ (getSession hmac now header secrets).map Prod.fst := by
  have stripped (fields : JsonFields) : name ∉ (withoutClaims fields).map Prod.fst := by
    intro own
    obtain ⟨field, among, rfl⟩ := List.mem_map.mp own
    have plain := (List.mem_filter.mp among).2
    rcases claim with same | same <;> simp [same] at plain
  have none (cookie : List Char) :
      name ∉ (sessionOf hmac now cookie secrets).map Prod.fst := by
    induction secrets with
    | nil => exact List.not_mem_nil
    | cons secret rest ih =>
        rw [sessionOf]
        split
        · exact stripped _
        · exact ih
  unfold getSession
  split
  · exact List.not_mem_nil
  · split
    · exact List.not_mem_nil
    · split
      · exact List.not_mem_nil
      · exact none _

/-- The session that was written is read again, and nothing of a cookie without a signature, just
if the session has neither of the claims of a cookie and is not held back. -/
theorem getSession_setSession_iff (hmac : Hmac) (issuedAt : ClockTime) (readAt : Nat)
    {session : JsonFields} (distinct : (JsonValue.object session).Distinct)
    {keys secrets : List String} {cookie : List Char}
    (written : setSession hmac issuedAt.milliseconds session keys = some cookie)
    (listed : ∀ key ∈ keys.head?, key ∈ secrets)
    (unexpired : readAt / 1000 < expiryOf issuedAt.milliseconds) :
    ((getSession hmac readAt (some (cookiePair cookie)) secrets).Perm session ∧
        ∀ header, (∀ forged ∈ (parseCookies header).get? sessionCookieName.toList,
          ∀ secret ∈ secrets, ¬ Signed hmac secret forged) →
            getSession hmac readAt (some header) secrets = []) ↔
      Kept session readAt := by
  obtain ⟨key, others, rfl, good, rfl⟩ := setSession_cases written
  have member : key ∈ secrets := listed key rfl
  have verdict := jwtVerify_sessionToken hmac key distinct readAt unexpired
  by_cases free : claimHolds (fieldOf "nbf" session) (·.isAfter (readAt / 1000)) = .ok false
  · have verified : jwtVerify hmac readAt
        (sessionToken hmac issuedAt.milliseconds session key) key = .ok true := by
      rw [verdict key, free, good]
      simp [Except.bind]
    constructor
    · intro kept
      have foreign {name : List UInt16} (claim : name = named "exp" ∨ name = named "iat") :
          name ∉ session.map Prod.fst := fun own =>
        claim_not_mem_getSession claim _ secrets ((kept.1.map Prod.fst).mem_iff.mpr own)
      exact ⟨foreign (.inl rfl), foreign (.inr rfl), free⟩
    · intro kept
      rw [getSession_sessionToken,
        sessionOf_eq (jwtDecode_sessionToken distinct) ⟨key, member, verified⟩, propertiesOf,
        withoutClaims_sessionPayload kept]
      exact ⟨List.Perm.refl session, fun _ => getSession_eq_nil⟩
  · have rejected : ∀ secret ∈ secrets, jwtVerify hmac readAt
        (sessionToken hmac issuedAt.milliseconds session key) secret ≠ .ok true := by
      intro secret _
      rw [verdict secret]
      cases held : claimHolds (fieldOf "nbf" session) (·.isAfter (readAt / 1000)) with
      | error => simp [Except.bind]
      | ok early =>
          cases early with
          | true => simp [Except.bind]
          | false => exact absurd held free
    rw [getSession_sessionToken, sessionOf_eq_nil rejected]
    constructor
    · intro kept
      rw [List.nil_perm.mp kept.1] at free
      exact absurd rfl free
    · exact fun kept => absurd kept.nbf free

def userSession : JsonFields := [(named "user", .string [0x37])]

theorem distinct_userSession : (JsonValue.object userSession).Distinct := by
  refine ⟨by decide, ?_⟩
  simp [userSession, Runtime.DistinctFields, JsonValue.Distinct]

def noon : ClockTime := ⟨1700000000000, by decide⟩

theorem getSession_setSession_user :
    (getSession (fun key message => (key ++ message).take 32) 1700000500000
      (some (cookiePair (sessionToken (fun key message => (key ++ message).take 32)
        1700000000000 userSession "k"))) ["j", "k"]).Perm userSession :=
  ((getSession_setSession_iff (fun key message => (key ++ message).take 32) noon 1700000500000
    distinct_userSession (setSession_eq (by decide) ["j"]) (by decide) (by decide)).mpr
    ⟨by decide, by decide, rfl⟩).1

/-- A session with a field of the name of a claim is not read as it was written. -/
theorem getSession_setSession_exp :
    ∃ cookie, setSession (fun key message => (key ++ message).take 32) 1700000000000
        [(named "exp", numberOf 1)] ["k"] = some cookie ∧
      1700000500000 / 1000 < expiryOf 1700000000000 ∧
      ¬ (getSession (fun key message => (key ++ message).take 32) 1700000500000
        (some (cookiePair cookie)) ["k"]).Perm [(named "exp", numberOf 1)] := by
  refine ⟨_, setSession_eq (by decide) [], by decide, fun same => ?_⟩
  exact claim_not_mem_getSession (.inl rfl) _ _
    ((same.map Prod.fst).mem_iff.mpr List.mem_cons_self)

end Houdini.Router
