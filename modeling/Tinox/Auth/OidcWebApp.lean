import Tinox.Auth.Claims
import Tinox.Data.Runs

/-!
# Login sessions

`OidcWebApp` keeps no sessions: what it knows is sealed in two cookies, the pending login and the
session, under one key.
-/

namespace Tinox.Auth

open Tinox.Runtime Runs JsonText

def isBlank (b : UInt8) : Bool :=
  b = 32 || b = 9 || b = 10 || b = 13

/-- `String.trim`. -/
def trim (s : CString) : CString :=
  ((s.dropWhile isBlank).reverse.dropWhile isBlank).reverse

/-- The loop of `OidcWebApp::readCookie`. -/
def readCookieLoop (name : CString) : List CString → CString
  | [] => []
  | part :: parts =>
      let part := trim part
      let eq := part.takeWhile (· != 61)
      if 0 < eq.length ∧ eq.length < part.length ∧ eq = name then part.drop (eq.length + 1)
      else readCookieLoop name parts

/-- `OidcWebApp::readCookie`, of the `Cookie` header. -/
def readCookie (cookieHeader name : CString) : CString :=
  if cookieHeader = [] then [] else readCookieLoop name (cookieHeader.splitOn 59)

/-- `sessionCookieName`. -/
def sessionCookieName : CString := literal "tinox_session"

/-- `pendingCookieName`. -/
def pendingCookieName : CString := literal "tinox_oidc_pending"

/-- The loop of `QueryString::parse`, for the value of one name. -/
def queryLoop (name : CString) (found : Option CString) (key value : CString) (inKey : Bool) :
    CString → Option CString
  | [] => if 0 < key.length ∧ key = name then some value else found
  | ch :: qs =>
      if ch = 38 then
        queryLoop name (if 0 < key.length ∧ key = name then some value else found) [] [] true qs
      else if ch = 61 ∧ inKey then queryLoop name found key value false qs
      else if inKey then queryLoop name found (key ++ [ch]) value inKey qs
      else queryLoop name found key (value ++ [ch]) inKey qs

/-- `QueryString::get`. -/
def queryGet (qs name : CString) : CString :=
  (queryLoop name none [] [] true qs).getD []

/-- For what a value was sealed. -/
inductive Purpose where
  | login (exp : Int64)
  | session (claims : Claims)

/-- A value that `Crypto::aesEncrypt` returned, and what it was given. -/
structure Sealed where
  value : CString
  json : CString
  purpose : Purpose

/-- All values that have been sealed, and the claims of the tokens that `OidcClient.exchangeCode`
has accepted. -/
structure World where
  issued : List Sealed
  accepted : List Claims

/-- `Crypto::aesDecrypt`: only a value that was sealed is opened. -/
def aesDecrypt (w : World) (value : CString) : Option CString :=
  (w.issued.find? fun item => item.value = value).map fun item => item.json

/-- `pendingJson` in `OidcWebApp.install`. -/
def pendingJson (state codeVerifier : CString) (exp : Int64) : CString :=
  literal "\x7b\"state\":\"" ++ state ++ literal "\",\"codeVerifier\":\"" ++ codeVerifier ++
    literal "\",\"exp\":" ++ printInteger exp ++ literal "\x7d"

/-- A request to one of the routes, with what comes from outside: the time, the values of random
bytes, and what the token endpoint makes of a code. -/
inductive Request where
  | login (now : Int64) (state codeVerifier : CString)
  | callback (now : Int64) (cookieHeader queryString : CString)
      (exchangeCode : CString → CString → Option Claims)
  | guarded (now : Int64) (cookieHeader : CString)

section Handlers

variable (atof : CString → UInt64) (printFloat : UInt64 → CString) (truncate : UInt64 → Int64)

/-- `OidcWebApp::unsealJson`, when it does not throw. -/
def UnsealsJson (w : World) (value : CString) (claims : Claims) : Prop :=
  ∃ json result, aesDecrypt w value = some json ∧ Parses atof json result ∧ claims = asTable result

/-- `now > claims["exp"].asInt()`. -/
def ExpiredAt (now : Int64) (exp : JsonValue) : Prop :=
  ∃ n, AsInt truncate exp n ∧ n < now

/-- `!(now > claims["exp"].asInt())`. -/
def CurrentAt (now : Int64) (exp : JsonValue) : Prop :=
  ∃ n, AsInt truncate exp n ∧ ¬ n < now

/-- The `/callback` route of `OidcWebApp.install`: the claims for which it starts a session. -/
inductive Callback (w : World) (now : Int64) (cookieHeader queryString : CString)
    (exchangeCode : CString → CString → Option Claims) : Option Claims → Prop where
  | noPending : readCookie cookieHeader pendingCookieName = [] →
      Callback w now cookieHeader queryString exchangeCode none
  | tampered : aesDecrypt w (readCookie cookieHeader pendingCookieName) = none →
      Callback w now cookieHeader queryString exchangeCode none
  | expired {pending : Claims} :
      UnsealsJson atof w (readCookie cookieHeader pendingCookieName) pending →
      (∀ exp, claim pending (literal "exp") = some exp → ExpiredAt truncate now exp) →
      Callback w now cookieHeader queryString exchangeCode none
  | mismatch {pending : Claims} :
      UnsealsJson atof w (readCookie cookieHeader pendingCookieName) pending →
      (∀ state, claim pending (literal "state") = some state →
        getString state ≠ queryGet queryString (literal "state")) →
      Callback w now cookieHeader queryString exchangeCode none
  | exchange {pending : Claims} {exp state : JsonValue} :
      readCookie cookieHeader pendingCookieName ≠ [] →
      UnsealsJson atof w (readCookie cookieHeader pendingCookieName) pending →
      claim pending (literal "exp") = some exp → CurrentAt truncate now exp →
      claim pending (literal "state") = some state →
      getString state = queryGet queryString (literal "state") →
      Callback w now cookieHeader queryString exchangeCode
        (exchangeCode (queryGet queryString (literal "code"))
          ((claim pending (literal "codeVerifier")).elim [] getString))

/-- `OidcWebApp.requireLogin`. -/
inductive RequireLogin (w : World) (now : Int64) (cookieHeader : CString) : Bool → Prop where
  | noSession : readCookie cookieHeader sessionCookieName = [] → RequireLogin w now cookieHeader false
  | tampered : aesDecrypt w (readCookie cookieHeader sessionCookieName) = none →
      RequireLogin w now cookieHeader false
  | expired {claims : Claims} {exp : JsonValue} :
      UnsealsJson atof w (readCookie cookieHeader sessionCookieName) claims →
      claim claims (literal "exp") = some exp → ExpiredAt truncate now exp →
      RequireLogin w now cookieHeader false
  | current {claims : Claims} :
      readCookie cookieHeader sessionCookieName ≠ [] →
      UnsealsJson atof w (readCookie cookieHeader sessionCookieName) claims →
      (∀ exp, claim claims (literal "exp") = some exp → CurrentAt truncate now exp) →
      RequireLogin w now cookieHeader true

/-- A value that `Crypto::aesEncrypt` can return: not empty, and not returned yet. -/
def Fresh (w : World) (value : CString) : Prop :=
  value ≠ [] ∧ ∀ item ∈ w.issued, item.value ≠ value

/-- A byte of what `Base64::encodeUrlBytes` returns. -/
def isUrlByte (b : UInt8) : Bool :=
  (48 ≤ b && b ≤ 57) || (65 ≤ b && b ≤ 90) || (97 ≤ b && b ≤ 122) || b = 45 || b = 95

/-- The routes, as far as they seal values. -/
inductive Step : World → Request → World → Prop where
  | login {w : World} {now : Int64} {state codeVerifier value : CString} :
      (∀ b ∈ state, isUrlByte b) → (∀ b ∈ codeVerifier, isUrlByte b) → Fresh w value →
      Step w (.login now state codeVerifier)
        { w with issued := w.issued ++
            [⟨value, pendingJson state codeVerifier (now + 300), .login (now + 300)⟩] }
  | refused {w : World} {now : Int64} {cookieHeader queryString : CString}
      {exchangeCode : CString → CString → Option Claims} :
      Callback atof truncate w now cookieHeader queryString exchangeCode none →
      Step w (.callback now cookieHeader queryString exchangeCode) w
  | session {w : World} {now : Int64} {cookieHeader queryString : CString}
      {exchangeCode : CString → CString → Option Claims} {claims : Claims} {json value : CString} :
      Callback atof truncate w now cookieHeader queryString exchangeCode (some claims) →
      Stringifies printFloat claims json → Fresh w value →
      Step w (.callback now cookieHeader queryString exchangeCode)
        ⟨w.issued ++ [⟨value, json, .session claims⟩], w.accepted ++ [claims]⟩
  | guarded {w : World} {now : Int64} {cookieHeader : CString} {isLoggedIn : Bool} :
      RequireLogin atof truncate w now cookieHeader isLoggedIn → Step w (.guarded now cookieHeader) w

end Handlers

theorem aesDecrypt_some {w : World} {value json : CString} (isOpened : aesDecrypt w value = some json) :
    ∃ item ∈ w.issued, item.value = value ∧ item.json = json := by
  obtain ⟨item, isFound, isJson⟩ := Option.map_eq_some_iff.mp isOpened
  have isSame := List.find?_some isFound
  exact ⟨item, List.mem_of_find?_eq_some isFound, of_decide_eq_true isSame, isJson⟩

theorem aesDecrypt_sealed {w : World} (distinct : (w.issued.map fun item => item.value).Nodup)
    {item : Sealed} (member : item ∈ w.issued) : aesDecrypt w item.value = some item.json := by
  cases isFound : w.issued.find? fun other => other.value = item.value with
  | none => exact absurd rfl (of_decide_eq_false (Bool.eq_false_iff.mpr (List.find?_eq_none.mp isFound item member)))
  | some other =>
      have isSame := List.find?_some isFound
      have isItem : other = item := List.inj_on_of_nodup_map distinct
        (List.mem_of_find?_eq_some isFound) member (of_decide_eq_true isSame)
      rw [aesDecrypt, isFound, isItem]
      rfl

set_option maxRecDepth 1024 in
theorem escaped_urlByte {b : UInt8} (isUrl : isUrlByte b) : escaped b = [b] := by
  have each : ∀ n : Fin 256, isUrlByte (UInt8.ofNat n) → escaped (UInt8.ofNat n) = [UInt8.ofNat n] := by
    decide
  have isByte := each ⟨b.toNat, b.toNat_lt⟩
  rw [UInt8.ofNat_toNat] at isByte
  exact isByte isUrl

theorem quoted_urlBytes {bytes : CString} (areUrlBytes : ∀ b ∈ bytes, isUrlByte b) :
    quoted bytes = literal "\"" ++ bytes ++ literal "\"" := by
  have isFlat : bytes.flatMap escaped = bytes := by
    induction bytes with
    | nil => rfl
    | cons b bytes ih =>
        rw [List.forall_mem_cons] at areUrlBytes
        rw [List.flatMap_cons, escaped_urlByte areUrlBytes.1, ih areUrlBytes.2]
        rfl
  rw [quoted, isFlat]
  rfl

/-- The members of a pending login. -/
def pendingWritten (state codeVerifier : CString) (exp : Int64) : Written :=
  .object [(literal "state", .string state), (literal "codeVerifier", .string codeVerifier),
    (literal "exp", .int exp)]

theorem pendingWritten_text {state codeVerifier : CString} (stateUrl : ∀ b ∈ state, isUrlByte b)
    (verifierUrl : ∀ b ∈ codeVerifier, isUrlByte b) (exp : Int64) :
    (pendingWritten state codeVerifier exp).text = pendingJson state codeVerifier exp := by
  have isState : quoted (literal "state") = literal "\"state\"" := by decide
  have isVerifier : quoted (literal "codeVerifier") = literal "\"codeVerifier\"" := by decide
  have isExp : quoted (literal "exp") = literal "\"exp\"" := by decide
  have first : literal "\x7b\"state\":\"" =
      '{'.toUInt8 :: literal "\"state\"" ++ ':'.toUInt8 :: literal "\"" := by decide
  have second : literal "\",\"codeVerifier\":\"" = literal "\"" ++
      ','.toUInt8 :: literal "\"codeVerifier\"" ++ ':'.toUInt8 :: literal "\"" := by decide
  have third : literal "\",\"exp\":" =
      literal "\"" ++ ','.toUInt8 :: literal "\"exp\"" ++ [':'.toUInt8] := by decide
  have last : literal "\x7d" = ['}'.toUInt8] := by decide
  rw [pendingJson, first, second, third, last]
  simp only [pendingWritten, Written.text, membersText, comma, quoted_urlBytes stateUrl,
    quoted_urlBytes verifierUrl, isState, isVerifier, isExp, if_true, Bool.false_eq_true, if_false,
    List.append_assoc, List.cons_append, List.nil_append, List.append_nil]

theorem pending_parses (atof : CString → UInt64) {state codeVerifier : CString}
    (stateUrl : ∀ b ∈ state, isUrlByte b) (verifierUrl : ∀ b ∈ codeVerifier, isUrlByte b)
    (exp : Int64) : ∃ result, Parses atof (pendingJson state codeVerifier exp) result ∧
      claim (asTable result) (literal "exp") = some (.int exp) := by
  obtain ⟨result, bound, isRead, denotes⟩ := readsAs_written atof (pendingWritten state codeVerifier exp)
  rw [pendingWritten_text stateUrl verifierUrl] at isRead
  refine ⟨result, ⟨bound, isRead⟩, ?_⟩
  have isMeant := denotes.means
  generalize isValue : (pendingWritten state codeVerifier exp).value = value at isMeant
  have isObject : value = .object (lastValue
      [(literal "state", .string state), (literal "codeVerifier", .string codeVerifier),
        (literal "exp", .int exp.toInt)]) := isValue.symm
  subst isObject
  cases isMeant with
  | @object m _ sameNames sameValues =>
      have isMember : lastValue [(literal "state", Value.string state),
          (literal "codeVerifier", .string codeVerifier), (literal "exp", .int exp.toInt)]
          (literal "exp") = some (.int exp.toInt) := rfl
      have isSome := sameNames (literal "exp")
      rw [isMember] at isSome
      obtain ⟨found, isFound⟩ := Option.isSome_iff_exists.mp isSome
      have isNumber := sameValues _ _ _ isFound isMember
      rw [asTable, claim, isFound]
      generalize isInt : exp.toInt = n at isNumber
      cases isNumber with
      | int found => rw [Int64.toInt_inj.mp isInt]

section Sessions

variable (atof : CString → UInt64) (printFloat : UInt64 → CString) (truncate : UInt64 → Int64)

/-- Claims whose expiry, if they have one, is a number, and is the same number after the claims
have been written and read. -/
structure KeepsExpiry (claims : Claims) : Prop where
  isNumber : ∀ exp, claim claims (literal "exp") = some exp → (number truncate exp).isSome
  isKept : ∀ json result, Stringifies printFloat claims json → Parses atof json result →
    (claim (asTable result) (literal "exp")).map (number truncate) =
      (claim claims (literal "exp")).map (number truncate)

/-- The tokens of a request have such claims. -/
def KeepsClaims : Request → Prop
  | .callback _ _ _ exchangeCode => ∀ code codeVerifier claims,
      exchangeCode code codeVerifier = some claims → KeepsExpiry atof printFloat truncate claims
  | _ => True

/-- Nothing is sealed at the start. -/
def AtStart (w : World) : Prop :=
  w.issued = [] ∧ w.accepted = []

/-- The claims have no expiry, or one that is not over. -/
def Unexpired (now : Int64) (claims : Claims) : Prop :=
  ∀ exp, claim claims (literal "exp") = some exp → ∃ n, number truncate exp = some n ∧ ¬ n < now

/-- The session cookie was sealed by `/callback` from claims that were accepted and have not
expired. -/
def IsSession (w : World) (now : Int64) (cookieHeader : CString) : Prop :=
  ∃ item ∈ w.issued, item.value = readCookie cookieHeader sessionCookieName ∧
    ∃ claims ∈ w.accepted, item.purpose = .session claims ∧
      Stringifies printFloat claims item.json ∧ Unexpired truncate now claims

/-- The session cookie is a pending login that has not expired. -/
def PresentsPending (w : World) (now : Int64) (cookieHeader : CString) : Prop :=
  ∃ item ∈ w.issued, item.value = readCookie cookieHeader sessionCookieName ∧
    ∃ exp, item.purpose = .login exp ∧ ¬ exp < now

/-- What holds of the values that have been sealed. -/
structure Consistent (w : World) : Prop where
  distinct : (w.issued.map fun item => item.value).Nodup
  notEmpty : ∀ item ∈ w.issued, item.value ≠ []
  logins : ∀ item ∈ w.issued, ∀ exp, item.purpose = .login exp →
    ∃ result, Parses atof item.json result ∧
      claim (asTable result) (literal "exp") = some (.int exp)
  sessions : ∀ item ∈ w.issued, ∀ claims, item.purpose = .session claims →
    claims ∈ w.accepted ∧ Stringifies printFloat claims item.json ∧
      KeepsExpiry atof printFloat truncate claims

variable {atof printFloat truncate}

theorem consistent_start {w : World} (atStart : AtStart w) : Consistent atof printFloat truncate w := by
  rcases w with ⟨issued, accepted⟩
  obtain ⟨rfl, rfl⟩ := atStart
  constructor <;> simp

theorem Consistent.seal {w : World} (consistent : Consistent atof printFloat truncate w)
    {item : Sealed} (fresh : Fresh w item.value) (more : List Claims)
    (isLogin : ∀ exp, item.purpose = .login exp → ∃ result, Parses atof item.json result ∧
      claim (asTable result) (literal "exp") = some (.int exp))
    (isSession : ∀ claims, item.purpose = .session claims → claims ∈ w.accepted ++ more ∧
      Stringifies printFloat claims item.json ∧ KeepsExpiry atof printFloat truncate claims) :
    Consistent atof printFloat truncate ⟨w.issued ++ [item], w.accepted ++ more⟩ where
  distinct := by
    rw [List.map_append, List.map_singleton, List.nodup_append]
    refine ⟨consistent.distinct, List.nodup_singleton _, ?_⟩
    intro value member other isNew same
    obtain ⟨old, isOld, rfl⟩ := List.mem_map.mp member
    exact fresh.2 old isOld (same.trans (List.mem_singleton.mp isNew))
  notEmpty := by
    rw [List.forall_mem_append, List.forall_mem_singleton]
    exact ⟨consistent.notEmpty, fresh.1⟩
  logins := by
    rw [List.forall_mem_append, List.forall_mem_singleton]
    exact ⟨consistent.logins, isLogin⟩
  sessions := by
    rw [List.forall_mem_append, List.forall_mem_singleton]
    refine ⟨fun old isOld claims isPurpose => ?_, isSession⟩
    obtain ⟨isAccepted, rest⟩ := consistent.sessions old isOld claims isPurpose
    exact ⟨List.mem_append_left _ isAccepted, rest⟩

theorem Callback.exchanged {w : World} {now : Int64} {cookieHeader queryString : CString}
    {exchangeCode : CString → CString → Option Claims} {tokens : Option Claims}
    (callback : Callback atof truncate w now cookieHeader queryString exchangeCode tokens)
    {claims : Claims} (isTokens : tokens = some claims) :
    ∃ code codeVerifier, exchangeCode code codeVerifier = some claims := by
  cases callback with
  | exchange => exact ⟨_, _, isTokens⟩
  | _ => exact nomatch isTokens

theorem consistent_step {w : World} {request : Request} {w' : World}
    (consistent : Consistent atof printFloat truncate w)
    (isStep : Step atof printFloat truncate w request w')
    (keeps : KeepsClaims atof printFloat truncate request) :
    Consistent atof printFloat truncate w' := by
  cases isStep with
  | @login now state codeVerifier value stateUrl verifierUrl fresh =>
      have isSealed := @Consistent.seal _ _ _ _ consistent
        ⟨value, pendingJson state codeVerifier (now + 300), .login (now + 300)⟩ fresh []
        (fun exp isExp => by
          obtain rfl := Purpose.login.inj isExp
          exact pending_parses atof stateUrl verifierUrl (now + 300))
        (fun claims isSession => nomatch isSession)
      rw [List.append_nil] at isSealed
      exact isSealed
  | refused | guarded => exact consistent
  | @session _ _ _ _ claims json value callback isWritten fresh =>
      obtain ⟨code, codeVerifier, isExchanged⟩ := callback.exchanged rfl
      exact @Consistent.seal _ _ _ _ consistent ⟨value, json, .session claims⟩ fresh [claims]
        (fun exp isLogin => nomatch isLogin)
        (fun other isSession => by
          obtain rfl := Purpose.session.inj isSession
          exact ⟨List.mem_append_right _ List.mem_cons_self, isWritten,
            keeps code codeVerifier claims isExchanged⟩)

theorem requireLogin_pending {w : World} (consistent : Consistent atof printFloat truncate w)
    {now : Int64} {cookieHeader : CString} (presents : PresentsPending w now cookieHeader) :
    RequireLogin atof truncate w now cookieHeader true := by
  obtain ⟨item, member, isValue, exp, isLogin, isCurrent⟩ := presents
  obtain ⟨result, isRead, isExp⟩ := consistent.logins item member exp isLogin
  have isOpened := aesDecrypt_sealed consistent.distinct member
  rw [isValue] at isOpened
  apply RequireLogin.current (isValue ▸ consistent.notEmpty item member) ⟨_, _, isOpened, isRead, rfl⟩
  intro found isFound
  rw [isExp] at isFound
  obtain rfl := Option.some.inj isFound
  exact ⟨exp, .int exp, isCurrent⟩

theorem isSession_of_requireLogin {w : World} (consistent : Consistent atof printFloat truncate w)
    {now : Int64} {cookieHeader : CString} (noPending : ¬ PresentsPending w now cookieHeader)
    (isLoggedIn : RequireLogin atof truncate w now cookieHeader true) :
    IsSession printFloat truncate w now cookieHeader := by
  cases isLoggedIn with
  | @current claims _ isUnsealed isCurrent =>
      obtain ⟨json, result, isOpened, isRead, rfl⟩ := isUnsealed
      obtain ⟨item, member, isValue, rfl⟩ := aesDecrypt_some isOpened
      cases isPurpose : item.purpose with
      | login exp =>
          obtain ⟨other, isOther, isExp⟩ := consistent.logins item member exp isPurpose
          obtain rfl := isRead.unique isOther
          obtain ⟨n, readsExp, notOver⟩ := isCurrent _ isExp
          cases readsExp
          exact absurd ⟨item, member, isValue, exp, isPurpose, notOver⟩ noPending
      | session claims =>
          obtain ⟨isAccepted, isWritten, keeps⟩ := consistent.sessions item member claims isPurpose
          refine ⟨item, member, isValue, claims, isAccepted, isPurpose, isWritten, ?_⟩
          intro exp isExp
          have isKept := keeps.isKept _ _ isWritten isRead
          obtain ⟨n, isNumber⟩ := Option.isSome_iff_exists.mp (keeps.isNumber exp isExp)
          rw [isExp, Option.map_some, isNumber] at isKept
          obtain ⟨found, isFound, sameNumber⟩ := Option.map_eq_some_iff.mp isKept
          obtain ⟨m, readsExp, notOver⟩ := isCurrent found isFound
          obtain rfl := readsExp.of_number truncate sameNumber
          exact ⟨m, isNumber, notOver⟩

/-- In every run in which the claims of the tokens keep their expiry, a request is let in only with
a session exactly if its session cookie is no pending login. -/
theorem requireLogin_isSession_iff {w : World}
    (reached : Reached AtStart (fun w request w' => Step atof printFloat truncate w request w' ∧
      KeepsClaims atof printFloat truncate request) w) (now : Int64) (cookieHeader : CString) :
    (RequireLogin atof truncate w now cookieHeader true → IsSession printFloat truncate w now cookieHeader) ↔
      ¬ PresentsPending w now cookieHeader := by
  have consistent : Consistent atof printFloat truncate w :=
    reached.invariant (fun _ atStart => consistent_start atStart)
      (fun _ _ _ consistent isStep => consistent_step consistent isStep.1 isStep.2)
  constructor
  · intro onlySessions presents
    obtain ⟨item, member, isValue, claims, _, isPurpose, _⟩ :=
      onlySessions (requireLogin_pending consistent presents)
    obtain ⟨pending, isPending, sameValue, exp, isLogin, _⟩ := presents
    obtain rfl := List.inj_on_of_nodup_map consistent.distinct isPending member
      (sameValue.trans isValue.symm)
    rw [isLogin] at isPurpose
    exact nomatch isPurpose
  · exact fun noPending isLoggedIn => isSession_of_requireLogin consistent noPending isLoggedIn

end Sessions

theorem urlByte_singleton {b : UInt8} (isUrl : isUrlByte b = true) : ∀ c ∈ [b], isUrlByte c = true := by
  intro c member
  rw [List.mem_singleton.mp member]
  exact isUrl

/-- What a server has sealed after one login. -/
def afterLogin : World :=
  ⟨[⟨[97], pendingJson [115] [118] 300, .login 300⟩], []⟩

theorem reached_afterLogin : Reached AtStart
    (fun w request w' => Step (fun _ => 0) (fun _ => []) (fun _ => 0) w request w' ∧
      KeepsClaims (fun _ => 0) (fun _ => []) (fun _ => 0) request) afterLogin := by
  have fresh : Fresh ⟨[], []⟩ [97] := ⟨by decide, fun item member => absurd member List.not_mem_nil⟩
  have isLogin := @Step.login (fun _ => 0) (fun _ => []) (fun _ => 0) ⟨[], []⟩ 0 [115] [118] [97]
    (urlByte_singleton (by decide)) (urlByte_singleton (by decide)) fresh
  exact .step (.start ⟨rfl, rfl⟩) ⟨isLogin, trivial⟩

theorem requireLogin_isSession_iff_afterLogin :
    (RequireLogin (fun _ => 0) (fun _ => 0) afterLogin 0 (literal "tinox_session=b") true →
      IsSession (fun _ => []) (fun _ => 0) afterLogin 0 (literal "tinox_session=b")) ↔
      ¬ PresentsPending afterLogin 0 (literal "tinox_session=b") :=
  requireLogin_isSession_iff reached_afterLogin 0 (literal "tinox_session=b")

/-- The pending login of `/login` is let in as a session. -/
theorem pending_isLoggedIn :
    Reached AtStart (fun w request w' => Step (fun _ => 0) (fun _ => []) (fun _ => 0) w request w' ∧
        KeepsClaims (fun _ => 0) (fun _ => []) (fun _ => 0) request) afterLogin ∧
      RequireLogin (fun _ => 0) (fun _ => 0) afterLogin 0 (literal "a=b; tinox_session=a") true ∧
      ¬ IsSession (fun _ => []) (fun _ => 0) afterLogin 0 (literal "a=b; tinox_session=a") := by
  have isCookie : readCookie (literal "a=b; tinox_session=a") sessionCookieName = [97] := by
    decide
  obtain ⟨result, isRead, isExp⟩ := pending_parses (fun _ => 0)
    (urlByte_singleton (b := 115) (by decide)) (urlByte_singleton (b := 118) (by decide)) 300
  refine ⟨reached_afterLogin, ?_, ?_⟩
  · apply RequireLogin.current
    · rw [isCookie]
      exact List.cons_ne_nil _ _
    · exact ⟨_, result, isCookie ▸ rfl, isRead, rfl⟩
    · intro exp isFound
      rw [isExp] at isFound
      obtain rfl := Option.some.inj isFound
      exact ⟨300, .int 300, by decide⟩
  · rintro ⟨item, member, -, claims, isAccepted, -⟩
    exact absurd isAccepted List.not_mem_nil

end Tinox.Auth
