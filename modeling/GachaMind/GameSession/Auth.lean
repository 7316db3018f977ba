import GachaMind.Js.Uri
import GachaMind.GameSession.Server

/-!
# Who connects (apps/game-session/src/auth.ts)

`identifyConnection` reads the session cookie out of the `Cookie` header of the handshake and
verifies its token. `jwtVerify` of the library is a parameter: for a token it is fulfilled with
a payload or rejected (`none`). The cookie is decoded outside the `try`, so the promise is
rejected exactly when the text of the session cookie is not well formed.
-/

namespace GachaMind.GameSession
open GachaMind.Js GachaMind.Shared

def SESSION_COOKIE_NAME : JsString := utf16 "gachamind_session"

def semicolon : CodeUnit := 0x3B
def equalsSign : CodeUnit := 0x3D

/-- `const [key, ...rest] = part.trim().split("=")`, with `rest.join("=")`. -/
def splitPair (part : JsString) : JsString × JsString :=
  match (trim part).splitOn equalsSign with
  | [] => ([], [])
  | key :: rest => (key, [equalsSign].intercalate rest)

/-- A `URIError` in an `async` function rejects its promise. -/
def decodeValue (value : JsString) : Except JsError (Option JsString) :=
  match decodeURIComponent value with
  | none => .error .rejected
  | some text => .ok (some text)

def readParts (name : JsString) : List JsString → Except JsError (Option JsString)
  | [] => .ok none
  | part :: parts =>
    if (splitPair part).1 = name then decodeValue (splitPair part).2 else readParts name parts

def readCookie (header : Option JsString) (name : JsString) : Except JsError (Option JsString) :=
  match header with
  | none => .ok none
  | some [] => .ok none
  | some header => readParts name (header.splitOn semicolon)

/-- The claims of a verified token. -/
abbrev JWTPayload := List (JsString × Json)

def isTruthy : Json → Bool
  | .null => false
  | .bool b => b
  | .num .nan => false
  | .num (.finite q) => q ≠ 0
  | .num _ => true
  | .str s => !s.isEmpty
  | .arr _ => true
  | .obj _ => true

/-- What `identifyConnection` returns; only the nickname has been checked to be a string. -/
structure TokenIdentity where
  userId : Json
  username : Option Json
  nickname : JsString

/-- The identity in a payload that carries a `sub` and a nickname. -/
def payloadIdentity (payload : JWTPayload) : Option TokenIdentity :=
  match lookupField (utf16 "sub") payload, lookupField (utf16 "nickname") payload with
  | some sub, some (.str nickname) =>
    if isTruthy sub then some ⟨sub, lookupField (utf16 "username") payload, nickname⟩ else none
  | _, _ => none

def identifyConnection (jwtVerify : JsString → Option JWTPayload) (cookie : Option JsString) :
    Except JsError (Option TokenIdentity) := do
  match ← readCookie cookie SESSION_COOKIE_NAME with
  | none => return none
  | some [] => return none
  | some token => return (jwtVerify token).bind payloadIdentity

/-! ### The session cookie -/

/-- The part of a header is the cookie `name` with the text `value`. -/
def IsPair (part name value : JsString) : Prop :=
  equalsSign ∉ name ∧
    (trim part = name ++ equalsSign :: value ∨ trim part = name ∧ value = [])

/-- The first cookie of this name. -/
inductive CookieValue (name : JsString) : List JsString → JsString → Prop
  | here {part value : JsString} {parts : List JsString} (h : IsPair part name value) :
      CookieValue name (part :: parts) value
  | later {part value : JsString} {parts : List JsString} (h : ∀ v, ¬ IsPair part name v)
      (hs : CookieValue name parts value) : CookieValue name (part :: parts) value

/-- The text of the session cookie in a `Cookie` header. -/
def SessionCookie (cookie : Option JsString) (value : JsString) : Prop :=
  ∃ header, cookie = some header ∧
    CookieValue SESSION_COOKIE_NAME (header.splitOn semicolon) value

theorem splitPair_isPair (part : JsString) :
    IsPair part (splitPair part).1 (splitPair part).2 := by
  unfold IsPair splitPair
  by_cases h : equalsSign ∈ trim part
  · obtain ⟨key, value, ht, hkey⟩ := List.eq_append_cons_of_mem h
    rw [ht, List.splitOn_append_cons_self_of_not_mem hkey]
    exact ⟨hkey, .inl (by simp)⟩
  · rw [List.splitOn_eq_singleton h]
    exact ⟨h, .inr ⟨rfl, rfl⟩⟩

theorem isPair_iff {part name value : JsString} :
    IsPair part name value ↔ splitPair part = (name, value) := by
  constructor
  · intro h
    obtain ⟨hname, ht | ⟨ht, rfl⟩⟩ := h
    · rw [splitPair, ht, List.splitOn_append_cons_self_of_not_mem hname]
      simp
    · rw [splitPair, ht, List.splitOn_eq_singleton hname]
      rfl
  · intro h
    have hpair := splitPair_isPair part
    rwa [h] at hpair

theorem not_isPair {part name : JsString} (h : (splitPair part).1 ≠ name) (value : JsString) :
    ¬ IsPair part name value :=
  fun hp => h (congrArg Prod.fst (isPair_iff.mp hp))

theorem readParts_ok {name : JsString} {parts : List JsString} {value : JsString}
    (h : CookieValue name parts value) : readParts name parts = decodeValue value := by
  induction h with
  | here h => rw [readParts, isPair_iff.mp h, if_pos rfl]
  | @later part _ _ h _ ih =>
    have hne : (splitPair part).1 ≠ name := fun he => h _ (he ▸ splitPair_isPair part)
    rw [readParts, if_neg hne, ih]

theorem readParts_none {name : JsString} {parts : List JsString}
    (h : ∀ value, ¬ CookieValue name parts value) : readParts name parts = .ok none := by
  induction parts with
  | nil => rfl
  | cons part parts ih =>
    have hne : (splitPair part).1 ≠ name :=
      fun he => h _ (.here (he ▸ splitPair_isPair part))
    rw [readParts, if_neg hne]
    exact ih fun value hv => h value (.later (not_isPair hne) hv)

theorem readCookie_session {cookie : Option JsString} {value : JsString}
    (h : SessionCookie cookie value) :
    readCookie cookie SESSION_COOKIE_NAME = decodeValue value := by
  obtain ⟨header, rfl, hv⟩ := h
  cases header with
  | nil =>
    cases hv with
    | here hp => exact absurd hp (not_isPair (by decide) _)
    | later _ hs => cases hs
  | cons c header => exact readParts_ok hv

theorem readCookie_guest {cookie : Option JsString} (h : ∀ value, ¬ SessionCookie cookie value) :
    readCookie cookie SESSION_COOKIE_NAME = .ok none := by
  match cookie with
  | none => rfl
  | some [] => rfl
  | some (c :: header) => exact readParts_none fun value hv => h value ⟨_, rfl, hv⟩

/-! ### The token -/

/-- The payload carries a `sub` and a nickname that is a string, and they are those of the
identity. -/
structure Carries (payload : JWTPayload) (identity : TokenIdentity) : Prop where
  sub : lookupField (utf16 "sub") payload = some identity.userId
  sub_truthy : isTruthy identity.userId = true
  nickname : lookupField (utf16 "nickname") payload = some (.str identity.nickname)
  username : lookupField (utf16 "username") payload = identity.username

theorem payloadIdentity_eq_some {payload : JWTPayload} {identity : TokenIdentity} :
    payloadIdentity payload = some identity ↔ Carries payload identity := by
  constructor
  · intro h
    unfold payloadIdentity at h
    split at h
    · split_ifs at h with ht
      cases h
      exact ⟨by assumption, ht, by assumption, rfl⟩
    · cases h
  · intro h
    rw [payloadIdentity, h.sub, h.nickname, h.username]
    simp [h.sub_truthy]

/-- The session cookie holds a token that verifies and names `identity`. -/
def SessionIdentity (jwtVerify : JsString → Option JWTPayload) (cookie : Option JsString)
    (identity : TokenIdentity) : Prop :=
  ∃ value token payload, SessionCookie cookie value ∧ UriDecodes value token ∧
    jwtVerify token = some payload ∧ Carries payload identity

section
variable {jwtVerify : JsString → Option JWTPayload} {cookie : Option JsString}

theorem identifyConnection_of_token (hempty : jwtVerify [] = none) {token : JsString}
    (h : readCookie cookie SESSION_COOKIE_NAME = .ok (some token)) :
    identifyConnection jwtVerify cookie = .ok ((jwtVerify token).bind payloadIdentity) := by
  rw [identifyConnection, h]
  cases token with
  | nil =>
    rw [hempty]
    rfl
  | cons c token => rfl

theorem CookieValue.unique {name : JsString} {parts : List JsString} {value value' : JsString}
    (h : CookieValue name parts value) (h' : CookieValue name parts value') : value = value' := by
  induction h with
  | here hp =>
    cases h' with
    | here hp' => exact congrArg Prod.snd ((isPair_iff.mp hp).symm.trans (isPair_iff.mp hp'))
    | later hno _ => exact absurd hp (hno _)
  | later hno _ ih =>
    cases h' with
    | here hp' => exact absurd hp' (hno _)
    | later _ hs' => exact ih hs'

theorem SessionCookie.unique {value value' : JsString} (h : SessionCookie cookie value)
    (h' : SessionCookie cookie value') : value = value' := by
  obtain ⟨header, rfl, hv⟩ := h
  obtain ⟨_, ⟨⟩, hv'⟩ := h'
  exact hv.unique hv'

/-- The outcome is the identity of the token in the session cookie, and none without one. -/
def Identifies (jwtVerify : JsString → Option JWTPayload) (cookie : Option JsString)
    (outcome : Option TokenIdentity) : Prop :=
  ∀ identity, outcome = some identity ↔ SessionIdentity jwtVerify cookie identity

theorem identifies_cookie {value token : JsString} (h : SessionCookie cookie value)
    (ht : UriDecodes value token) :
    Identifies jwtVerify cookie ((jwtVerify token).bind payloadIdentity) := by
  intro identity
  rw [Option.bind_eq_some_iff]
  constructor
  · intro hp
    obtain ⟨payload, hv, hp⟩ := hp
    exact ⟨value, token, payload, h, ht, hv, payloadIdentity_eq_some.mp hp⟩
  · intro hs
    obtain ⟨value', token', payload, h', ht', hv, hp⟩ := hs
    obtain rfl := h.unique h'
    have htoken :=
      (decodeURIComponent_eq_some.mpr ht).symm.trans (decodeURIComponent_eq_some.mpr ht')
    obtain rfl := Option.some.inj htoken
    exact ⟨payload, hv, payloadIdentity_eq_some.mpr hp⟩

theorem identifies_guest (h : ∀ value, ¬ SessionCookie cookie value) :
    Identifies jwtVerify cookie none := by
  intro identity
  constructor
  · intro hn
    cases hn
  · intro hs
    obtain ⟨value, token, payload, hv, -⟩ := hs
    exact absurd hv (h value)

end

/-- The promise is fulfilled, with the identity of the session token if there is one, exactly
when the text of the session cookie, if there is one, is well formed. -/
theorem identify_iff (jwtVerify : JsString → Option JWTPayload) (hempty : jwtVerify [] = none)
    (cookie : Option JsString) :
    (∃ outcome, identifyConnection jwtVerify cookie = .ok outcome ∧
      Identifies jwtVerify cookie outcome) ↔
      ∀ value, SessionCookie cookie value → ∃ token, UriDecodes value token := by
  constructor
  · intro h value hv
    obtain ⟨outcome, ho, -⟩ := h
    cases hd : decodeURIComponent value with
    | none =>
      rw [identifyConnection, readCookie_session hv, decodeValue, hd] at ho
      cases ho
    | some token => exact ⟨token, decodeURIComponent_eq_some.mp hd⟩
  · intro h
    by_cases hc : ∃ value, SessionCookie cookie value
    · obtain ⟨value, hv⟩ := hc
      obtain ⟨token, ht⟩ := h value hv
      have hread : readCookie cookie SESSION_COOKIE_NAME = .ok (some token) := by
        rw [readCookie_session hv, decodeValue, decodeURIComponent_eq_some.mpr ht]
      exact ⟨_, identifyConnection_of_token hempty hread, identifies_cookie hv ht⟩
    · have hguest : ∀ value, ¬ SessionCookie cookie value := not_exists.mp hc
      refine ⟨none, ?_, identifies_guest hguest⟩
      rw [identifyConnection, readCookie_guest hguest]
      rfl

/-- A verifier that knows one token. -/
def oneToken (token : JsString) : Option JWTPayload :=
  if token = utf16 "x.y.z" then
    some [(utf16 "sub", .str (utf16 "u1")), (utf16 "nickname", .str (utf16 "a"))]
  else none

def sessionHeader : JsString := utf16 "theme=100%; gachamind_session=x.y%2Ez"

theorem sessionHeader_identified : ∃ outcome,
    identifyConnection oneToken (some sessionHeader) = .ok outcome ∧
      Identifies oneToken (some sessionHeader) outcome := by
  refine (identify_iff oneToken (by decide) (some sessionHeader)).mpr fun value hv => ?_
  have hsession : SessionCookie (some sessionHeader) (utf16 "x.y%2Ez") :=
    ⟨_, rfl, .later (not_isPair (by decide +kernel)) (.here (isPair_iff.mpr (by decide +kernel)))⟩
  obtain rfl := hsession.unique hv
  exact ⟨utf16 "x.y.z", decodeURIComponent_eq_some.mp (by decide +kernel)⟩

/-- A lone `%` in the session cookie. -/
theorem percentCookie_rejected :
    identifyConnection oneToken (some (utf16 "gachamind_session=%")) = .error .rejected := by
  have hread : readCookie (some (utf16 "gachamind_session=%")) SESSION_COOKIE_NAME =
      .error .rejected := by decide +kernel
  rw [identifyConnection, hread]
  rfl

end GachaMind.GameSession
