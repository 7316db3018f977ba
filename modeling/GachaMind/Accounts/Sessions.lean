import GachaMind.Lib.Strip
import GachaMind.GameSession.Auth
import GachaMind.Accounts.Passwords

/-!
# Sessions (apps/user/src/auth, apps/web/src/features/auth/server.ts)

The user service signs a token in answer to `signup` and `login`. The web server puts it into a
cookie, and the browser sends it with every request and with the handshake of a game-session, which
verifies the token on its own. The JWT libraries are a parameter, and the clocks of the services
and of the browsers agree. An answer may reach any browser, and more than once: cookies are copied.
-/

namespace GachaMind.Accounts
open GachaMind.Js GachaMind.Shared GachaMind.User GachaMind.GameSession KeyedTable Machine

def SESSION_TTL_SECONDS : ℕ := 7 * 24 * 60 * 60

/-! ### Tokens -/

/-- `signAsync` for a payload with its instants, and the verification at an instant in seconds. -/
class Jwt where
  sign : JWTPayload → JsString
  verify : ℕ → JsString → Option JWTPayload

/-- The characters of the compact form. -/
def isCompactChar (c : CodeUnit) : Bool :=
  (0x41 ≤ c && c ≤ 0x5A) || (0x61 ≤ c && c ≤ 0x7A) || (0x30 ≤ c && c ≤ 0x39) || c == 0x2D ||
    c == 0x5F || c == 0x2E

/-- A token verifies until it runs out. -/
structure Jwt.Lawful [Jwt] : Prop where
  verifies : ∀ (user : User) (iat exp now : ℕ), verify now (sign (issueToken user iat exp)) =
    if now < exp then some (issueToken user iat exp) else none
  nonempty : ∀ payload, sign payload ≠ []
  compact : ∀ payload, ∀ c ∈ sign payload, isCompactChar c = true

/-! ### What the services make of a token -/

/-- The account that `JwtStrategy.validate` reads from a payload; JSON leaves absent fields out. -/
structure AuthUser where
  id : Option Json
  username : Option Json
  nickname : Option Json

def validate (payload : JWTPayload) : AuthUser where
  id := lookupField (utf16 "sub") payload
  username := lookupField (utf16 "username") payload
  nickname := lookupField (utf16 "nickname") payload

/-- The answers of `GET /api/auth/me`. -/
inductive MeAnswer
  | user (user : AuthUser)
  | signInNeeded
  | sessionExpired

def me [Jwt] (seconds : ℕ) (token : Option JsString) : MeAnswer :=
  match token with
  | none => .signInNeeded
  | some [] => .signInNeeded
  | some token =>
    match Jwt.verify seconds token with
    | none => .sessionExpired
    | some payload => .user (validate payload)

/-- The header of a browser that has this session cookie. -/
def cookieHeader (token : Option JsString) : Option JsString :=
  token.map fun token => SESSION_COOKIE_NAME ++ equalsSign :: token

/-! ### The cookie of a token -/

theorem isCompactChar_bounds {c : CodeUnit} (h : isCompactChar c = true) :
    c ≠ percent ∧ c ≠ semicolon ∧ isWhiteSpace c = false := by
  have hbounds : c.toNat < 0x7B ∧ 0x2D ≤ c.toNat ∧ c.toNat ≠ 0x3B := by
    simp only [isCompactChar, Bool.or_eq_true, Bool.and_eq_true, decide_eq_true_eq, beq_iff_eq,
      UInt16.le_iff_toNat_le, UInt16.reduceToNat, ← UInt16.toNat_inj] at h
    omega
  have hall : ∀ n < 0x7B, 0x2D ≤ n ∧ n ≠ 0x3B → UInt16.ofNat n ≠ percent ∧
      UInt16.ofNat n ≠ semicolon ∧ isWhiteSpace (UInt16.ofNat n) = false := by decide +kernel
  have hc := hall c.toNat hbounds.1 hbounds.2
  rwa [UInt16.ofNat_toNat] at hc

theorem uriDecodes_compact {token : JsString} (h : ∀ c ∈ token, isCompactChar c = true) :
    UriDecodes token token := by
  induction token with
  | nil => exact .nil
  | cons c token ih =>
    obtain ⟨hc, htoken⟩ := List.forall_mem_cons.mp h
    exact .unit (isCompactChar_bounds hc).1 (ih htoken)

theorem sessionCookie_compact {token : JsString} (hne : token ≠ [])
    (h : ∀ c ∈ token, isCompactChar c = true) :
    SessionCookie (cookieHeader (some token)) token := by
  have hsemicolon : semicolon ∉ SESSION_COOKIE_NAME ++ equalsSign :: token := by
    intro hmem
    rcases List.mem_append.mp hmem with hname | hrest
    · exact absurd hname (by decide)
    · rcases List.mem_cons.mp hrest with hsign | htoken
      · exact absurd hsign (by decide)
      · exact (isCompactChar_bounds (h _ htoken)).2.1 rfl
  have hbare : Strip.Bare isWhiteSpace (SESSION_COOKIE_NAME ++ equalsSign :: token) := by
    constructor
    · intro c hc
      obtain rfl : (0x67 : CodeUnit) = c := Option.some.inj hc
      rfl
    · intro c hc
      rw [List.getLast?_append_of_ne_nil _ (List.cons_ne_nil _ _),
        List.getLast?_cons_of_ne_nil hne] at hc
      exact (isCompactChar_bounds (h c (List.mem_of_getLast? hc))).2.2
  refine ⟨_, rfl, ?_⟩
  rw [List.splitOn_eq_singleton hsemicolon]
  exact .here ⟨by decide, .inl hbare.strip_eq⟩

/-- The browser sends the token as it was signed. -/
theorem identify_token [Jwt] (hj : Jwt.Lawful) (payload : JWTPayload) (seconds : ℕ) :
    identifyConnection (Jwt.verify seconds) (cookieHeader (some (Jwt.sign payload))) =
      .ok ((Jwt.verify seconds (Jwt.sign payload)).bind payloadIdentity) := by
  have hcookie := sessionCookie_compact (hj.nonempty payload) (hj.compact payload)
  have hdecoded := decodeURIComponent_eq_some.mpr (uriDecodes_compact (hj.compact payload))
  obtain ⟨c, token, htoken⟩ := List.exists_cons_of_ne_nil (hj.nonempty payload)
  rw [identifyConnection, readCookie_session hcookie, decodeValue, hdecoded, htoken]
  rfl

theorem me_token [Jwt] (hj : Jwt.Lawful) (payload : JWTPayload) (seconds : ℕ) :
    me seconds (some (Jwt.sign payload)) = match Jwt.verify seconds (Jwt.sign payload) with
      | none => .sessionExpired
      | some payload => .user (validate payload) := by
  obtain ⟨c, token, htoken⟩ := List.exists_cons_of_ne_nil (hj.nonempty payload)
  rw [htoken]
  rfl

/-! ### The system -/

/-- The request that a token answers. -/
inductive Request
  | signup (k : ℕ)
  | login (k : ℕ)
  deriving DecidableEq

structure Login where
  dto : LoginDto
  stage : LoginStage
  deriving DecidableEq

/-- An answer of `issueToken`, with the second in which it was signed. -/
structure Answer where
  request : Request
  user : User
  iat : ℕ
  accessToken : JsString

def Answer.exp (a : Answer) : ℕ := a.iat + SESSION_TTL_SECONDS

/-- A session cookie, with the millisecond in which the browser drops it. -/
structure Cookie where
  value : JsString
  expires : ℕ

/-- Times are in milliseconds. -/
structure Sessions where
  now : ℕ
  service : Signups
  logins : List Login
  answers : List Answer
  jar : ℕ → Option Cookie

def Sessions.seconds (s : Sessions) : ℕ := s.now / 1000

/-- The user for whom a request goes on to `issueToken`. -/
def Sessions.returned (s : Sessions) : Request → Option User
  | .signup k =>
    match s.service.requests[k]? with
    | some ⟨_, .settled (.ok user)⟩ => some user
    | _ => none
  | .login k =>
    match s.logins[k]? with
    | some ⟨_, .settled (.ok user)⟩ => some user
    | _ => none

def answerTo [Jwt] (request : Request) (user : User) (seconds : ℕ) : Answer where
  request := request
  user := user
  iat := seconds
  accessToken := Jwt.sign (issueToken user seconds (seconds + SESSION_TTL_SECONDS : ℕ))

def setSessionCookie (now : ℕ) (token : JsString) : Cookie where
  value := token
  expires := now + SESSION_TTL_SECONDS * 1000

/-- The cookie that a browser sends. -/
def Sessions.token (s : Sessions) (b : ℕ) : Option JsString :=
  ((s.jar b).filter fun cookie => s.now < cookie.expires).map Cookie.value

def Sessions.me [Jwt] (s : Sessions) (b : ℕ) : MeAnswer := Accounts.me s.seconds (s.token b)

/-- What a game-session makes of the handshake of a browser. -/
def Sessions.handshake [Jwt] (s : Sessions) (b : ℕ) : Except JsError (Option TokenIdentity) :=
  identifyConnection (Jwt.verify s.seconds) (cookieHeader (s.token b))

inductive SessionInput [Bcrypt]
  | signup (dto : SignupDto)
  | lookedUp (k : ℕ)
  | hashed (k : ℕ) (salt : Bcrypt.Salt)
  | inserted (k : ℕ) (id : Uuid)
  | login (dto : LoginDto)
  | loginResumed (k : ℕ)
  | signed (request : Request)
  | answered (b n : ℕ)
  | logout (b : ℕ)
  | me (b : ℕ)
  | elapsed (ms : ℕ)

/-- The steps of the requests to sign up. -/
def signupInput [Bcrypt] (s : Signups) : SessionInput → Option SignupInput
  | .signup dto => some (.arrive dto)
  | .lookedUp k => some (.resume k .lookedUp)
  | .hashed k salt => (s.requests[k]?).map fun request =>
      .resume k (.hashed (Bcrypt.hash request.dto.password salt))
  | .inserted k id => some (.resume k (.inserted id))
  | _ => none

def sessionsStep [Postgres] [Bcrypt] [Jwt] (s : Sessions) :
    SessionInput → Option (Sessions × List Empty)
  | .login dto => some ({ s with logins := s.logins ++ [⟨dto, .lookup⟩] }, [])
  | .loginResumed k => do
    let request ← s.logins[k]?
    let stage ← login s.service.users request.dto request.stage
    return ({ s with logins := s.logins.set k { request with stage } }, [])
  | .signed request => do
    let user ← s.returned request
    -- `issueToken` is called once
    if s.answers.any fun a => a.request = request then none
    else return ({ s with answers := s.answers ++ [answerTo request user s.seconds] }, [])
  | .answered b n => do
    let answer ← s.answers[n]?
    return ({ s with
      jar := Function.update s.jar b (some (setSessionCookie s.now answer.accessToken)) }, [])
  | .logout b => some ({ s with jar := Function.update s.jar b none }, [])
  | .me b =>
    match s.me b with
    | .sessionExpired => some ({ s with jar := Function.update s.jar b none }, [])
    | _ => some (s, [])
  | .elapsed ms => some ({ s with now := s.now + ms }, [])
  | input => do
    let i ← signupInput s.service input
    let (service, _) ← signupsStep s.service i
    return ({ s with service }, [])

/-- The services from an empty table on, and the browsers before they have a cookie. -/
def sessions [Postgres] [Bcrypt] [Jwt] : System Sessions SessionInput Empty :=
  ofFunction ⟨0, ⟨Table.empty, []⟩, [], [], fun _ => none⟩ sessionsStep

/-! ### What a step does -/

inductive SessionsMove [Postgres] [Bcrypt] [Jwt] (s : Sessions) : Sessions → Prop
  | signup {service : Signups} {i : SignupInput}
      (hash : ∀ k passwordHash, i = .resume k (.hashed passwordHash) → ∃ request salt,
        s.service.requests[k]? = some request ∧
          passwordHash = Bcrypt.hash request.dto.password salt)
      (h : signupsStep s.service i = some (service, [])) : SessionsMove s { s with service }
  | login (dto : LoginDto) : SessionsMove s { s with logins := s.logins ++ [⟨dto, .lookup⟩] }
  | loginResumed {k : ℕ} {request : Login} {stage : LoginStage} (hk : s.logins[k]? = some request)
      (h : login s.service.users request.dto request.stage = some stage) :
      SessionsMove s { s with logins := s.logins.set k { request with stage } }
  | signed {request : Request} {user : User} (h : s.returned request = some user) :
      SessionsMove s { s with answers := s.answers ++ [answerTo request user s.seconds] }
  | answered (b : ℕ) {answer : Answer} (h : answer ∈ s.answers) : SessionsMove s { s with
      jar := Function.update s.jar b (some (setSessionCookie s.now answer.accessToken)) }
  | cleared (b : ℕ) : SessionsMove s { s with jar := Function.update s.jar b none }
  | elapsed (ms : ℕ) : SessionsMove s { s with now := s.now + ms }

theorem signupsStep_outputs [Postgres] {s t : Signups} {input : SignupInput} {os : List Empty}
    (h : signupsStep s input = some (t, os)) : os = [] := by
  cases os with
  | nil => rfl
  | cons o os => exact o.elim

theorem sessionsStep_signup [Postgres] [Bcrypt] [Jwt] {s t : Sessions} {input : SessionInput}
    {i : SignupInput} {os : List Empty} (hi : signupInput s.service input = some i)
    (h : ((do
      let i ← signupInput s.service input
      let (service, _) ← signupsStep s.service i
      return ({ s with service }, [])) : Option (Sessions × List Empty)) = some (t, os)) :
    ∃ service, signupsStep s.service i = some (service, []) ∧ t = { s with service } := by
  simp only [hi, Option.bind_eq_bind, Option.bind_some, Option.bind_eq_some_iff] at h
  obtain ⟨⟨service, ps⟩, hstep, h⟩ := h
  obtain ⟨rfl, -⟩ := Prod.mk.inj (Option.some.inj h)
  obtain rfl := signupsStep_outputs hstep
  exact ⟨service, hstep, rfl⟩

theorem sessionsStep_move [Postgres] [Bcrypt] [Jwt] {s t : Sessions} {input : SessionInput}
    {os : List Empty} (h : sessionsStep s input = some (t, os)) :
    s = t ∨ SessionsMove s t := by
  cases input with
  | signup dto =>
    obtain ⟨service, hstep, rfl⟩ := sessionsStep_signup rfl h
    exact .inr (.signup (by simp) hstep)
  | lookedUp k =>
    obtain ⟨service, hstep, rfl⟩ := sessionsStep_signup rfl h
    exact .inr (.signup (by simp) hstep)
  | hashed k salt =>
    cases hk : s.service.requests[k]? with
    | none =>
      simp only [sessionsStep, signupInput, hk, Option.map_none, Option.bind_eq_bind,
        Option.bind_none] at h
      cases h
    | some request =>
      have hi : signupInput s.service (.hashed k salt) =
          some (.resume k (.hashed (Bcrypt.hash request.dto.password salt))) := by
        rw [signupInput, hk]
        rfl
      obtain ⟨service, hstep, rfl⟩ := sessionsStep_signup hi h
      refine .inr (.signup ?_ hstep)
      intro j passwordHash hj
      cases hj
      exact ⟨request, salt, hk, rfl⟩
  | inserted k id =>
    obtain ⟨service, hstep, rfl⟩ := sessionsStep_signup rfl h
    exact .inr (.signup (by simp) hstep)
  | login dto =>
    cases h
    exact .inr (.login dto)
  | loginResumed k =>
    simp only [sessionsStep, Option.bind_eq_bind, Option.bind_eq_some_iff] at h
    obtain ⟨request, hk, stage, hlogin, h⟩ := h
    cases h
    exact .inr (.loginResumed hk hlogin)
  | signed request =>
    simp only [sessionsStep, Option.bind_eq_bind, Option.bind_eq_some_iff] at h
    obtain ⟨user, huser, h⟩ := h
    split_ifs at h
    cases h
    exact .inr (.signed huser)
  | answered b n =>
    simp only [sessionsStep, Option.bind_eq_bind, Option.bind_eq_some_iff] at h
    obtain ⟨answer, hn, h⟩ := h
    cases h
    exact .inr (.answered b (List.mem_of_getElem? hn))
  | logout b =>
    cases h
    exact .inr (.cleared b)
  | me b =>
    simp only [sessionsStep] at h
    split at h
    · cases h
      exact .inr (.cleared b)
    · cases h
      exact .inl rfl
  | elapsed ms =>
    cases h
    exact .inr (.elapsed ms)

end GachaMind.Accounts
