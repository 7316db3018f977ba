import GachaMind.Accounts.Nicknames
import GachaMind.Accounts.Sessions

/-!
# Who a connection belongs to

A token is enough for a game-session to tell who connects: it was issued for the account whose
password was given, and no longer ago than the lifetime of a session.
-/

namespace GachaMind.Accounts
open GachaMind.Js GachaMind.Shared GachaMind.User GachaMind.GameSession KeyedTable Machine Repeated

/-! ### What the requests have established -/

/-- The hash is one of the password of the request. -/
def HashedFrom [Bcrypt] (dto : SignupDto) : Stage → Prop
  | .inserting passwordHash => ∃ salt, passwordHash = Bcrypt.hash dto.password salt
  | .settled (.ok user) => ∃ salt, user.passwordHash = Bcrypt.hash dto.password salt
  | _ => True

/-- The row that the request has found, and compared with its password. -/
def FoundIn [Bcrypt] (users : Users) (dto : LoginDto) : LoginStage → Prop
  | .comparing row => row ∈ users.rows ∧ row.username = dto.username
  | .settled (.ok row) => row ∈ users.rows ∧ row.username = dto.username ∧
      Bcrypt.compare dto.password row.passwordHash = true
  | _ => True

theorem signup_hashedFrom [Postgres] [Bcrypt] {users users' : Users} {dto : SignupDto}
    {stage stage' : Stage} {resume : Resume} (h : HashedFrom dto stage)
    (hash : ∀ passwordHash, resume = .hashed passwordHash →
      ∃ salt, passwordHash = Bcrypt.hash dto.password salt)
    (hs : signup users dto stage resume = some (users', stage')) : HashedFrom dto stage' := by
  cases stage with
  | lookup =>
    cases resume with
    | lookedUp =>
      simp only [signup] at hs
      split_ifs at hs with hfound
      · cases hs
        trivial
      · cases hs
        trivial
    | hashed _ => cases hs
    | inserted _ => cases hs
  | hashing =>
    cases resume with
    | lookedUp => cases hs
    | hashed passwordHash =>
      cases hs
      exact hash passwordHash rfl
    | inserted _ => cases hs
  | inserting passwordHash =>
    cases resume with
    | lookedUp => cases hs
    | hashed _ => cases hs
    | inserted id =>
      simp only [signup] at hs
      split at hs
      · rename_i users' user hinsert
        cases hs
        obtain ⟨stored, -, -, -, rfl⟩ := insertUser_eq_some.mp hinsert
        exact h
      · cases hs
        trivial
  | settled result => cases hs

theorem login_foundIn [Bcrypt] {users : Users} {dto : LoginDto} {stage stage' : LoginStage}
    (h : FoundIn users dto stage) (hs : login users dto stage = some stage') :
    FoundIn users dto stage' := by
  cases stage with
  | lookup =>
    simp only [login] at hs
    split at hs
    · cases hs
      trivial
    · rename_i hfound
      cases hs
      exact get?_eq_some.mp hfound
  | comparing row =>
    simp only [login] at hs
    split_ifs at hs with hcompare
    · cases hs
      exact ⟨h.1, h.2, hcompare⟩
    · cases hs
      trivial
  | settled result => cases hs

theorem FoundIn.mono [Bcrypt] {users users' : Users} {dto : LoginDto} {stage : LoginStage}
    (h : FoundIn users dto stage) (hrows : ∀ row ∈ users.rows, row ∈ users'.rows) :
    FoundIn users' dto stage := by
  cases stage with
  | lookup => trivial
  | comparing row => exact ⟨hrows row h.1, h.2⟩
  | settled result =>
    cases result with
    | error e => trivial
    | ok row => exact ⟨hrows row h.1, h.2⟩

/-! ### What stays -/

theorem SignupMove.rows [Postgres] {users users' : Users} {dto : SignupDto} {resume : Resume}
    {stage : Stage} (h : SignupMove users dto resume users' stage) :
    ∀ row ∈ users.rows, row ∈ users'.rows := by
  intro row hrow
  cases h with
  | created id hfree _ _ => exact List.mem_append_left _ hrow
  | _ => exact hrow

theorem SignupsMove.rows [Postgres] {s t : Signups} {i : SignupInput} (h : SignupsMove s i t) :
    ∀ row ∈ s.users.rows, row ∈ t.users.rows := by
  cases h with
  | waits husers _ => simp [husers]
  | settles _ hmove _ => exact hmove.rows

theorem SignupsMove.settled [Postgres] {s t : Signups} {i : SignupInput} (h : SignupsMove s i t)
    {k : ℕ} {dto : SignupDto} {result : Except HttpException User} (hk : s.Settled k dto result) :
    t.Settled k dto result := by
  cases h with
  | waits _ hsettled => exact (hsettled _ _ _).mpr hk
  | settles _ _ hsettled => exact (hsettled _ _ _).mpr (.inl hk)

theorem returned_signup {s : Sessions} {k : ℕ} {user : User} :
    s.returned (.signup k) = some user ↔ ∃ dto, s.service.Settled k dto (.ok user) := by
  unfold Sessions.returned Signups.Settled
  constructor
  · intro h
    dsimp only at h
    split at h
    · rename_i hk
      cases h
      exact ⟨_, hk⟩
    · cases h
  · rintro ⟨dto, hk⟩
    simp [hk]

theorem returned_login {s : Sessions} {k : ℕ} {user : User} :
    s.returned (.login k) = some user ↔ ∃ dto, s.logins[k]? = some ⟨dto, .settled (.ok user)⟩ := by
  unfold Sessions.returned
  constructor
  · intro h
    dsimp only at h
    split at h
    · rename_i hk
      cases h
      exact ⟨_, hk⟩
    · cases h
  · rintro ⟨dto, hk⟩
    simp [hk]

theorem login_settled_stays [Bcrypt] {logins : List Login} {users : Users} {k j : ℕ}
    {request : Login} {stage : LoginStage} {dto : LoginDto} {result : Except HttpException User}
    (hk : logins[k]? = some request) (h : login users request.dto request.stage = some stage)
    (hj : logins[j]? = some ⟨dto, .settled result⟩) :
    (logins.set k { request with stage })[j]? = some ⟨dto, .settled result⟩ := by
  have hne : k ≠ j := by
    rintro rfl
    obtain rfl := Option.some.inj (hk.symm.trans hj)
    cases h
  rw [List.getElem?_set_ne hne]
  exact hj

theorem SessionsMove.returned [Postgres] [Bcrypt] [Jwt] {s t : Sessions} (h : SessionsMove s t)
    {request : Request} {user : User} (hr : s.returned request = some user) :
    t.returned request = some user := by
  cases request with
  | signup k =>
    obtain ⟨dto, hk⟩ := returned_signup.mp hr
    refine returned_signup.mpr ⟨dto, ?_⟩
    cases h with
    | signup _ hstep => exact (signupsStep_move hstep).settled hk
    | _ => exact hk
  | login k =>
    obtain ⟨dto, hk⟩ := returned_login.mp hr
    refine returned_login.mpr ⟨dto, ?_⟩
    cases h with
    | login _ =>
      rw [List.getElem?_append_left (List.getElem?_eq_some_iff.mp hk).1]
      exact hk
    | loginResumed hj hlogin => exact login_settled_stays hj hlogin hk
    | _ => exact hk

/-! ### The invariant -/

/-- The token was signed for what its request had returned, some time ago. -/
structure Answer.Issued [Jwt] (a : Answer) (s : Sessions) : Prop where
  returned : s.returned a.request = some a.user
  iat : a.iat ≤ s.seconds
  signed : a.accessToken = Jwt.sign (issueToken a.user a.iat a.exp)

structure SessionsInv [Postgres] [Bcrypt] [Jwt] (s : Sessions) : Prop where
  service : SignupsInvariant Table.empty s.service
  hashes : ∀ request ∈ s.service.requests, HashedFrom request.dto request.stage
  logins : ∀ request ∈ s.logins, FoundIn s.service.users request.dto request.stage
  answers : ∀ a ∈ s.answers, a.Issued s
  jar : ∀ b cookie, s.jar b = some cookie → ∃ a ∈ s.answers, a.accessToken = cookie.value ∧
    a.exp * 1000 ≤ cookie.expires

section
variable [Postgres] [Bcrypt] [Jwt]

theorem SessionsInv.start : SessionsInv ⟨0, ⟨Table.empty, []⟩, [], [], fun _ => none⟩ where
  service := .start Table.empty
  hashes _ h := by cases h
  logins _ h := by cases h
  answers _ h := by cases h
  jar _ _ h := by cases h

omit [Jwt] in
theorem hashes_step {s t : Signups} {i : SignupInput} {os : List Empty}
    (h : ∀ request ∈ s.requests, HashedFrom request.dto request.stage)
    (hash : ∀ k passwordHash, i = .resume k (.hashed passwordHash) → ∃ request salt,
      s.requests[k]? = some request ∧ passwordHash = Bcrypt.hash request.dto.password salt)
    (hs : signupsStep s i = some (t, os)) :
    ∀ request ∈ t.requests, HashedFrom request.dto request.stage := by
  cases i with
  | arrive dto =>
    cases hs
    intro request hmem
    rcases List.mem_append.mp hmem with hold | hnew
    · exact h request hold
    · obtain rfl := List.mem_singleton.mp hnew
      trivial
  | resume k resume =>
    simp only [signupsStep, Option.bind_eq_bind, Option.bind_eq_some_iff] at hs
    obtain ⟨request, hk, ⟨users, stage⟩, hsignup, hs⟩ := hs
    cases hs
    have hhash : ∀ passwordHash, resume = .hashed passwordHash →
        ∃ salt, passwordHash = Bcrypt.hash request.dto.password salt := by
      rintro passwordHash rfl
      obtain ⟨request', salt, hk', hsalt⟩ := hash k passwordHash rfl
      obtain rfl := Option.some.inj (hk.symm.trans hk')
      exact ⟨salt, hsalt⟩
    have hstage := signup_hashedFrom (h request (List.mem_of_getElem? hk)) hhash hsignup
    intro x hx
    rcases List.mem_or_eq_of_mem_set hx with hold | rfl
    · exact h x hold
    · exact hstage

theorem SessionsMove.seconds {s t : Sessions} (h : SessionsMove s t) : s.seconds ≤ t.seconds := by
  cases h with
  | elapsed ms => exact Nat.div_le_div_right (Nat.le_add_right s.now ms)
  | _ => exact le_rfl

theorem Answer.Issued.step {s t : Sessions} {a : Answer} (h : a.Issued s)
    (hm : SessionsMove s t) : a.Issued t where
  returned := hm.returned h.returned
  iat := h.iat.trans hm.seconds
  signed := h.signed

theorem SessionsMove.answers {s t : Sessions} (h : SessionsMove s t) :
    ∀ a ∈ s.answers, a ∈ t.answers := by
  intro a ha
  cases h with
  | signed _ => exact List.mem_append_left _ ha
  | _ => exact ha

theorem SessionsInv.step {s t : Sessions} (h : SessionsInv s) (hm : SessionsMove s t) :
    SessionsInv t := by
  have hissued : ∀ a ∈ s.answers, a.Issued t := fun a ha => (h.answers a ha).step hm
  have hkept : ∀ b cookie, s.jar b = some cookie → ∃ a ∈ t.answers,
      a.accessToken = cookie.value ∧ a.exp * 1000 ≤ cookie.expires := by
    intro b cookie hb
    obtain ⟨a, ha, hcookie⟩ := h.jar b cookie hb
    exact ⟨a, hm.answers a ha, hcookie⟩
  cases hm with
  | signup hash hstep =>
    have hmove := signupsStep_move hstep
    exact ⟨h.service.step hmove, hashes_step h.hashes hash hstep,
      fun request hr => (h.logins request hr).mono hmove.rows, hissued, hkept⟩
  | login dto =>
    refine ⟨h.service, h.hashes, ?_, hissued, hkept⟩
    intro request hr
    rcases List.mem_append.mp hr with hold | hnew
    · exact h.logins request hold
    · obtain rfl := List.mem_singleton.mp hnew
      trivial
  | loginResumed hk hlogin =>
    have hfound := login_foundIn (h.logins _ (List.mem_of_getElem? hk)) hlogin
    refine ⟨h.service, h.hashes, ?_, hissued, hkept⟩
    intro request hr
    rcases List.mem_or_eq_of_mem_set hr with hold | rfl
    · exact h.logins request hold
    · exact hfound
  | @signed request user hreturned =>
    refine ⟨h.service, h.hashes, h.logins, ?_, hkept⟩
    intro a ha
    rcases List.mem_append.mp ha with hold | hnew
    · exact hissued a hold
    · obtain rfl := List.mem_singleton.mp hnew
      refine ⟨?_, le_rfl, rfl⟩
      exact (SessionsMove.signed hreturned).returned hreturned
  | @answered b a ha =>
    refine ⟨h.service, h.hashes, h.logins, hissued, ?_⟩
    intro c cookie hc
    by_cases hb : c = b
    · subst hb
      simp only [Function.update_self, Option.some.injEq] at hc
      subst hc
      refine ⟨a, ha, rfl, ?_⟩
      have hiat := (h.answers a ha).iat
      unfold Sessions.seconds at hiat
      show (a.iat + SESSION_TTL_SECONDS) * 1000 ≤ s.now + SESSION_TTL_SECONDS * 1000
      omega
    · simp only [Function.update_of_ne hb] at hc
      exact h.jar c cookie hc
  | cleared b =>
    refine ⟨h.service, h.hashes, h.logins, hissued, ?_⟩
    intro c cookie hc
    by_cases hb : c = b
    · subst hb
      simp at hc
    · simp only [Function.update_of_ne hb] at hc
      exact h.jar c cookie hc
  | elapsed ms => exact ⟨h.service, h.hashes, h.logins, hissued, h.jar⟩

theorem reachable_sessions {s : Sessions} (hr : Reachable sessions s) : SessionsInv s := by
  apply hr.invariant
  · rintro s rfl
    exact .start
  · intro s input t os h hstep
    rcases sessionsStep_move hstep with rfl | hm
    · exact h
    · exact h.step hm

/-! ### Who has signed in -/

/-- The request shows that the user knows the password of the account: it has created the account,
or it gave a password that bcrypt does not tell from the one that the account was created with. -/
inductive Shown (s : Sessions) : Request → User → Prop
  | signup {k : ℕ} {dto : SignupDto} {user : User} (h : s.service.Settled k dto (.ok user)) :
      Shown s (.signup k) user
  | login {k j : ℕ} {dto : LoginDto} {dto' : SignupDto} {row user : User}
      (h : s.logins[k]? = some ⟨dto, .settled (.ok row)⟩)
      (created : s.service.Settled j dto' (.ok user)) (kept : KeptAs user row)
      (username : dto.username = dto'.username)
      (key : bcryptKey dto.password = bcryptKey dto'.password)
      (password : Allowed dto.password → dto.password = dto'.password) : Shown s (.login k) row

theorem SessionsInv.key {s : Sessions} (h : SessionsInv s) (hb : Bcrypt.Lawful) {k : ℕ}
    {dto : SignupDto} {user row : User} (hk : s.service.Settled k dto (.ok user))
    (hrow : KeptAs user row) (given : JsString) :
    Bcrypt.compare given row.passwordHash = true ↔ bcryptKey given = bcryptKey dto.password := by
  obtain ⟨salt, hsalt⟩ : HashedFrom dto (.settled (.ok user)) :=
    h.hashes _ (List.mem_of_getElem? hk)
  have hhash : row.passwordHash = Bcrypt.hash dto.password salt := by
    rw [← hsalt, hrow.2]
  rw [hhash]
  exact hb.compares dto.password salt given

theorem SessionsInv.shown {s : Sessions} (h : SessionsInv s) (hb : Bcrypt.Lawful)
    {request : Request} {user : User} (hr : s.returned request = some user) :
    Shown s request user := by
  cases request with
  | signup k =>
    obtain ⟨dto, hk⟩ := returned_signup.mp hr
    exact .signup hk
  | login k =>
    obtain ⟨dto, hk⟩ := returned_login.mp hr
    obtain ⟨hrow, hname, hcompare⟩ : FoundIn s.service.users dto (.settled (.ok user)) :=
      h.logins _ (List.mem_of_getElem? hk)
    rcases h.service.origin user hrow with hold | ⟨j, dto', entity, hj, hkept⟩
    · cases hold
    · have hkey := (h.key hb hj hkept dto.password).mp hcompare
      have hsame : dto.username = dto'.username := by
        rw [← (h.service.stored j dto' entity hj).1, ← hkept.username, hname]
      exact .login hk hj hkept hsame hkey fun hallowed =>
        bcryptKey_inj hb hallowed dto'.allowed hkey

/-! ### What a token identifies -/

omit [Postgres] [Bcrypt] in
theorem Answer.Issued.verify {s : Sessions} {a : Answer} (h : a.Issued s) (hj : Jwt.Lawful)
    (seconds : ℕ) : Jwt.verify seconds a.accessToken =
      if seconds < a.exp then some (issueToken a.user a.iat a.exp) else none := by
  rw [h.signed]
  exact hj.verifies a.user a.iat a.exp seconds

/-- The browser holds the token, and it has not run out. -/
structure Sessions.Holds (s : Sessions) (b : ℕ) (a : Answer) : Prop where
  issued : a ∈ s.answers
  cookie : (s.jar b).map Cookie.value = some a.accessToken
  valid : s.seconds < a.exp

theorem SessionsInv.token_of_holds {s : Sessions} (h : SessionsInv s) (hj : Jwt.Lawful) {b : ℕ}
    {a : Answer} (ha : s.Holds b a) : s.token b = some a.accessToken := by
  obtain ⟨cookie, hcookie, hvalue⟩ := Option.map_eq_some_iff.mp ha.cookie
  obtain ⟨a', ha', htoken, hexpires⟩ := h.jar b cookie hcookie
  -- whichever answer brought the cookie, its token is the same and has not run out
  have hvalid : s.seconds < a'.exp := by
    have hverify := (h.answers a' ha').verify hj s.seconds
    rw [htoken, hvalue, (h.answers a ha.issued).verify hj, if_pos ha.valid] at hverify
    by_contra hout
    rw [if_neg hout] at hverify
    cases hverify
  have hsent : s.now < cookie.expires := by
    unfold Sessions.seconds at hvalid
    omega
  rw [Sessions.token, hcookie, Option.filter_some, if_pos (decide_eq_true hsent), ← hvalue]
  rfl

theorem SessionsInv.token_cases {s : Sessions} (h : SessionsInv s) (b : ℕ) :
    s.token b = none ∨ ∃ a ∈ s.answers, s.token b = some a.accessToken ∧
      (s.jar b).map Cookie.value = some a.accessToken := by
  cases hjar : s.jar b with
  | none => exact .inl (by rw [Sessions.token, hjar]; rfl)
  | some cookie =>
    obtain ⟨a, ha, htoken, -⟩ := h.jar b cookie hjar
    by_cases hsent : s.now < cookie.expires
    · refine .inr ⟨a, ha, ?_, by rw [htoken]; rfl⟩
      rw [Sessions.token, hjar, Option.filter_some, if_pos (decide_eq_true hsent), htoken]
      rfl
    · refine .inl ?_
      rw [Sessions.token, hjar, Option.filter_some, if_neg (by simpa using hsent)]
      rfl

/-- What the services tell of the browser. -/
inductive Told (s : Sessions) (b : ℕ) : Prop
  | member {a : Answer} (h : s.Holds b a) (shown : Shown s a.request a.user)
      (handshake : s.handshake b = .ok (some (tokenOf (issuedIdentity a.user))))
      (me : s.me b = .user (validate (issueToken a.user a.iat a.exp)))
  | guest (h : ∀ a, ¬ s.Holds b a) (handshake : s.handshake b = .ok none)
      (me : ∀ user, s.me b ≠ .user user)

theorem SessionsInv.told {s : Sessions} (h : SessionsInv s) (hb : Bcrypt.Lawful)
    (hj : Jwt.Lawful) (b : ℕ) : Told s b := by
  by_cases hheld : ∃ a, s.Holds b a
  · obtain ⟨a, ha⟩ := hheld
    have hissued := h.answers a ha.issued
    have htoken := h.token_of_holds hj ha
    have hverify := hissued.verify hj s.seconds
    rw [if_pos ha.valid, hissued.signed] at hverify
    rw [hissued.signed] at htoken
    apply Told.member ha (h.shown hb hissued.returned)
    · rw [Sessions.handshake, htoken, identify_token hj, hverify, Option.bind_some,
        payloadIdentity_issueToken]
    · rw [Sessions.me, htoken, me_token hj, hverify]
  · have hnone : ∀ a, ¬ s.Holds b a := not_exists.mp hheld
    rcases h.token_cases b with htoken | ⟨a, ha, htoken, hcookie⟩
    · apply Told.guest hnone
      · rw [Sessions.handshake, htoken]
        rfl
      · intro user hme
        rw [Sessions.me, htoken] at hme
        cases hme
    · have hissued := h.answers a ha
      have hverify := hissued.verify hj s.seconds
      rw [if_neg fun hvalid => hnone a ⟨ha, hcookie, hvalid⟩, hissued.signed] at hverify
      rw [hissued.signed] at htoken
      apply Told.guest hnone
      · rw [Sessions.handshake, htoken, identify_token hj, hverify]
        rfl
      · intro user hme
        rw [Sessions.me, htoken, me_token hj, hverify] at hme
        cases hme

/-- In every run, what a browser is told follows from the token that it holds, and the token from a
request that showed the password of the account. -/
theorem session_identifies (hb : Bcrypt.Lawful) (hj : Jwt.Lawful) (s : Sessions)
    (hr : Reachable sessions s) (b : ℕ) : Told s b :=
  (reachable_sessions hr).told hb hj b

end

/-! ### Concrete libraries -/

theorem utf8_ascii {s : JsString} (h : IsAscii s) : utf8 s = s.map UInt16.toUInt8 := by
  have hall : ∀ n < 0x80, String.utf8EncodeChar (Char.ofNat n) = [n.toUInt8] := by decide
  induction s with
  | nil => rfl
  | cons c s ih =>
    obtain ⟨hc, hs⟩ := List.forall_mem_cons.mp h
    have hunit : (c.toNat).toUInt8 = c.toUInt8 := by
      apply UInt8.toNat_inj.mp
      simp
    have hbmp : c < 0xD800 := UInt16.lt_trans hc (by decide)
    rw [utf8, codePoints_cons hbmp, List.flatMap_cons, hall _ (UInt16.lt_iff_toNat_lt.mp hc), hunit,
      List.singleton_append, List.map_cons, ← ih hs]
    rfl

/-- The key itself for a hash. -/
@[reducible] def plainBcrypt : Bcrypt where
  Salt := Unit
  bytes := utf8
  hash password _ :=
    utf16 "$2b$10$" ++ toBase64url (cycleTo MAX_PASSWORD_LENGTH (utf8 password ++ [0]))
  compare given passwordHash := decide (passwordHash =
    utf16 "$2b$10$" ++ toBase64url (cycleTo MAX_PASSWORD_LENGTH (utf8 given ++ [0])))

theorem toBase64url_inj {bytes bytes' : List UInt8} (h : toBase64url bytes = toBase64url bytes') :
    bytes = bytes' := by
  rw [← fromBase64url_toBase64url bytes, h, fromBase64url_toBase64url]

theorem plainBcrypt_lawful : @Bcrypt.Lawful plainBcrypt := by
  apply @Bcrypt.Lawful.mk plainBcrypt
  case ascii => exact fun _ => utf8_ascii
  case compares =>
    intro password salt given
    show decide (_ = _) = true ↔ _
    rw [decide_eq_true_iff]
    constructor
    · intro h
      exact (toBase64url_inj (List.append_cancel_left h)).symm
    · intro h
      exact congrArg (fun key => utf16 "$2b$10$" ++ toBase64url key) h.symm

def textBytes (s : JsString) : List UInt8 := s.flatMap fun c => [c.toUInt8, (c / 256).toUInt8]

def bytesText : List UInt8 → JsString
  | a :: b :: bytes => (a.toUInt16 + 256 * b.toUInt16) :: bytesText bytes
  | _ => []

def natBytes (n : ℕ) : List UInt8 := (Nat.digits 256 n).map Nat.toUInt8

def bytesNat (bytes : List UInt8) : ℕ := Nat.ofDigits 256 (bytes.map UInt8.toNat)

theorem bytesText_textBytes (s : JsString) : bytesText (textBytes s) = s := by
  induction s with
  | nil => rfl
  | cons c s ih =>
    have hunit : c.toUInt8.toUInt16 + 256 * (c / 256).toUInt8.toUInt16 = c := by
      have := c.toNat_lt
      apply UInt16.toNat_inj.mp
      simp only [UInt16.toNat_add, UInt16.toNat_mul, UInt16.toNat_div, UInt8.toNat_toUInt16,
        UInt16.toNat_toUInt8, UInt16.reduceToNat]
      omega
    show (c.toUInt8.toUInt16 + 256 * (c / 256).toUInt8.toUInt16) :: bytesText (textBytes s) = c :: s
    rw [hunit, ih]

theorem bytesNat_natBytes (n : ℕ) : bytesNat (natBytes n) = n := by
  have hdigits : (natBytes n).map UInt8.toNat = Nat.digits 256 n := by
    rw [natBytes, List.map_map]
    conv_rhs => rw [← List.map_id (Nat.digits 256 n)]
    apply List.map_congr_left
    intro d hd
    exact Nat.mod_eq_of_lt (Nat.digits_lt_base (by decide) hd)
  rw [bytesNat, hdigits, Nat.ofDigits_digits]

def dot : CodeUnit := 0x2E

def claimBytes : JWTPayload → List (List UInt8)
  | [(_, .str sub), (_, .str username), (_, .str nickname), (_, .num (.finite iat)),
      (_, .num (.finite exp))] =>
    [textBytes sub, textBytes username, textBytes nickname, natBytes iat.num.toNat,
      natBytes exp.num.toNat]
  | _ => [[0]]

/-- The claims without a signature. -/
@[reducible] def plainJwt : Jwt where
  sign payload := [dot].intercalate ((claimBytes payload).map toBase64url)
  verify now token :=
    match (token.splitOn dot).map fromBase64url with
    | [sub, username, nickname, iat, exp] =>
      if now < bytesNat exp then
        some [(utf16 "sub", .str (bytesText sub)), (utf16 "username", .str (bytesText username)),
          (utf16 "nickname", .str (bytesText nickname)),
          (utf16 "iat", .num (.finite (bytesNat iat))),
          (utf16 "exp", .num (.finite (bytesNat exp)))]
      else none
    | _ => none

theorem isCompactChar_base64url {bytes : List UInt8} :
    ∀ c ∈ toBase64url bytes, isCompactChar c = true ∧ c ≠ dot := by
  have hall : ∀ n < 64, isCompactChar (base64Char n) = true ∧ base64Char n ≠ dot := by decide
  intro c hc
  obtain ⟨n, hn, rfl⟩ := List.mem_map.mp hc
  exact hall n (sextets_lt bytes n hn)

theorem mem_intercalate {x c : CodeUnit} {parts : List JsString}
    (hc : c ∈ [x].intercalate parts) : c = x ∨ ∃ part ∈ parts, c ∈ part := by
  induction parts with
  | nil => cases hc
  | cons part parts ih =>
    cases parts with
    | nil => exact .inr ⟨part, List.mem_cons_self, by simpa using hc⟩
    | cons next parts =>
      rw [List.intercalate_cons_cons, List.mem_append, List.mem_append, List.mem_singleton] at hc
      rcases hc with (hpart | hx) | hrest
      · exact .inr ⟨part, List.mem_cons_self, hpart⟩
      · exact .inl hx
      · refine (ih hrest).imp_right ?_
        rintro ⟨other, hother, hmem⟩
        exact ⟨other, List.mem_cons_of_mem _ hother, hmem⟩

theorem splitOn_sign (payload : JWTPayload) :
    (plainJwt.sign payload).splitOn dot = (claimBytes payload).map toBase64url := by
  apply List.splitOn_intercalate
  · intro part hpart hdot
    obtain ⟨bytes, -, rfl⟩ := List.mem_map.mp hpart
    exact (isCompactChar_base64url dot hdot).2 rfl
  · unfold claimBytes
    split
    all_goals simp

theorem plainJwt_lawful : @Jwt.Lawful plainJwt := by
  apply @Jwt.Lawful.mk plainJwt
  case verifies =>
    intro user iat exp now
    have hparts : ((plainJwt.sign (issueToken user iat exp)).splitOn dot).map fromBase64url =
        [textBytes (uuidText user.id), textBytes user.username, textBytes user.nickname,
          natBytes iat, natBytes exp] := by
      rw [splitOn_sign]
      simp [issueToken, claimBytes, fromBase64url_toBase64url]
    show (match ((plainJwt.sign (issueToken user iat exp)).splitOn dot).map fromBase64url with
      | [sub, username, nickname, iat, exp] => _
      | _ => none) = _
    rw [hparts]
    simp only [bytesText_textBytes, bytesNat_natBytes]
    rfl
  case nonempty =>
    intro payload hnil
    have hsplit := splitOn_sign payload
    rw [hnil] at hsplit
    unfold claimBytes at hsplit
    split at hsplit
    · exact absurd (congrArg List.length hsplit) (by simp)
    · exact absurd hsplit (by decide)
  case compact =>
    intro payload c hc
    rcases mem_intercalate hc with rfl | ⟨part, hpart, hmem⟩
    · decide
    · obtain ⟨bytes, -, rfl⟩ := List.mem_map.mp hpart
      exact (isCompactChar_base64url c hmem).1

/-! ### A run on fixed inputs -/

/-- Kim signs up in one browser and signs in, an hour later, in another. -/
def kimSignsIn : List (@SessionInput plainBcrypt) :=
  letI : Bcrypt := plainBcrypt
  [.signup plainSignup, .lookedUp 0, .hashed 0 (), .inserted 0 ⟨1⟩, .signed (.signup 0),
   .answered 7 0, .elapsed 3600000, .login ⟨utf16 "kim", utf16 "secret"⟩, .loginResumed 0,
   .loginResumed 0, .signed (.login 0), .answered 8 1]

/-- The name for which a game-session takes the browser. -/
def nameOf (s : Sessions) (b : ℕ) : Option JsString :=
  match @Sessions.handshake plainJwt s b with
  | .ok (some identity) => some identity.nickname
  | _ => none

theorem kimSignsIn_told : ∃ s, Reachable (@sessions utf8Postgres plainBcrypt plainJwt) s ∧
    (∀ b, @Told utf8Postgres plainBcrypt plainJwt s b) ∧ nameOf s 7 = some (utf16 "Kim") ∧
      nameOf s 8 = some (utf16 "Kim") ∧ nameOf s 9 = none := by
  have hrun := @exec_get_run _ _ _ ⟨0, ⟨Table.empty, []⟩, [], [], fun _ => none⟩
    (@sessionsStep utf8Postgres plainBcrypt plainJwt) kimSignsIn (by decide +kernel)
  refine ⟨_, ⟨_, _, hrun⟩, ?_, by decide +kernel, by decide +kernel, by decide +kernel⟩
  exact @session_identifies utf8Postgres plainBcrypt plainJwt plainBcrypt_lawful plainJwt_lawful _
    ⟨_, _, hrun⟩

end GachaMind.Accounts
