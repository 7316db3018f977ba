import GachaMind.Lib.Machine
import GachaMind.Accounts.Users

/-!
# Concurrent signups (apps/user/src/auth/auth.service.ts)

`signup` waits three times: for `findByUsername`, for bcrypt and for `create`. Between these waits
the steps of other requests run, in any order. Nothing catches the error of a refused insert, so
Nest answers it as it answers every unknown error.
-/

namespace GachaMind.Accounts
open GachaMind.Js GachaMind.Shared GachaMind.User KeyedTable Machine

structure HttpException where
  status : ℕ
  message : JsString
  deriving DecidableEq

def conflictException : HttpException := ⟨409, utf16 "이미 사용 중인 아이디입니다."⟩

/-- The answer to an error that is not an `HttpException`. -/
def internalServerError : HttpException := ⟨500, utf16 "Internal server error"⟩

/-! ### One request -/

/-- Where `signup` waits, and what it has returned or thrown. -/
inductive Stage
  | lookup
  | hashing
  | inserting (passwordHash : JsString)
  | settled (result : Except HttpException User)
  deriving DecidableEq

/-- What a waiting request is resumed with. -/
inductive Resume
  | lookedUp
  | hashed (passwordHash : JsString)
  | inserted (id : Uuid)
  deriving DecidableEq

def signup [Postgres] (users : Users) (dto : SignupDto) :
    Stage → Resume → Option (Users × Stage)
  | .lookup, .lookedUp =>
    if (findByUsername users dto.username).isSome then
      some (users, .settled (.error conflictException))
    else some (users, .hashing)
  | .hashing, .hashed passwordHash => some (users, .inserting passwordHash)
  | .inserting passwordHash, .inserted id =>
    match insertUser users id dto passwordHash with
    | some (users', user) => some (users', .settled (.ok user))
    | none => some (users, .settled (.error internalServerError))
  | _, _ => none

/-- The row that keeps this entity. -/
def KeptAs [Postgres] (user row : User) : Prop :=
  Postgres.text user.nickname = some row.nickname ∧ row = { user with nickname := row.nickname }

theorem KeptAs.unique [Postgres] {user row row' : User} (h : KeptAs user row)
    (h' : KeptAs user row') : row = row' := by
  have hname : row.nickname = row'.nickname := Option.some.inj (h.1.symm.trans h'.1)
  rw [h.2, h'.2, hname]

theorem KeptAs.username [Postgres] {user row : User} (h : KeptAs user row) :
    row.username = user.username := by
  rw [h.2]

/-- Everything that one step of a request can do. -/
inductive SignupMove [Postgres] (users : Users) (dto : SignupDto) :
    Resume → Users → Stage → Prop
  | taken (h : dto.username ∈ users.keys) :
      SignupMove users dto .lookedUp users (.settled (.error conflictException))
  | hashing (h : dto.username ∉ users.keys) : SignupMove users dto .lookedUp users .hashing
  | inserting (passwordHash : JsString) :
      SignupMove users dto (.hashed passwordHash) users (.inserting passwordHash)
  | created {user row : User} (id : Uuid) (h : row.username ∉ users.keys)
      (hname : user.username = dto.username) (hrow : KeptAs user row) :
      SignupMove users dto (.inserted id) (users.insertNew row h) (.settled (.ok user))
  | refused (id : Uuid) (h : dto.username ∈ users.keys ∨ Postgres.text (trim dto.nickname) = none) :
      SignupMove users dto (.inserted id) users (.settled (.error internalServerError))

theorem insertUser_eq_none [Postgres] {users : Users} {id : Uuid} {dto : SignupDto}
    {passwordHash : JsString} (h : insertUser users id dto passwordHash = none) :
    dto.username ∈ users.keys ∨ Postgres.text (trim dto.nickname) = none := by
  by_contra hboth
  obtain ⟨hfree, htext⟩ := not_or.mp hboth
  obtain ⟨stored, hstored⟩ := Option.ne_none_iff_exists'.mp htext
  have hsome : ∃ r, insertUser users id dto passwordHash = some r :=
    ⟨_, insertUser_eq_some.mpr ⟨stored, hstored, hfree, rfl, rfl⟩⟩
  rw [h] at hsome
  obtain ⟨r, hr⟩ := hsome
  cases hr

theorem signup_move [Postgres] {users users' : Users} {dto : SignupDto} {stage stage' : Stage}
    {resume : Resume} (h : signup users dto stage resume = some (users', stage')) :
    SignupMove users dto resume users' stage' := by
  cases stage with
  | lookup =>
    cases resume with
    | lookedUp =>
      simp only [signup] at h
      split_ifs at h with hfound
      · obtain ⟨rfl, rfl⟩ := Prod.mk.inj (Option.some.inj h)
        exact .taken (get?_isSome.mp hfound)
      · obtain ⟨rfl, rfl⟩ := Prod.mk.inj (Option.some.inj h)
        exact .hashing fun hmem => hfound (get?_isSome.mpr hmem)
    | hashed passwordHash => cases h
    | inserted id => cases h
  | hashing =>
    cases resume with
    | lookedUp => cases h
    | hashed passwordHash =>
      obtain ⟨rfl, rfl⟩ := Prod.mk.inj (Option.some.inj h)
      exact .inserting passwordHash
    | inserted id => cases h
  | inserting passwordHash =>
    cases resume with
    | lookedUp => cases h
    | hashed passwordHash => cases h
    | inserted id =>
      simp only [signup] at h
      split at h
      · rename_i hinsert
        obtain ⟨rfl, rfl⟩ := Prod.mk.inj (Option.some.inj h)
        obtain ⟨stored, hstored, hfree, rfl, rfl⟩ := insertUser_eq_some.mp hinsert
        have hrow : KeptAs ⟨id, dto.username, trim dto.nickname, passwordHash⟩
            ⟨id, dto.username, stored, passwordHash⟩ := ⟨hstored, rfl⟩
        exact .created id hfree rfl hrow
      · rename_i hinsert
        obtain ⟨rfl, rfl⟩ := Prod.mk.inj (Option.some.inj h)
        exact .refused id (insertUser_eq_none hinsert)
  | settled result => cases h

/-! ### All requests -/

structure Signup where
  dto : SignupDto
  stage : Stage
  deriving DecidableEq

structure Signups where
  users : Users
  requests : List Signup

inductive SignupInput
  | arrive (dto : SignupDto)
  | resume (k : ℕ) (resume : Resume)

def signupsStep [Postgres] (s : Signups) : SignupInput → Option (Signups × List Empty)
  | .arrive dto => some ({ s with requests := s.requests ++ [⟨dto, .lookup⟩] }, [])
  | .resume k resume => do
    let request ← s.requests[k]?
    let (users, stage) ← signup s.users request.dto request.stage resume
    return (⟨users, s.requests.set k { request with stage }⟩, [])

/-- The user service from a table on. -/
def signups [Postgres] (users : Users) : System Signups SignupInput Empty :=
  ofFunction ⟨users, []⟩ signupsStep

/-- Request `k` has been answered. -/
def Signups.Settled (s : Signups) (k : ℕ) (dto : SignupDto) (result : Except HttpException User) :
    Prop :=
  s.requests[k]? = some ⟨dto, .settled result⟩

/-- What a step does to the table and to the answers. -/
inductive SignupsMove [Postgres] (s : Signups) : SignupInput → Signups → Prop
  | waits {input : SignupInput} {t : Signups} (husers : t.users = s.users)
      (hsettled : ∀ j dto result, t.Settled j dto result ↔ s.Settled j dto result) :
      SignupsMove s input t
  | settles {k : ℕ} {request : Signup} {resume : Resume} {t : Signups}
      {result : Except HttpException User} (hk : s.requests[k]? = some request)
      (hmove : SignupMove s.users request.dto resume t.users (.settled result))
      (hsettled : ∀ j dto r, t.Settled j dto r ↔
        s.Settled j dto r ∨ j = k ∧ dto = request.dto ∧ r = result) :
      SignupsMove s (.resume k resume) t

theorem settled_arrive (s : Signups) (dto : SignupDto) (j : ℕ) (dto' : SignupDto)
    (result : Except HttpException User) :
    Signups.Settled ⟨s.users, s.requests ++ [⟨dto, .lookup⟩]⟩ j dto' result ↔
      s.Settled j dto' result := by
  simp only [Signups.Settled, List.getElem?_append]
  by_cases hj : j < s.requests.length
  · rw [if_pos hj]
  · rw [if_neg hj, List.getElem?_eq_none (Nat.not_lt.mp hj)]
    constructor
    · intro h
      have hnew := List.mem_singleton.mp (List.mem_of_getElem? h)
      cases hnew
    · intro h
      cases h

theorem settled_set {s : Signups} {k : ℕ} {request : Signup} (users : Users) (stage : Stage)
    (hk : s.requests[k]? = some request) (hwaits : ∀ result, request.stage ≠ .settled result)
    (j : ℕ) (dto : SignupDto) (result : Except HttpException User) :
    Signups.Settled ⟨users, s.requests.set k { request with stage }⟩ j dto result ↔
      s.Settled j dto result ∨ j = k ∧ dto = request.dto ∧ stage = .settled result := by
  have hlt : k < s.requests.length := (List.getElem?_eq_some_iff.mp hk).1
  simp only [Signups.Settled, List.getElem?_set]
  by_cases hj : k = j
  · subst hj
    rw [if_pos rfl, if_pos hlt, hk]
    simp only [Option.some.injEq, Signup.mk.injEq, true_and]
    constructor
    · intro h
      exact Or.inr ⟨h.1.symm, h.2⟩
    · rintro (h | h)
      · rw [h] at hwaits
        exact absurd rfl (hwaits result)
      · exact ⟨h.1.symm, h.2⟩
  · rw [if_neg hj]
    constructor
    · exact Or.inl
    · rintro (h | h)
      · exact h
      · exact absurd h.1.symm hj

theorem signupsStep_move [Postgres] {s t : Signups} {input : SignupInput} {os : List Empty}
    (h : signupsStep s input = some (t, os)) : SignupsMove s input t := by
  cases input with
  | arrive dto =>
    obtain ⟨rfl, -⟩ := Prod.mk.inj (Option.some.inj h)
    exact .waits rfl (settled_arrive s dto)
  | resume k resume =>
    simp only [signupsStep, Option.bind_eq_bind, Option.bind_eq_some_iff] at h
    obtain ⟨request, hk, ⟨users, stage⟩, hsignup, h⟩ := h
    obtain ⟨rfl, -⟩ := Prod.mk.inj (Option.some.inj h)
    have hmove := signup_move hsignup
    have hwaits : ∀ result, request.stage ≠ .settled result := by
      intro result hstage
      rw [hstage] at hsignup
      cases hsignup
    have hsettled := settled_set users stage hk hwaits
    cases stage with
    | settled result =>
      apply SignupsMove.settles hk hmove
      intro j dto r
      rw [hsettled, Stage.settled.injEq, eq_comm (a := result)]
    | _ =>
      apply SignupsMove.waits
      · cases hmove <;> rfl
      · intro j dto r
        rw [hsettled]
        simp

/-! ### What every run keeps -/

structure SignupsInvariant [Postgres] (before : Users) (s : Signups) : Prop where
  kept : ∀ row ∈ before.rows, row ∈ s.users.rows
  origin : ∀ row ∈ s.users.rows, row ∈ before.rows ∨
    ∃ k dto user, s.Settled k dto (.ok user) ∧ KeptAs user row
  stored : ∀ k dto user, s.Settled k dto (.ok user) →
    user.username = dto.username ∧ dto.username ∉ before.keys ∧
      ∃ row ∈ s.users.rows, KeptAs user row
  unique : ∀ j k dto dto' user user', s.Settled j dto (.ok user) → s.Settled k dto' (.ok user') →
    dto.username = dto'.username → j = k
  conflict : ∀ k dto, s.Settled k dto (.error conflictException) → dto.username ∈ s.users.keys

theorem SignupsInvariant.start [Postgres] (before : Users) :
    SignupsInvariant before ⟨before, []⟩ where
  kept _ h := h
  origin _ h := Or.inl h
  stored _ _ _ h := by cases h
  unique _ _ _ _ _ _ h := by cases h
  conflict _ _ h := by cases h

theorem SignupsInvariant.created_mem_keys [Postgres] {before : Users} {s : Signups}
    (h : SignupsInvariant before s) {k : ℕ} {dto : SignupDto} {user : User}
    (hk : s.Settled k dto (.ok user)) : dto.username ∈ s.users.keys := by
  obtain ⟨hname, -, row, hmem, hrow⟩ := h.stored k dto user hk
  rw [← hname, ← hrow.username]
  exact key_mem_keys hmem

/-- A refusal adds no account. -/
theorem SignupsInvariant.refusal [Postgres] {before : Users} {s t : Signups}
    (h : SignupsInvariant before s) (husers : t.users = s.users)
    (hok : ∀ j dto user, t.Settled j dto (.ok user) ↔ s.Settled j dto (.ok user))
    (hconflict : ∀ j dto, t.Settled j dto (.error conflictException) →
      dto.username ∈ s.users.keys) : SignupsInvariant before t where
  kept row hrow := husers ▸ h.kept row hrow
  origin row hrow := by
    rcases h.origin row (husers ▸ hrow) with hold | ⟨k, dto, user, hk, hkept⟩
    · exact Or.inl hold
    · exact Or.inr ⟨k, dto, user, (hok _ _ _).mpr hk, hkept⟩
  stored k dto user hk := by
    rw [husers]
    exact h.stored k dto user ((hok _ _ _).mp hk)
  unique j k dto dto' user user' hj hk :=
    h.unique j k dto dto' user user' ((hok _ _ _).mp hj) ((hok _ _ _).mp hk)
  conflict k dto hk := by
    rw [husers]
    exact hconflict k dto hk

theorem SignupsInvariant.creation [Postgres] {before : Users} {s t : Signups}
    (h : SignupsInvariant before s) {k : ℕ} {dto : SignupDto} {user row : User}
    (hfree : row.username ∉ s.users.keys) (hname : user.username = dto.username)
    (hrow : KeptAs user row) (husers : t.users = s.users.insertNew row hfree)
    (hsettled : ∀ j dto' r, t.Settled j dto' r ↔
      s.Settled j dto' r ∨ j = k ∧ dto' = dto ∧ r = .ok user) :
    SignupsInvariant before t := by
  have hrows : ∀ x, x ∈ t.users.rows ↔ x ∈ s.users.rows ∨ x = row := by
    intro x
    rw [husers]
    exact List.mem_append.trans (or_congr_right List.mem_singleton)
  have hnew : row.username = dto.username := hrow.username.trans hname
  have hfree' : dto.username ∉ s.users.keys := hnew ▸ hfree
  have hbefore : dto.username ∉ before.keys := by
    intro hmem
    obtain ⟨x, hx, hkey⟩ := mem_keys.mp hmem
    exact hfree' (hkey ▸ key_mem_keys (h.kept x hx))
  constructor
  case kept =>
    intro x hx
    exact (hrows x).mpr (Or.inl (h.kept x hx))
  case origin =>
    intro x hx
    rcases (hrows x).mp hx with hold | rfl
    · rcases h.origin x hold with hold | ⟨j, dto', user', hj, hkept⟩
      · exact Or.inl hold
      · exact Or.inr ⟨j, dto', user', (hsettled _ _ _).mpr (Or.inl hj), hkept⟩
    · exact Or.inr ⟨k, dto, user, (hsettled _ _ _).mpr (Or.inr ⟨rfl, rfl, rfl⟩), hrow⟩
  case stored =>
    intro j dto' user' hj
    rcases (hsettled _ _ _).mp hj with hold | ⟨rfl, rfl, hsame⟩
    · obtain ⟨hname', hbefore', x, hx, hkept⟩ := h.stored j dto' user' hold
      exact ⟨hname', hbefore', x, (hrows x).mpr (Or.inl hx), hkept⟩
    · obtain rfl := Except.ok.inj hsame
      exact ⟨hname, hbefore, row, (hrows row).mpr (Or.inr rfl), hrow⟩
  case unique =>
    -- an account created before this step holds its username in the table
    have hother : ∀ j dto' user', s.Settled j dto' (.ok user') →
        dto'.username ≠ dto.username := by
      intro j dto' user' hj hsame
      exact hfree' (hsame ▸ h.created_mem_keys hj)
    intro i j dtoi dtoj useri userj hi hj hsame
    rcases (hsettled _ _ _).mp hi with hi | ⟨rfl, rfl, -⟩
    · rcases (hsettled _ _ _).mp hj with hj | ⟨rfl, rfl, -⟩
      · exact h.unique i j dtoi dtoj useri userj hi hj hsame
      · exact absurd hsame (hother i dtoi useri hi)
    · rcases (hsettled _ _ _).mp hj with hj | ⟨rfl, -, -⟩
      · exact absurd hsame.symm (hother j dtoj userj hj)
      · rfl
  case conflict =>
    intro j dto' hj
    rcases (hsettled _ _ _).mp hj with hold | ⟨-, -, hsame⟩
    · obtain ⟨x, hx, hkey⟩ := mem_keys.mp (h.conflict j dto' hold)
      exact hkey ▸ key_mem_keys ((hrows x).mpr (Or.inl hx))
    · cases hsame

theorem SignupsInvariant.step [Postgres] {before : Users} {s t : Signups} {input : SignupInput}
    (h : SignupsInvariant before s) (hmove : SignupsMove s input t) :
    SignupsInvariant before t := by
  cases hmove with
  | waits husers hsettled =>
    apply h.refusal husers
    · intro j dto user
      exact hsettled j dto _
    · intro j dto hj
      exact h.conflict j dto ((hsettled _ _ _).mp hj)
  | @settles k request resume _ result hk hmove hsettled =>
    obtain ⟨users, requests⟩ := t
    have hok : ∀ e, result = .error e → ∀ j dto user,
        Signups.Settled ⟨users, requests⟩ j dto (.ok user) ↔ s.Settled j dto (.ok user) := by
      rintro e rfl j dto user
      rw [hsettled]
      simp
    cases hmove with
    | taken hmem =>
      apply h.refusal (t := ⟨s.users, requests⟩) rfl (hok _ rfl)
      intro j dto hj
      rcases (hsettled _ _ _).mp hj with hold | ⟨-, rfl, -⟩
      · exact h.conflict j dto hold
      · exact hmem
    | created id hfree hname hrow => exact h.creation hfree hname hrow rfl hsettled
    | refused id hwhy =>
      apply h.refusal (t := ⟨s.users, requests⟩) rfl (hok _ rfl)
      intro j dto hj
      rcases (hsettled _ _ _).mp hj with hold | ⟨-, -, hsame⟩
      · exact h.conflict j dto hold
      · exact absurd (Except.error.inj hsame) (by decide)

/-! ### Accepted inserts -/

/-- Where this step is an insert: the username is still free, and Postgres can store the
nickname. -/
def InsertAccepted [Postgres] (s : Signups) : SignupInput → Prop
  | .resume k (.inserted _) => ∀ request ∈ s.requests[k]?,
      request.dto.username ∉ s.users.keys ∧ (Postgres.text (trim request.dto.nickname)).isSome
  | _ => True

instance [Postgres] (s : Signups) : ∀ input, Decidable (InsertAccepted s input)
  | .arrive _ => inferInstanceAs (Decidable True)
  | .resume _ .lookedUp => inferInstanceAs (Decidable True)
  | .resume _ (.hashed _) => inferInstanceAs (Decidable True)
  | .resume k (.inserted _) => inferInstanceAs (Decidable (∀ request ∈ s.requests[k]?,
      request.dto.username ∉ s.users.keys ∧ (Postgres.text (trim request.dto.nickname)).isSome))

def Signups.Classified (s : Signups) : Prop :=
  ∀ k dto e, s.Settled k dto (.error e) → e = conflictException

theorem classified_step [Postgres] {s t : Signups} {input : SignupInput} (h : s.Classified)
    (haccepted : InsertAccepted s input) (hmove : SignupsMove s input t) : t.Classified := by
  intro j dto e hj
  cases hmove with
  | waits _ hsettled => exact h j dto e ((hsettled _ _ _).mp hj)
  | settles hk hmove hsettled =>
    obtain ⟨users, requests⟩ := t
    rcases (hsettled _ _ _).mp hj with hold | ⟨-, -, hnew⟩
    · exact h j dto e hold
    · cases hmove with
      | taken hmem => exact Except.error.inj hnew
      | created id hfree hname hrow => cases hnew
      | refused id hwhy =>
        obtain ⟨hfree, hstorable⟩ := haccepted _ hk
        rcases hwhy with hmem | htext
        · exact absurd hmem hfree
        · rw [htext] at hstorable
          cases hstorable

/-- What a run has made of the requests for a username. -/
structure SignedUpOnce [Postgres] (before : Users) (s : Signups) (username : JsString) : Prop where
  changes : ∀ row, row.username = username → (row ∈ s.users.rows ↔
    row ∈ before.rows ∨ ∃ k dto user, s.Settled k dto (.ok user) ∧ KeptAs user row)
  stored : ∀ k dto user, s.Settled k dto (.ok user) → dto.username = username →
    user.username = username ∧ ∃ row ∈ s.users.rows, KeptAs user row
  classified : ∀ k dto e, s.Settled k dto (.error e) → dto.username = username →
    e = conflictException
  once : username ∉ before.keys → (∃ k dto result, s.Settled k dto result ∧
    dto.username = username) → ∃! k, ∃ dto user, s.Settled k dto (.ok user) ∧
      dto.username = username
  never : username ∈ before.keys → ∀ k dto result, s.Settled k dto result →
    dto.username = username → result = .error conflictException

theorem signups_once [Postgres] {before : Users} {s : Signups}
    (hr : Reachable ((signups before).restrict InsertAccepted) s) (username : JsString) :
    SignedUpOnce before s username := by
  have hinvariant : SignupsInvariant before s ∧ s.Classified := by
    apply hr.invariant (I := fun s => SignupsInvariant before s ∧ s.Classified)
    · rintro s rfl
      refine ⟨.start before, ?_⟩
      intro k dto e h
      cases h
    · intro s input t os h hstep
      have hmove := signupsStep_move hstep.2
      exact ⟨h.1.step hmove, classified_step h.2 hstep.1 hmove⟩
  obtain ⟨h, hclassified⟩ := hinvariant
  constructor
  case changes =>
    intro row hname
    constructor
    · exact h.origin row
    · rintro (hold | ⟨k, dto, user, hk, hkept⟩)
      · exact h.kept row hold
      · obtain ⟨-, -, x, hx, hkept'⟩ := h.stored k dto user hk
        exact hkept.unique hkept' ▸ hx
  case stored =>
    intro k dto user hk hname
    obtain ⟨hsame, -, hrow⟩ := h.stored k dto user hk
    exact ⟨hsame.trans hname, hrow⟩
  case classified =>
    intro k dto e hk hname
    exact hclassified k dto e hk
  case once =>
    rintro hfree ⟨k, dto, result, hk, hname⟩
    have hcreated : ∃ k dto user, s.Settled k dto (.ok user) ∧ dto.username = username := by
      cases result with
      | ok user => exact ⟨k, dto, user, hk, hname⟩
      | error e =>
        obtain rfl := hclassified k dto e hk
        obtain ⟨row, hrow, hkey⟩ := mem_keys.mp (h.conflict k dto hk)
        rcases h.origin row hrow with hold | ⟨j, dto', user, hj, hkept⟩
        · exact absurd (hname ▸ hkey ▸ key_mem_keys hold) hfree
        · refine ⟨j, dto', user, hj, ?_⟩
          rw [← (h.stored j dto' user hj).1, ← hkept.username, hkey, hname]
    obtain ⟨j, dto', user, hj, hname'⟩ := hcreated
    refine ⟨j, ⟨dto', user, hj, hname'⟩, ?_⟩
    rintro i ⟨dto'', user', hi, hname''⟩
    exact h.unique i j dto'' dto' user' user hi hj (hname''.trans hname'.symm)
  case never =>
    intro htaken k dto result hk hname
    cases result with
    | ok user => exact absurd (hname ▸ htaken) (h.stored k dto user hk).2.1
    | error e => rw [hclassified k dto e hk]

/-! ### Two requests for one username -/

def plainSteps (k : ℕ) : List SignupInput :=
  [.resume k .lookedUp, .resume k (.hashed (utf16 "$2b$10$hash")),
    .resume k (.inserted ⟨BitVec.ofNat 128 k⟩)]

/-- The second request looks the username up after the first one's insert. -/
def oneAfterTheOther : List SignupInput :=
  [.arrive plainSignup, .arrive plainSignup] ++ plainSteps 0 ++ [.resume 1 .lookedUp]

theorem signups_once_sample :
    @SignedUpOnce plainPostgres Table.empty
      ((exec (restrictStep (@signupsStep plainPostgres) (@InsertAccepted plainPostgres))
        ⟨Table.empty, []⟩ oneAfterTheOther).get (by decide +kernel)).1 (utf16 "kim") :=
  @signups_once plainPostgres _ _ ⟨_, _, exec_restrict_run (by decide +kernel)⟩ _

/-- Both requests look the username up before either inserts. -/
def lookupsFirst : List SignupInput :=
  [.arrive plainSignup, .arrive plainSignup, .resume 1 .lookedUp] ++ plainSteps 0 ++
    (plainSteps 1).tail

/-- The service after the steps of `lookupsFirst`. -/
def signedUpTwice : Signups :=
  ((exec (@signupsStep plainPostgres) ⟨Table.empty, []⟩ lookupsFirst).get (by decide +kernel)).1

theorem second_insert_unclassified :
    Reachable (@signups plainPostgres Table.empty) signedUpTwice ∧
      (∃ user, signedUpTwice.Settled 0 plainSignup (.ok user)) ∧
      signedUpTwice.Settled 1 plainSignup (.error internalServerError) ∧
      ¬ @SignedUpOnce plainPostgres Table.empty signedUpTwice (utf16 "kim") := by
  have hcreated : signedUpTwice.Settled 0 plainSignup
      (.ok ⟨⟨0⟩, utf16 "kim", utf16 "Kim", utf16 "$2b$10$hash"⟩) := by
    unfold Signups.Settled
    decide +kernel
  have hrefused : signedUpTwice.Settled 1 plainSignup (.error internalServerError) := by
    unfold Signups.Settled
    decide +kernel
  refine ⟨⟨_, _, exec_get_run (by decide +kernel)⟩, ⟨_, hcreated⟩, hrefused, ?_⟩
  intro h
  have hconflict := @SignedUpOnce.classified plainPostgres _ _ _ h 1 _ _ hrefused rfl
  exact absurd hconflict (by decide)

end GachaMind.Accounts
