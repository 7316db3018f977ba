import GachaMind.Js.Buffer
import GachaMind.User.Intake

/-!
# Accounts (apps/user/src/auth, apps/user/src/user)

The table `users`, what `signup` writes to it and what `issueToken` signs. A username has passed
its pattern and a hash is bcrypt's, so both are printable ASCII and stored as they are; a nickname
is any text, stored as Postgres reads it. The column `createdAt` is left out.
-/

namespace GachaMind.Accounts
open GachaMind.Js GachaMind.Shared GachaMind.User KeyedTable

/-! ### The request (dto/signup.dto.ts; rules.ts has a copy of `MAX_NICKNAME_LENGTH`) -/

def MAX_PASSWORD_LENGTH : ℕ := 72

/-- What `@Length` measures: a surrogate pair is one character. -/
def validatorLength (s : JsString) : ℕ := (codePoints s).length

/-- `USERNAME_PATTERN`. -/
def matchesUsername (s : JsString) : Bool := !s.isEmpty && s.all fun c => 0x21 ≤ c && c ≤ 0x7E

/-- `PASSWORD_PATTERN`. -/
def matchesPassword (s : JsString) : Bool := !s.isEmpty && s.all fun c => 0x20 ≤ c && c ≤ 0x7E

/-- A request that has passed the validation pipe. -/
structure SignupDto where
  username : JsString
  password : JsString
  nickname : JsString
  username_length : 1 ≤ validatorLength username
  username_matches : matchesUsername username = true
  password_length : 1 ≤ validatorLength password ∧ validatorLength password ≤ MAX_PASSWORD_LENGTH
  password_matches : matchesPassword password = true
  nickname_length : 1 ≤ validatorLength nickname ∧ validatorLength nickname ≤ MAX_NICKNAME_LENGTH
  deriving DecidableEq

/-! ### The table -/

structure User where
  id : Uuid
  username : JsString
  nickname : JsString
  passwordHash : JsString
  deriving DecidableEq

abbrev Users := Table User.username

def findByUsername (users : Users) (username : JsString) : Option User := users.get? username

/-- `UserService.create`: the table with the new row, and the entity that `save` returns, which
keeps the texts that it was given. A refused insert is `none`. -/
def create [Postgres] (users : Users) (id : Uuid) (username nickname passwordHash : JsString) :
    Option (Users × User) := do
  let stored ← Postgres.text nickname
  if h : username ∈ users.keys then none
  else
    return (users.insertNew ⟨id, username, stored, passwordHash⟩ h,
      ⟨id, username, nickname, passwordHash⟩)

/-- The last step of `signup`. -/
def insertUser [Postgres] (users : Users) (id : Uuid) (dto : SignupDto) (passwordHash : JsString) :
    Option (Users × User) :=
  create users id dto.username (trim dto.nickname) passwordHash

theorem insertUser_eq_some [Postgres] {users users' : Users} {id : Uuid} {dto : SignupDto}
    {passwordHash : JsString} {user : User} :
    insertUser users id dto passwordHash = some (users', user) ↔
      ∃ stored, Postgres.text (trim dto.nickname) = some stored ∧
        ∃ h : dto.username ∉ users.keys,
          users' = users.insertNew ⟨id, dto.username, stored, passwordHash⟩ h ∧
          user = ⟨id, dto.username, trim dto.nickname, passwordHash⟩ := by
  simp only [insertUser, create, Option.bind_eq_bind, Option.bind_eq_some_iff]
  constructor
  · rintro ⟨stored, hstored, h⟩
    split_ifs at h with hfree
    obtain ⟨rfl, rfl⟩ := Prod.mk.inj (Option.some.inj h)
    exact ⟨stored, hstored, hfree, rfl, rfl⟩
  · rintro ⟨stored, hstored, hfree, rfl, rfl⟩
    exact ⟨stored, hstored, dif_neg hfree⟩

/-- The payload of the token, with the instants that the signer adds. -/
def issueToken (user : User) (iat exp : ℚ) : List (JsString × Json) :=
  [(utf16 "sub", .str (uuidText user.id)), (utf16 "username", .str user.username),
    (utf16 "nickname", .str user.nickname), (utf16 "iat", .num (.finite iat)),
    (utf16 "exp", .num (.finite exp))]

/-! ### A request -/

def signupAs (nickname : JsString)
    (h : 1 ≤ validatorLength nickname ∧ validatorLength nickname ≤ MAX_NICKNAME_LENGTH) :
    SignupDto where
  username := utf16 "kim"
  password := utf16 "secret"
  nickname := nickname
  username_length := by decide
  username_matches := by decide
  password_length := by decide
  password_matches := by decide
  nickname_length := h

def plainSignup : SignupDto := signupAs (utf16 " Kim ") (by decide)

end GachaMind.Accounts
