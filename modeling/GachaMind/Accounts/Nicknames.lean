import GachaMind.Lib.Strip
import GachaMind.GameSession.Auth
import GachaMind.Accounts.Users

/-!
# The name of a member in a room

`signup` validates a nickname and then trims it, counting characters; `handleJoin` trims the
nickname of the token and cuts it, counting code units, with a name for those who have none left.
-/

namespace GachaMind.Accounts
open GachaMind.Js GachaMind.Shared GachaMind.User GachaMind.GameSession KeyedTable

/-! ### Trimming twice -/

theorem trim_trim (s : JsString) : trim (trim s) = trim s := Strip.strip_strip isWhiteSpace s

/-! ### Well-formed texts -/

/-- `s.toWellFormed()`: what is left of a text that was written as UTF-8. -/
def toWellFormed (s : JsString) : JsString := (codePoints s).flatMap codeUnits

theorem length_codeUnits_ofNat {n : ℕ} (h : n.isValidChar) :
    (codeUnits (Char.ofNat n)).length = if n < 0x10000 then 1 else 2 := by
  have hval : (Char.ofNat n).val.toNat = n := by
    have hnat := Char.toNat_ofNat n
    rwa [if_pos h] at hnat
  have hlt : (Char.ofNat n).val < 0x10000 ↔ n < 0x10000 := by
    rw [UInt32.lt_iff_toNat_lt, hval]
    rfl
  unfold codeUnits
  simp only [hlt]
  split_ifs <;> rfl

theorem length_toWellFormed (s : JsString) : (toWellFormed s).length = s.length := by
  have hunit : ∀ {c : CodeUnit}, isHighSurrogate c = false → isLowSurrogate c = false →
      (codeUnits (Char.ofNat c.toNat)).length = 1 := by
    intro c hhigh hlow
    have hlt := c.toNat_lt
    simp only [isHighSurrogate, isLowSurrogate, Bool.and_eq_false_iff, decide_eq_false_iff_not,
      UInt16.le_iff_toNat_le, UInt16.reduceToNat] at hhigh hlow
    rw [length_codeUnits_ofNat (by unfold Nat.isValidChar; omega), if_pos hlt]
  have hreplaced : (codeUnits replacement).length = 1 := by decide
  unfold toWellFormed
  fun_induction codePoints s with
  | case1 => rfl
  | case2 c =>
    rw [List.flatMap_singleton, List.length_singleton]
    by_cases hs : (isHighSurrogate c || isLowSurrogate c) = true
    · rw [if_pos hs, hreplaced]
    · rw [if_neg hs]
      obtain ⟨hhigh, hlow⟩ := Bool.or_eq_false_iff.mp (Bool.not_eq_true _ ▸ hs)
      exact hunit hhigh hlow
  | case3 c d rest hhigh hlow ih =>
    have hpair : (codeUnits (Char.ofNat
        (0x10000 + (c.toNat - 0xD800) * 0x400 + (d.toNat - 0xDC00)))).length = 2 := by
      simp only [isHighSurrogate, isLowSurrogate, Bool.and_eq_true, decide_eq_true_eq,
        UInt16.le_iff_toNat_le, UInt16.reduceToNat] at hhigh hlow
      rw [length_codeUnits_ofNat (by unfold Nat.isValidChar; omega), if_neg (by omega)]
    rw [List.flatMap_cons, List.length_append, hpair, ih, List.length_cons, List.length_cons]
    omega
  | case4 c d rest hhigh hlow ih =>
    rw [List.flatMap_cons, List.length_append, hreplaced, ih]
    exact Nat.add_comm 1 _
  | case5 c d rest hhigh hlow ih =>
    rw [List.flatMap_cons, List.length_append, hreplaced, ih]
    exact Nat.add_comm 1 _
  | case6 c d rest hhigh hlow ih =>
    have hone := hunit (Bool.not_eq_true _ ▸ hhigh) (Bool.not_eq_true _ ▸ hlow)
    rw [List.flatMap_cons, List.length_append, hone, ih]
    exact Nat.add_comm 1 _

/-! ### The name in a room -/

/-- A name that `signup` and `handleJoin` both leave as it is. -/
structure FitsAsIs (nickname : JsString) : Prop where
  nonempty : trim nickname ≠ []
  length : (trim nickname).length ≤ MAX_NICKNAME_LENGTH
  wellFormed : toWellFormed (trim nickname) = trim nickname

theorem displayName_trim_iff (nickname : JsString) :
    displayName (trim nickname) = toWellFormed (trim nickname) ↔ FitsAsIs nickname := by
  have hlength := length_toWellFormed (trim nickname)
  have hdisplay : displayName (trim nickname) =
      if (trim nickname).take MAX_NICKNAME_LENGTH = [] then utf16 "익명"
      else (trim nickname).take MAX_NICKNAME_LENGTH := by
    rw [displayName, trim_trim]
    rfl
  rw [hdisplay]
  constructor
  · intro h
    split_ifs at h with hempty
    · have hnone : trim nickname = [] := by
        rcases List.take_eq_nil_iff.mp hempty with h0 | h0
        · exact absurd h0 (by decide)
        · exact h0
      rw [hnone] at h
      exact absurd h (by decide)
    · have hcut := congrArg List.length h
      rw [hlength, List.length_take] at hcut
      have hle : (trim nickname).length ≤ MAX_NICKNAME_LENGTH := by omega
      rw [List.take_of_length_le hle] at h hempty
      exact ⟨hempty, hle, h.symm⟩
  · intro h
    rw [List.take_of_length_le h.length, if_neg h.nonempty, h.wellFormed]

def issuedIdentity (user : User) : Identity := ⟨uuidText user.id, user.username, user.nickname⟩

/-- The identity as `identifyConnection` returns it for a token whose claims are strings. -/
def tokenOf (identity : Identity) : TokenIdentity :=
  ⟨.str identity.userId, some (.str identity.username), identity.nickname⟩

theorem payloadIdentity_issueToken (user : User) (iat exp : ℚ) :
    payloadIdentity (issueToken user iat exp) = some (tokenOf (issuedIdentity user)) := by
  have hsub : lookupField (utf16 "sub") (issueToken user iat exp) =
      some (.str (uuidText user.id)) := if_pos rfl
  have hname : lookupField (utf16 "nickname") (issueToken user iat exp) =
      some (.str user.nickname) := by
    have h1 : ¬ utf16 "sub" = utf16 "nickname" := by decide
    have h2 : ¬ utf16 "username" = utf16 "nickname" := by decide
    rw [issueToken, lookupField, if_neg h1, lookupField, if_neg h2, lookupField, if_pos rfl]
  have huser : lookupField (utf16 "username") (issueToken user iat exp) =
      some (.str user.username) := by
    have h1 : ¬ utf16 "sub" = utf16 "username" := by decide
    rw [issueToken, lookupField, if_neg h1, lookupField, if_pos rfl]
  have htruthy : isTruthy (.str (uuidText user.id)) = true := rfl
  rw [payloadIdentity, hsub, hname, huser]
  exact if_pos htruthy

/-- A connection whose session cookie holds a token with these claims plays under the name in
every room that it joins. -/
def PlaysAs (payload : JWTPayload) (name : JsString) : Prop :=
  ∀ (jwtVerify : JsString → Option JWTPayload) (cookie : Option JsString) (token : JsString)
    (identity : Identity), token ≠ [] →
    readCookie cookie SESSION_COOKIE_NAME = .ok (some token) → jwtVerify token = some payload →
    identifyConnection jwtVerify cookie = .ok (some (tokenOf identity)) →
    ∀ (env : Env) (room : Room) (socket : SocketId) (message : Option Json) (nickname : JsString),
      room.isFull = false → Server.joinNickname (some identity) message = .ok nickname →
      ((joinRoom env room socket (some identity) nickname).1.players.get? env.uuid).map
        Player.nickname = some name

theorem joinRoom_nickname (env : Env) {room : Room} (socket : SocketId)
    (identity : Option Identity) (nickname : JsString) (h : room.isFull = false) :
    ((joinRoom env room socket identity nickname).1.players.get? env.uuid).map Player.nickname =
      some (displayName nickname) := by
  have hseated : (joinRoom env room socket identity nickname).1.players =
      room.players.set (joiningPlayer env socket identity nickname) := by
    rw [joinRoom, h]
    show (seatPlayer room (joiningPlayer env socket identity nickname)).players = _
    unfold seatPlayer
    dsimp only
    split_ifs <;> rfl
  have hid : env.uuid = (joiningPlayer env socket identity nickname).id := rfl
  rw [hseated, get?_set, if_pos hid]
  rfl

theorem playsAs_issueToken (user : User) (iat exp : ℚ) (name : JsString) :
    PlaysAs (issueToken user iat exp) name ↔ displayName user.nickname = name := by
  constructor
  · intro h
    let jwtVerify : JsString → Option JWTPayload := fun token =>
      if token = utf16 "x.y.z" then some (issueToken user iat exp) else none
    have hread : readCookie (some (utf16 "gachamind_session=x.y.z")) SESSION_COOKIE_NAME =
        .ok (some (utf16 "x.y.z")) := by decide +kernel
    have hidentity : identifyConnection jwtVerify (some (utf16 "gachamind_session=x.y.z")) =
        .ok (some (tokenOf (issuedIdentity user))) := by
      have hempty : jwtVerify [] = none := if_neg (by decide)
      rw [identifyConnection_of_token hempty hread, ← payloadIdentity_issueToken user iat exp]
      rfl
    have hplays := h jwtVerify _ _ (issuedIdentity user) (by decide) hread rfl hidentity
      (plainEnv 0) (newRoom [] 1) 0 none _ rfl rfl
    rw [joinRoom_nickname (plainEnv 0) 0 _ _ rfl] at hplays
    exact Option.some.inj hplays
  · rintro rfl jwtVerify cookie token identity hne hread hverify hidentity env room socket message
      nickname hfull hjoin
    have hpayload : identifyConnection jwtVerify cookie =
        .ok (some (tokenOf (issuedIdentity user))) := by
      obtain ⟨c, rest, rfl⟩ := List.exists_cons_of_ne_nil hne
      rw [identifyConnection, hread, ← payloadIdentity_issueToken user iat exp]
      show Except.ok ((jwtVerify (c :: rest)).bind payloadIdentity) = _
      rw [hverify]
      rfl
    have hsame := Option.some.inj (Except.ok.inj (hidentity.symm.trans hpayload))
    have hname : identity.nickname = user.nickname := congrArg TokenIdentity.nickname hsame
    rw [joinRoom_nickname env socket _ _ hfull, ← hname]
    rw [Except.ok.inj hjoin]

/-- Parameters go to Postgres as UTF-8. -/
def StoresUtf8 [Postgres] : Prop :=
  ∀ s stored, Postgres.text s = some stored → stored = toWellFormed s

/-- The claims of a token that `signup` or `login` issues. -/
inductive IssuedFor (users : Users) (entity : User) : JWTPayload → Prop
  | signup (iat exp : ℚ) : IssuedFor users entity (issueToken entity iat exp)
  | login {row : User} (h : findByUsername users entity.username = some row) (iat exp : ℚ) :
      IssuedFor users entity (issueToken row iat exp)

theorem plays_as_stored_iff [Postgres] (htext : StoresUtf8) {users users' : Users} {id : Uuid}
    {dto : SignupDto} {passwordHash : JsString} {entity : User}
    (h : insertUser users id dto passwordHash = some (users', entity)) :
    (∀ payload, IssuedFor users' entity payload → ∀ row,
      findByUsername users' dto.username = some row → PlaysAs payload row.nickname) ↔
      FitsAsIs dto.nickname := by
  obtain ⟨stored, hstored, hfree, rfl, rfl⟩ := insertUser_eq_some.mp h
  have hutf8 := htext _ _ hstored
  have hrow : ∀ row, findByUsername (users.insertNew ⟨id, dto.username, stored, passwordHash⟩
      hfree) dto.username = some row ↔ row = ⟨id, dto.username, stored, passwordHash⟩ := by
    intro row
    rw [findByUsername, get?_insertNew, if_pos rfl, Option.some.injEq, eq_comm]
  constructor
  · intro hplays
    have hsignup := hplays _ (.signup 0 0) _ ((hrow _).mpr rfl)
    rw [playsAs_issueToken, hutf8] at hsignup
    exact (displayName_trim_iff dto.nickname).mp hsignup
  · intro hfits payload hissued row hfound
    obtain rfl := (hrow row).mp hfound
    have hsame : stored = trim dto.nickname := hutf8.trans hfits.wellFormed
    have hname : displayName (trim dto.nickname) = stored :=
      ((displayName_trim_iff dto.nickname).mpr hfits).trans hutf8.symm
    cases hissued with
    | signup iat exp => exact (playsAs_issueToken _ iat exp _).mpr hname
    | login hlogin iat exp =>
      obtain rfl := (hrow _).mp hlogin
      rw [playsAs_issueToken]
      show displayName stored = stored
      rw [hsame, hname, hsame]

/-! ### Three requests -/

@[reducible] def utf8Postgres : Postgres where
  uuid := plainPostgres.uuid
  timestamptz := plainPostgres.timestamptz
  text s := if 0 ∈ s then none else some (toWellFormed s)

theorem utf8Postgres_storesUtf8 : @StoresUtf8 utf8Postgres := by
  intro s stored h
  change (if 0 ∈ s then none else some (toWellFormed s)) = some stored at h
  split_ifs at h
  exact (Option.some.inj h).symm

/-- Three spaces. -/
def blankSignup : SignupDto := signupAs (utf16 "   ") (by decide)

/-- Eleven characters of two code units. -/
def emojiSignup : SignupDto := signupAs (utf16 "😀😀😀😀😀😀😀😀😀😀😀") (by decide +kernel)

/-- The account that one of these requests creates. -/
def signedUp (dto : SignupDto) : Option (Users × User) :=
  @insertUser utf8Postgres Table.empty ⟨1⟩ dto (utf16 "$2b$10$hash")

theorem plainSignup_plays_as_stored :
    (∀ payload, IssuedFor ((signedUp plainSignup).get (by decide +kernel)).1
        ((signedUp plainSignup).get (by decide +kernel)).2 payload → ∀ row,
      findByUsername ((signedUp plainSignup).get (by decide +kernel)).1 plainSignup.username =
        some row → PlaysAs payload row.nickname) ↔ FitsAsIs plainSignup.nickname :=
  @plays_as_stored_iff utf8Postgres utf8Postgres_storesUtf8 Table.empty _ ⟨1⟩ plainSignup
    (utf16 "$2b$10$hash") _ (Option.some_get (x := signedUp plainSignup) (by decide +kernel)).symm

theorem nicknames_not_kept :
    (∃ users entity, signedUp blankSignup = some (users, entity) ∧
      (findByUsername users (utf16 "kim")).map User.nickname = some [] ∧
      PlaysAs (issueToken entity 0 604800) (utf16 "익명") ∧
      ¬ PlaysAs (issueToken entity 0 604800) []) ∧
    ∃ users entity, signedUp emojiSignup = some (users, entity) ∧
      (findByUsername users (utf16 "kim")).map User.nickname = some emojiSignup.nickname ∧
      ¬ PlaysAs (issueToken entity 0 604800) emojiSignup.nickname := by
  simp only [playsAs_issueToken]
  refine ⟨⟨_, _, (Option.some_get (by decide +kernel)).symm, by decide +kernel⟩,
    _, _, (Option.some_get (by decide +kernel)).symm, by decide +kernel⟩

end GachaMind.Accounts
