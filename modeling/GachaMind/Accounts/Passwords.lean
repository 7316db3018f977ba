import GachaMind.Lib.Repeated
import GachaMind.Accounts.Signups

/-!
# Passwords (apps/user/src/auth)

bcrypt is a parameter. What it makes of a password depends on 72 bytes only, those of the password
and of a zero byte after it, over and over: a longer password is cut. `signup` refuses longer ones,
`login` does not.
-/

namespace GachaMind.Accounts
open GachaMind.Js GachaMind.Shared GachaMind.User KeyedTable Repeated

/-! ### bcrypt -/

class Bcrypt where
  Salt : Type
  /-- The UTF-8 encoding, also of a text with lone surrogates. -/
  bytes : JsString → List UInt8
  hash : JsString → Salt → JsString
  compare : JsString → JsString → Bool

def bcryptKey [Bcrypt] (password : JsString) : List UInt8 :=
  cycleTo MAX_PASSWORD_LENGTH (Bcrypt.bytes password ++ [0])

/-- What `compare` is trusted with: hashes of different keys are never mistaken for each other. -/
structure Bcrypt.Lawful [Bcrypt] : Prop where
  ascii : ∀ s, IsAscii s → bytes s = s.map UInt16.toUInt8
  compares : ∀ password salt given,
    compare given (hash password salt) = true ↔ bcryptKey given = bcryptKey password

/-- What the rules of `signup` let through. -/
structure Allowed (password : JsString) : Prop where
  matched : matchesPassword password = true
  length : password.length ≤ MAX_PASSWORD_LENGTH

theorem matchesPassword_iff {s : JsString} :
    matchesPassword s = true ↔ s ≠ [] ∧ ∀ c ∈ s, 0x20 ≤ c ∧ c ≤ 0x7E := by
  simp [matchesPassword]

theorem isAscii_of_le {s : JsString} (h : ∀ c ∈ s, c ≤ 0x7E) : IsAscii s := by
  intro c hc
  have hle := h c hc
  simp only [UInt16.le_iff_toNat_le, UInt16.lt_iff_toNat_lt, UInt16.reduceToNat] at hle ⊢
  omega

theorem isAscii_of_matchesPassword {s : JsString} (h : matchesPassword s = true) : IsAscii s :=
  isAscii_of_le fun c hc => ((matchesPassword_iff.mp h).2 c hc).2

theorem validatorLength_ascii {s : JsString} (h : IsAscii s) : validatorLength s = s.length := by
  induction s with
  | nil => rfl
  | cons c s ih =>
    obtain ⟨hc, hs⟩ := List.forall_mem_cons.mp h
    have hlt : c < 0xD800 := by
      simp only [UInt16.lt_iff_toNat_lt, UInt16.reduceToNat] at hc ⊢
      omega
    rw [validatorLength, codePoints_cons hlt, List.length_cons, List.length_cons]
    exact congrArg (· + 1) (ih hs)

theorem SignupDto.allowed (dto : SignupDto) : Allowed dto.password where
  matched := dto.password_matches
  length := by
    rw [← validatorLength_ascii (isAscii_of_matchesPassword dto.password_matches)]
    exact dto.password_length.2

theorem toUInt8_inj {c d : CodeUnit} (hc : c < 0x80) (hd : d < 0x80)
    (h : c.toUInt8 = d.toUInt8) : c = d := by
  have hnat := congrArg UInt8.toNat h
  simp only [UInt16.lt_iff_toNat_lt, UInt16.reduceToNat] at hc hd
  simp only [UInt16.toNat_toUInt8] at hnat
  apply UInt16.toNat_inj.mp
  omega

theorem map_toUInt8_inj {s t : JsString} (hs : IsAscii s) (ht : IsAscii t)
    (h : s.map UInt16.toUInt8 = t.map UInt16.toUInt8) : s = t := by
  induction s generalizing t with
  | nil =>
    rw [List.map_nil, eq_comm, List.map_eq_nil_iff] at h
    exact h.symm
  | cons c s ih =>
    obtain _ | ⟨d, t⟩ := t
    · cases h
    · obtain ⟨hc, hs⟩ := List.forall_mem_cons.mp hs
      obtain ⟨hd, ht⟩ := List.forall_mem_cons.mp ht
      obtain ⟨hcd, hst⟩ := List.cons.inj h
      rw [toUInt8_inj hc hd hcd, ih hs ht hst]

theorem zero_notMem_bytes {s : JsString} (h : matchesPassword s = true) :
    (0 : UInt8) ∉ s.map UInt16.toUInt8 := by
  intro hmem
  obtain ⟨c, hc, hzero⟩ := List.mem_map.mp hmem
  obtain ⟨hlow, hhigh⟩ := (matchesPassword_iff.mp h).2 c hc
  have hnat := congrArg UInt8.toNat hzero
  simp only [UInt16.le_iff_toNat_le, UInt16.reduceToNat] at hlow hhigh
  simp only [UInt16.toNat_toUInt8, UInt8.toNat_zero] at hnat
  omega

/-- bcrypt tells allowed passwords apart. -/
theorem bcryptKey_inj [Bcrypt] (hb : Bcrypt.Lawful) {s t : JsString} (hs : Allowed s)
    (ht : Allowed t) (h : bcryptKey s = bcryptKey t) : s = t := by
  have hascii := isAscii_of_matchesPassword hs.matched
  have hascii' := isAscii_of_matchesPassword ht.matched
  rw [bcryptKey, bcryptKey, hb.ascii s hascii, hb.ascii t hascii'] at h
  have hbytes := eq_of_cycleTo (zero_notMem_bytes hs.matched) (zero_notMem_bytes ht.matched)
    (by simpa using hs.length) (by simpa using ht.length) h
  exact map_toUInt8_inj hascii hascii' hbytes

/-! ### `login` -/

/-- A request that has passed the validation pipe: two strings. -/
structure LoginDto where
  username : JsString
  password : JsString
  deriving DecidableEq

def unauthorizedException : HttpException :=
  ⟨401, utf16 "아이디 또는 비밀번호가 올바르지 않습니다."⟩

/-- Where `login` waits, and what it has returned or thrown. -/
inductive LoginStage
  | lookup
  | comparing (user : User)
  | settled (result : Except HttpException User)
  deriving DecidableEq

def login [Bcrypt] (users : Users) (dto : LoginDto) : LoginStage → Option LoginStage
  | .lookup =>
    match findByUsername users dto.username with
    | none => some (.settled (.error unauthorizedException))
    | some user => some (.comparing user)
  | .comparing user =>
    if Bcrypt.compare dto.password user.passwordHash then some (.settled (.ok user))
    else some (.settled (.error unauthorizedException))
  | .settled _ => none

end GachaMind.Accounts
