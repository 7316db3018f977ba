import GachaMind.Js.Uri
import GachaMind.User.History

/-!
# Events as user receives them (apps/user/src/history/internal.controller.ts)

The body of `POST /internal/games` is the event as game-session serialised it: ids as texts,
the instant as its ISO 8601 text. The validation pipe checks it against the DTO and answers 400;
`recordGame` answers 200 with what `saveGameResult` returns, and 500 where a statement was
refused.
-/

namespace GachaMind.User
open GachaMind.Js GachaMind.Shared KeyedTable

/-! ### Ids -/

def dash : CodeUnit := 0x2D

def dashes : List ℕ := [8, 13, 18, 23]

/-- A lower-case hexadecimal digit. -/
def hexChar (n : ℕ) : CodeUnit := if n < 10 then 0x30 + n.toUInt16 else 0x57 + n.toUInt16

def hexDigitOf (u : Uuid) (k : ℕ) : ℕ := u.bits.toNat / 16 ^ (31 - k) % 16

/-- The digit that place `i` of the text shows. -/
def digitPlace (i : ℕ) : ℕ := i - dashes.countP fun d => decide (d < i)

/-- What `randomUUID` returns: `xxxxxxxx-xxxx-xxxx-xxxx-xxxxxxxxxxxx`. -/
def uuidText (u : Uuid) : JsString :=
  (List.range 36).map fun i => if i ∈ dashes then dash else hexChar (hexDigitOf u (digitPlace i))

theorem hexDigitOf_lt (u : Uuid) (k : ℕ) : hexDigitOf u k < 16 := Nat.mod_lt _ (by decide)

theorem hexChar_isHexDigit {n : ℕ} (h : n < 16) : isHexDigit (hexChar n) = true := by
  have hall : ∀ n < 16, isHexDigit (hexChar n) = true := by decide
  exact hall n h

theorem matchesUuid_uuidText (u : Uuid) : matchesUuid (uuidText u) = true := by
  simp only [matchesUuid, uuidText, List.length_map, List.length_range, Bool.and_eq_true,
    List.all_eq_true]
  refine ⟨rfl, fun p hp => ?_⟩
  obtain ⟨c, i⟩ := p
  obtain ⟨hi, hc⟩ := List.mem_zipIdx' hp
  simp only [List.getElem_map, List.getElem_range] at hc
  by_cases hd : i ∈ dashes
  · rw [if_pos hd] at hc
    have hplace : i ∈ [8, 13, 18, 23] := hd
    rw [if_pos hplace, hc]
    rfl
  · rw [if_neg hd] at hc
    have hplace : i ∉ [8, 13, 18, 23] := hd
    rw [if_neg hplace, hc]
    exact hexChar_isHexDigit (hexDigitOf_lt u _)

/-! ### Reading an id back -/

/-- The number that hexadecimal digits write, dashes skipped. -/
def readHex (s : JsString) : ℕ :=
  (s.filter fun c => c ≠ dash).foldl (fun n c => 16 * n + (hexDigit c).getD 0) 0

theorem hexDigit_hexChar {n : ℕ} (h : n < 16) : hexDigit (hexChar n) = some n := by
  have hall : ∀ n < 16, hexDigit (hexChar n) = some n := by decide
  exact hall n h

theorem hexChar_ne_dash {n : ℕ} (h : n < 16) : hexChar n ≠ dash := by
  have hall : ∀ n < 16, hexChar n ≠ dash := by decide
  exact hall n h

theorem uuidText_digits (u : Uuid) :
    (uuidText u).filter (fun c => c ≠ dash) =
      (List.range 32).map fun k => hexChar (hexDigitOf u k) := by
  have hplaces : ((List.range 36).filter fun i => decide (i ∉ dashes)).map digitPlace =
      List.range 32 := by decide
  have hkept : ∀ i ∈ List.range 36, ((fun c => decide (c ≠ dash)) ∘ fun i =>
      if i ∈ dashes then dash else hexChar (hexDigitOf u (digitPlace i))) i =
        decide (i ∉ dashes) := by
    intro i _
    by_cases hd : i ∈ dashes
    · simp [hd]
    · simp [hd, hexChar_ne_dash (hexDigitOf_lt u _)]
  rw [uuidText, List.filter_map, ← hplaces, List.map_map, List.filter_congr hkept]
  refine List.map_congr_left fun i hi => ?_
  rw [if_neg (of_decide_eq_true (List.mem_filter.mp hi).2)]
  rfl

theorem foldl_hexDigits (u : Uuid) (k : ℕ) (hk : k ≤ 32) :
    ((List.range k).map fun i => hexChar (hexDigitOf u i)).foldl
      (fun n c => 16 * n + (hexDigit c).getD 0) 0 = u.bits.toNat / 16 ^ (32 - k) := by
  induction k with
  | zero =>
    have hlt : u.bits.toNat < 16 ^ 32 := u.bits.isLt
    rw [Nat.sub_zero, Nat.div_eq_of_lt hlt]
    rfl
  | succ k ih =>
    rw [List.range_succ, List.map_append, List.foldl_append, ih (by omega)]
    simp only [List.map_cons, List.map_nil, List.foldl_cons, List.foldl_nil]
    rw [hexDigit_hexChar (hexDigitOf_lt u k), Option.getD_some, hexDigitOf]
    have hexp : 32 - k = (31 - k) + 1 := by omega
    have hexp' : 32 - (k + 1) = 31 - k := by omega
    rw [hexp, hexp', pow_succ, ← Nat.div_div_eq_div_mul]
    omega

theorem readHex_uuidText (u : Uuid) : readHex (uuidText u) = u.bits.toNat := by
  rw [readHex, uuidText_digits, foldl_hexDigits u 32 le_rfl]
  simp

theorem uuid_eq {u v : Uuid} (h : u.bits.toNat = v.bits.toNat) : u = v :=
  congrArg Uuid.mk (BitVec.eq_of_toNat_eq h)

theorem uuidText_inj {u v : Uuid} (h : uuidText u = uuidText v) : u = v :=
  uuid_eq (by rw [← readHex_uuidText, h, readHex_uuidText])

/-! ### Instants -/

/-- The last `k` decimal digits. -/
def decimal (k : ℕ) (n : ℤ) : JsString :=
  (List.range k).map fun i => 0x30 + (n / 10 ^ (k - 1 - i) % 10).toNat.toUInt16

structure CivilDate where
  year : ℤ
  month : ℤ
  day : ℤ
  deriving DecidableEq

/-- The date in the Gregorian calendar. The year is counted from March. -/
def civilDate (days : ℤ) : CivilDate :=
  let z := days + 719468
  let doe := z % 146097
  let yoe := (doe - doe / 1460 + doe / 36524 - doe / 146096) / 365
  let doy := doe - (365 * yoe + yoe / 4 - yoe / 100)
  let mp := (5 * doy + 2) / 153
  let month := if mp < 10 then mp + 3 else mp - 9
  { year := yoe + z / 146097 * 400 + if month ≤ 2 then 1 else 0
    month := month
    day := doy - (153 * mp + 2) / 5 + 1 }

def yearText (year : ℤ) : JsString :=
  if 0 ≤ year ∧ year ≤ 9999 then decimal 4 year
  else if 0 ≤ year then utf16 "+" ++ decimal 6 year
  else utf16 "-" ++ decimal 6 (-year)

/-- `new Date(ms).toISOString()`. -/
def toISOString (ms : ℤ) : JsString :=
  let date := civilDate (ms / 86400000)
  let time := ms % 86400000
  yearText date.year ++ utf16 "-" ++ decimal 2 date.month ++ utf16 "-" ++ decimal 2 date.day ++
    utf16 "T" ++ decimal 2 (time / 3600000) ++ utf16 ":" ++ decimal 2 (time / 60000 % 60) ++
    utf16 ":" ++ decimal 2 (time / 1000 % 60) ++ utf16 "." ++ decimal 3 (time % 1000) ++ utf16 "Z"

example : toISOString 1772323199987 = utf16 "2026-02-28T23:59:59.987Z" ∧
    toISOString (-1) = utf16 "1969-12-31T23:59:59.999Z" := by decide +kernel

/-! ### The validation pipe -/

def readUuid (s : JsString) : Option UuidText :=
  if h : matchesUuid s = true then some ⟨s, h⟩ else none

/-- `@IsOptional` lets `null` pass. -/
def readUserId : Option JsString → Option (Option UuidText)
  | none => some none
  | some userId => (readUuid userId).map some

def validatePlayer (player : GameResultPlayer) : Option GameResultPlayerDto := do
  let userId ← readUserId player.userId
  if h : 1 ≤ player.rank then
    return {
      playerId := ⟨uuidText player.playerId, matchesUuid_uuidText _⟩
      userId := userId
      nickname := player.nickname
      score := player.score
      rank := player.rank
      rank_min := h }
  else none

/-- The event that has passed the pipe, `none` where it is refused. -/
def validate (event : GameFinishedEvent) : Option GameFinishedDto := do
  let players ← event.players.mapM validatePlayer
  if h : players ≠ [] then
    return {
      gameId := ⟨uuidText event.gameId, matchesUuid_uuidText _⟩
      roomId := event.roomId
      finishedAt := toISOString event.finishedAt
      roundsPlayed := event.roundsPlayed
      players := players
      players_min := h }
  else none

theorem validate_spec {event : GameFinishedEvent} {dto : GameFinishedDto}
    (h : validate event = some dto) : dto.gameId.text = uuidText event.gameId ∧
      event.players.mapM validatePlayer = some dto.players := by
  simp only [validate, Option.bind_eq_bind, Option.bind_eq_some_iff] at h
  obtain ⟨players, hplayers, h⟩ := h
  split_ifs at h with hne
  obtain rfl := Option.some.inj h
  exact ⟨rfl, hplayers⟩

theorem validate_rest {event : GameFinishedEvent} {dto : GameFinishedDto}
    (h : validate event = some dto) : dto.roomId = event.roomId ∧
      dto.finishedAt = toISOString event.finishedAt ∧ dto.roundsPlayed = event.roundsPlayed := by
  simp only [validate, Option.bind_eq_bind, Option.bind_eq_some_iff] at h
  obtain ⟨players, -, h⟩ := h
  split_ifs at h
  obtain rfl := Option.some.inj h
  exact ⟨rfl, rfl, rfl⟩

/-! ### recordGame -/

/-- The status of the answer, and `saved` of its body. -/
structure Response where
  status : ℕ
  saved : Option Bool
  deriving DecidableEq

def recordGame [Postgres] (t : HistoryTables) (event : GameFinishedEvent) :
    HistoryTables × Response :=
  match validate event with
  | none => (t, ⟨400, none⟩)
  | some dto =>
    match saveGameResult t dto with
    | none => (t, ⟨500, none⟩)
    | some (t, saved) => (t, ⟨200, some saved⟩)

theorem recordGame_cases [Postgres] (t : HistoryTables) (event : GameFinishedEvent) :
    (validate event = none ∧ recordGame t event = (t, ⟨400, none⟩)) ∨
    ∃ dto, validate event = some dto ∧
      ((saveGameResult t dto = none ∧ recordGame t event = (t, ⟨500, none⟩)) ∨
        ∃ t' isNew, saveGameResult t dto = some (t', isNew) ∧
          recordGame t event = (t', ⟨200, some isNew⟩)) := by
  unfold recordGame
  cases hv : validate event with
  | none => exact .inl ⟨rfl, rfl⟩
  | some dto =>
    refine .inr ⟨dto, rfl, ?_⟩
    cases hs : saveGameResult t dto with
    | none => exact .inl ⟨rfl, by simp only [hs]⟩
    | some r => exact .inr ⟨r.1, r.2, rfl, by simp only [hs]⟩

/-! ### A concrete Postgres, for fixed inputs -/

/-- The decimal number at place `i` of a text, `k` digits long. -/
def readDecimal (s : JsString) (i k : ℕ) : ℤ :=
  ((s.drop i).take k).foldl (fun n c => 10 * n + ((c.toNat : ℤ) - 0x30)) 0

/-- The days from 1970-01-01 to a date of the Gregorian calendar. -/
def daysUntil (date : CivilDate) : ℤ :=
  let y := if date.month ≤ 2 then date.year - 1 else date.year
  let mp := if date.month ≤ 2 then date.month + 9 else date.month - 3
  365 * y + y / 4 - y / 100 + y / 400 + (153 * mp + 2) / 5 + date.day - 1 - 719468

/-- The microseconds of a text `YYYY-MM-DDTHH:MM:SS.sssZ`. -/
def readTimestamp (s : JsString) : Option ℤ :=
  if s.length = 24 then
    let days := daysUntil ⟨readDecimal s 0 4, readDecimal s 5 2, readDecimal s 8 2⟩
    let seconds := readDecimal s 11 2 * 3600 + readDecimal s 14 2 * 60 + readDecimal s 17 2
    some (((days * 86400 + seconds) * 1000 + readDecimal s 20 3) * 1000)
  else none

@[reducible] def plainPostgres : Postgres where
  uuid s := if matchesUuid s then some ⟨BitVec.ofNat 128 (readHex s)⟩ else none
  timestamptz := readTimestamp
  text s := if 0 ∈ s then none else some s

theorem plainPostgres_uuid (u : Uuid) : plainPostgres.uuid (uuidText u) = some u := by
  show (if matchesUuid (uuidText u) then _ else _) = _
  rw [if_pos (matchesUuid_uuidText u), readHex_uuidText, BitVec.ofNat_toNat, BitVec.setWidth_eq]

example : readTimestamp (toISOString 1772323199987) = some 1772323199987000 := by decide +kernel

end GachaMind.User
