import GachaMind.Lib.KeyedTable
import GachaMind.Shared

/-!
# Saved games (apps/user/src/history)

The tables `games`, `game_players` and `user_stats`, `HistoryService.saveGameResult`, which
adds one event to them, and the aggregate that the HistoryLookup migration computes. A
statement that Postgres refuses ends the transaction, which then leaves no trace: `none`.
The row ids of `game_players` and the columns `created_at` and `updated_at` are left out.
-/

namespace GachaMind.User
open GachaMind.Js GachaMind.Shared KeyedTable

/-- What the model takes from Postgres: how it reads the text of a parameter, `none` where it
refuses the text. Timestamps are in microseconds. -/
class Postgres where
  uuid : JsString → Option Uuid
  timestamptz : JsString → Option ℤ
  text : JsString → Option JsString

def int4 (n : ℤ) : Option ℤ := if -2 ^ 31 ≤ n ∧ n < 2 ^ 31 then some n else none

def int8 (n : ℤ) : Option ℤ := if -2 ^ 63 ≤ n ∧ n < 2 ^ 63 then some n else none

/-! ### The event (dto/game-finished.dto.ts) -/

def isHexDigit (c : CodeUnit) : Bool :=
  (0x30 ≤ c && c ≤ 0x39) || (0x41 ≤ c && c ≤ 0x46) || (0x61 ≤ c && c ≤ 0x66)

/-- `UUID_PATTERN`. -/
def matchesUuid (s : JsString) : Bool :=
  s.length == 36 && s.zipIdx.all fun p =>
    if p.2 ∈ [8, 13, 18, 23] then p.1 == 0x2D else isHexDigit p.1

/-- A text that has passed `@Matches(UUID_PATTERN)`. In particular it is not empty. -/
structure UuidText where
  text : JsString
  matched : matchesUuid text = true

structure GameResultPlayerDto where
  playerId : UuidText
  userId : Option UuidText
  nickname : JsString
  score : ℤ
  rank : ℕ
  rank_min : 1 ≤ rank

/-- `finishedAt` has passed `@IsDateString`, which is no code of the repository: any text is
allowed here. -/
structure GameFinishedDto where
  gameId : UuidText
  roomId : JsString
  finishedAt : JsString
  roundsPlayed : ℕ
  players : List GameResultPlayerDto
  players_min : players ≠ []

/-! ### The tables -/

structure Game where
  id : Uuid
  roomId : JsString
  roundsPlayed : ℤ
  finishedAt : ℤ
  playerCount : ℤ
  deriving DecidableEq

structure GamePlayer where
  gameId : Uuid
  playerId : Uuid
  userId : Option Uuid
  nickname : JsString
  score : ℤ
  rank : ℤ
  deriving DecidableEq

structure UserStats where
  userId : Uuid
  nickname : JsString
  gamesPlayed : ℤ
  wins : ℤ
  totalScore : ℤ
  bestScore : ℤ
  lastPlayedAt : ℤ
  deriving DecidableEq

structure HistoryTables where
  games : Table Game.id
  gamePlayers : List GamePlayer
  userStats : Table UserStats.userId

def HistoryTables.empty : HistoryTables := ⟨Table.empty, [], Table.empty⟩

/-! ### saveGameResult -/

def UserStats.add (row excluded : UserStats) : Option UserStats := do
  let gamesPlayed ← int4 (row.gamesPlayed + 1)
  let wins ← int4 (row.wins + excluded.wins)
  let totalScore ← int8 (row.totalScore + excluded.totalScore)
  return {
    userId := row.userId
    nickname := if row.lastPlayedAt ≤ excluded.lastPlayedAt then excluded.nickname else row.nickname
    gamesPlayed := gamesPlayed
    wins := wins
    totalScore := totalScore
    bestScore := max row.bestScore excluded.bestScore
    lastPlayedAt := max row.lastPlayedAt excluded.lastPlayedAt }

def HistoryTables.upsertStats (t : HistoryTables) (excluded : UserStats) : Option HistoryTables :=
  match t.userStats.get? excluded.userId with
  | none => some { t with userStats := t.userStats.set excluded }
  | some row => (row.add excluded).map fun row => { t with userStats := t.userStats.set row }

section
variable [Postgres]

/-- The parameters of the insert into `games`. -/
def gameRow (event : GameFinishedDto) : Option Game := do
  return {
    id := ← Postgres.uuid event.gameId.text
    roomId := ← Postgres.text event.roomId
    roundsPlayed := ← int4 event.roundsPlayed
    finishedAt := ← Postgres.timestamptz event.finishedAt
    playerCount := ← int4 event.players.length }

def userIdParameter (player : GameResultPlayerDto) : Option (Option Uuid) :=
  match player.userId with
  | none => some none
  | some userId => (Postgres.uuid userId.text).map some

/-- The parameters of the insert into `game_players`. -/
def playerRow (event : GameFinishedDto) (player : GameResultPlayerDto) : Option GamePlayer := do
  return {
    gameId := ← Postgres.uuid event.gameId.text
    playerId := ← Postgres.uuid player.playerId.text
    userId := ← userIdParameter player
    nickname := ← Postgres.text player.nickname
    score := ← int4 player.score
    rank := ← int4 player.rank }

/-- The parameters of the upsert into `user_stats`. -/
def statsRow (event : GameFinishedDto) (player : GameResultPlayerDto) (userId : UuidText) :
    Option UserStats := do
  return {
    userId := ← Postgres.uuid userId.text
    nickname := ← Postgres.text player.nickname
    gamesPlayed := 1
    wins := if player.rank = 1 then 1 else 0
    totalScore := ← int8 player.score
    bestScore := ← int4 player.score
    lastPlayedAt := ← Postgres.timestamptz event.finishedAt }

/-- The insert into `games`, and whether it added a row. -/
def insertGame (t : HistoryTables) (event : GameFinishedDto) : Option (HistoryTables × Bool) := do
  let game ← gameRow event
  if h : game.id ∈ t.games.keys then return (t, false)
  else return ({ t with games := t.games.insertNew game h }, true)

def savePlayer (event : GameFinishedDto) (t : HistoryTables) (player : GameResultPlayerDto) :
    Option HistoryTables := do
  let row ← playerRow event player
  let t := { t with gamePlayers := t.gamePlayers ++ [row] }
  match player.userId with
  | none => return t
  | some userId =>
    let excluded ← statsRow event player userId
    t.upsertStats excluded

def saveGameResult (t : HistoryTables) (event : GameFinishedDto) :
    Option (HistoryTables × Bool) := do
  let r ← insertGame t event
  if !r.2 then return (r.1, false)
  let t ← event.players.foldlM (savePlayer event) r.1
  return (t, true)

/-- Events saved one after the other, none of them refused. -/
def saveAll (events : List GameFinishedDto) : Option HistoryTables :=
  events.foldlM (fun t event => (saveGameResult t event).map Prod.fst) HistoryTables.empty

end

/-! ### The aggregate (migrations/1789200001000-HistoryLookup.ts) -/

namespace HistoryTables

/-- `game_players p JOIN games g ON g.id = p.game_id`. -/
def joined (t : HistoryTables) : List (GamePlayer × Game) :=
  t.gamePlayers.filterMap fun p => (t.games.get? p.gameId).map fun g => (p, g)

def historyOf (t : HistoryTables) (userId : Uuid) : List (GamePlayer × Game) :=
  t.joined.filter fun r => r.1.userId = some userId

end HistoryTables

/-- `a` comes after `b` in `ORDER BY finished_at DESC, id DESC`. -/
def Game.before (a b : Game) : Bool :=
  decide (a.finishedAt < b.finishedAt ∨
    a.finishedAt = b.finishedAt ∧ a.id.bits.toNat < b.id.bits.toNat)

/-- The first row in that order. Rows of one game keep the order in which they were inserted. -/
def mostRecent : List (GamePlayer × Game) → Option (GamePlayer × Game)
  | [] => none
  | r :: rows => some (rows.foldl (fun best r => if best.2.before r.2 then r else best) r)

/-- The row of `user_stats` that the migration computes for a user. -/
def HistoryTables.backfill (t : HistoryTables) (userId : Uuid) : Option UserStats := do
  let rows := t.historyOf userId
  let recent ← mostRecent rows
  let bestScore ← (rows.map fun r => r.1.score).max?
  let lastPlayedAt ← (rows.map fun r => r.2.finishedAt).max?
  return {
    userId := userId
    nickname := recent.1.nickname
    gamesPlayed := rows.length
    wins := rows.countP fun r => r.1.rank = 1
    totalScore := (rows.map fun r => r.1.score).sum
    bestScore := bestScore
    lastPlayedAt := lastPlayedAt }

end GachaMind.User
