import GachaMind.Js

/-!
# The shared contract (packages/shared/src/index.ts)

Game constants, the messages of the WebSocket protocol, the `game-finished` event
and the two normalisations that every service applies.
-/

namespace GachaMind.Shared
open GachaMind.Js

/-! ### Identifiers -/

/-- A value of `randomUUID`. It is never an empty string, so it is truthy. -/
structure Uuid where
  bits : BitVec 128
  deriving DecidableEq

abbrev RoomId := JsString

/-! ### Game constants -/

def MAX_NICKNAME_LENGTH : ℕ := 20
def DEFAULT_ROOM_CAPACITY : ℕ := 100
def ROUND_DURATION_MS : ℤ := 60000
def MIN_PLAYERS_TO_START : ℕ := 2
def MAX_ROUNDS : ℕ := 10

inductive GamePhase where
  | waiting
  | playing
  | ended
  deriving DecidableEq

/-! ### Messages sent by the server -/

structure PlayerSummary where
  id : Uuid
  nickname : JsString
  score : ℤ
  deriving DecidableEq

/-- One stroke. The points are stored as they arrived: `handleDraw` checks only that
they form a non-empty array. -/
structure StrokeSegment where
  points : List Json
  color : JsString
  width : JsNumber

structure RoomStateMessage where
  roomId : RoomId
  you : PlayerSummary
  players : List PlayerSummary
  capacity : ℕ
  phase : GamePhase
  round : ℕ
  totalRounds : ℕ
  drawerId : Option Uuid
  remainingMs : Option ℤ
  wordLength : Option ℕ
  strokes : List StrokeSegment

structure RoundStartedMessage where
  round : ℕ
  totalRounds : ℕ
  drawerId : Uuid
  drawerNickname : JsString
  remainingMs : ℤ
  wordLength : ℕ
  word : Option JsString
  deriving DecidableEq

inductive ServerToClientMessage where
  | roomState (m : RoomStateMessage)
  | playerJoined (roomId : RoomId) (player : PlayerSummary) (playerCount : ℕ)
  | playerLeft (roomId : RoomId) (playerId : Uuid) (nickname : JsString) (playerCount : ℕ)
  | roomFull (roomId : RoomId)
  | roomNotFound (roomId : RoomId)
  | chat (playerId : Uuid) (nickname text : JsString) (sentAt : ℤ)
  | system (text : JsString) (sentAt : ℤ)
  | draw (stroke : StrokeSegment)
  | drawClear
  | gameStarted (totalRounds : ℕ)
  | roundStarted (m : RoundStartedMessage)
  | roundEnded (round : ℕ) (word : JsString) (players : List PlayerSummary)
  | correctAnswer (playerId : Uuid) (nickname : JsString) (players : List PlayerSummary)
  | gameEnded (players : List PlayerSummary)

/-! ### Events -/

structure GameResultPlayer where
  playerId : Uuid
  userId : Option JsString
  nickname : JsString
  score : ℤ
  rank : ℕ
  deriving DecidableEq

/-- `finishedAt` is the instant, in milliseconds, whose ISO 8601 text the event carries. -/
structure GameFinishedEvent where
  gameId : Uuid
  roomId : RoomId
  finishedAt : ℤ
  roundsPlayed : ℕ
  players : List GameResultPlayer
  deriving DecidableEq

/-! ### Redis projections -/

abbrev ShardId := JsString

structure RoomProjection where
  shard : ShardId
  capacity : ℕ
  playerCount : ℕ
  phase : GamePhase
  deriving DecidableEq

structure SessionLoad where
  shard : ShardId
  host : JsString
  port : ℕ
  rooms : ℕ
  connections : ℕ
  deriving DecidableEq

/-! ### Room codes -/

def ROOM_CODE_ALPHABET : JsString := utf16 "0123456789ABCDEFGHJKMNPQRSTVWXYZ"
def ROOM_CODE_LENGTH : ℕ := 5

/-- `bytes` are those that `getRandomValues` draws, as many as the code is long. -/
def generateRoomCode (bytes : List UInt8) : RoomId :=
  bytes.map fun byte => ROOM_CODE_ALPHABET.getD (byte &&& 31).toNat 0

def isRoomCode (code : JsString) : Bool :=
  code.length == ROOM_CODE_LENGTH && code.all fun c => c ∈ ROOM_CODE_ALPHABET

/-! ### Normalisations -/

section
variable [Runtime]

def normalizeAnswer (text : JsString) : JsString :=
  removeWhiteSpace (Runtime.toLowerCase (trim text))

/-- `[0-9A-Z]`. -/
def isRoomCodeChar (c : CodeUnit) : Bool := (0x30 ≤ c && c ≤ 0x39) || (0x41 ≤ c && c ≤ 0x5A)

/-- `I` and `L` read as one, `O` as zero. -/
def foldLookalike (c : CodeUnit) : CodeUnit :=
  if c = 0x49 ∨ c = 0x4C then 0x31 else if c = 0x4F then 0x30 else c

def normalizeRoomCode (input : JsString) : RoomId :=
  ((Runtime.toUpperCase input).filter isRoomCodeChar).map foldLookalike

end

end GachaMind.Shared
