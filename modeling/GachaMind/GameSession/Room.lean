import GachaMind.Lib.KeyedTable
import GachaMind.Shared

/-!
# Rooms (apps/game-session/src/room.ts)

A room, its players and the messages it sends. What a handler reads from outside
(the clock, random numbers, a fresh UUID, which sockets are open) is the `Env` of
that handler; what it does to the outside is the list of its `Effect`s. The timers
that the room's `setTimeout` calls created are kept beside the fields of the class,
so that a callback that was not cleared can still fire.
-/

namespace GachaMind.GameSession
open GachaMind.Js GachaMind.Shared KeyedTable

def MAX_BUFFERED_STROKES : ℕ := 3000

abbrev SocketId := ℕ

structure Player where
  id : Uuid
  userId : Option JsString
  nickname : JsString
  socket : SocketId
  score : ℤ
  deriving DecidableEq

/-- The calls of `Date.now()`: a handler may see a different time at each. -/
inductive ClockSite where
  | roundStart
  | roundRemaining
  | guess
  | chat
  | snapshot
  | notice
  | gameNotice
  | finish
  deriving DecidableEq

/-- What one handler reads from outside: the name of its own shard, the clock, random
numbers, a fresh UUID and which sockets are open. The `Math.floor(Math.random() * n)` of
round `k` of a shuffle is `random k % n`, and the one of `pickWord` is `pick % n`. -/
structure Env where
  shard : ShardId
  now : ClockSite → ℤ
  random : ℕ → ℕ
  pick : ℕ
  uuid : Uuid
  isOpen : SocketId → Bool

/-! ### Timers -/

inductive TimerCallback where
  | endRound
  | intermission
  deriving DecidableEq

structure Timer where
  id : ℕ
  callback : TimerCallback
  deriving DecidableEq

/-- The event loop's view: timers not yet fired or cleared, and the next timer id. -/
structure Timers where
  next : ℕ
  pending : List Timer
  deriving DecidableEq

def Timers.setTimeout (t : Timers) (callback : TimerCallback) : Timers :=
  ⟨t.next + 1, t.pending ++ [⟨t.next, callback⟩]⟩

def Timers.clearTimeout (t : Timers) (id : ℕ) : Timers :=
  { t with pending := t.pending.filter fun x => x.id ≠ id }

/-! ### The room -/

structure Room where
  id : RoomId
  capacity : ℕ := DEFAULT_ROOM_CAPACITY
  players : Table Player.id := Table.empty
  phase : GamePhase := .waiting
  gameId : Option Uuid := none
  round : ℕ := 0
  totalRounds : ℕ := 0
  drawerId : Option Uuid := none
  word : Option JsString := none
  roundEndsAt : Option ℤ := none
  strokes : List StrokeSegment := []
  solvedPlayerIds : Finset Uuid := ∅
  drawerQueue : List Uuid := []
  usedWords : List JsString := []
  roundTimer : Option ℕ := none
  timers : Timers := ⟨0, []⟩

/-- Everything a handler of game-session does to the outside. `recipients` lists the players
whose open sockets the message was written to; `checkAssigned` is the `HGET` of
`isRoomAssignedHere`. -/
inductive Effect where
  | broadcast (message : ServerToClientMessage) (recipients : List Uuid)
  | send (recipient : Uuid) (message : ServerToClientMessage)
  | reply (socket : SocketId) (message : ServerToClientMessage)
  | closeSocket (socket : SocketId)
  | checkAssigned (socket : SocketId) (roomId : RoomId)
  | syncOccupancy (roomId : RoomId) (projection : RoomProjection)
  | publishGameEvent (event : GameFinishedEvent)
  | publishSessionLoad (load : SessionLoad)
  | syncTaskProtection (roomCount : ℕ)
  | notifyRoomClosed (roomId : RoomId)

namespace Room

def remainingMs (room : Room) (now : ℤ) : Option ℤ :=
  room.roundEndsAt.map fun endsAt => max 0 (endsAt - now)

def addPlayer (room : Room) (player : Player) : Room :=
  { room with players := room.players.set player }

def removePlayer (room : Room) (playerId : Uuid) : Room :=
  { room with
    players := room.players.erase playerId
    solvedPlayerIds := room.solvedPlayerIds.erase playerId
    drawerQueue := room.drawerQueue.filter (· ≠ playerId) }

/-- `for (const player of room.players.values()) player.score = 0`. -/
def resetScores (room : Room) : Table Player.id :=
  room.players.mapRows (fun p => { p with score := 0 }) fun _ => rfl

@[simp] theorem keys_resetScores (room : Room) : room.resetScores.keys = room.players.keys :=
  keys_mapRows ..

@[simp] theorem size_resetScores (room : Room) : room.resetScores.size = room.players.size :=
  size_mapRows ..

def size (room : Room) : ℕ := room.players.size

def isFull (room : Room) : Bool := decide (room.capacity ≤ room.size)

def summaries (room : Room) : List PlayerSummary :=
  room.players.rows.map fun p => ⟨p.id, p.nickname, p.score⟩

def unsolvedGuesserCount (room : Room) : ℕ :=
  room.players.rows.countP fun p => some p.id ≠ room.drawerId ∧ p.id ∉ room.solvedPlayerIds

def addStroke (room : Room) (stroke : StrokeSegment) : Room :=
  if MAX_BUFFERED_STROKES ≤ room.strokes.length then room
  else { room with strokes := room.strokes ++ [stroke] }

def clearStrokes (room : Room) : Room := { room with strokes := [] }

def clearRoundTimer (room : Room) : Room :=
  { room with
    timers := match room.roundTimer with
      | none => room.timers
      | some id => room.timers.clearTimeout id
    roundTimer := none }

/-- `this.roundTimer = setTimeout(callback, …)`. -/
def setRoundTimer (room : Room) (callback : TimerCallback) : Room :=
  { room with timers := room.timers.setTimeout callback, roundTimer := some room.timers.next }

def send (env : Env) (room : Room) (playerId : Uuid) (message : ServerToClientMessage) :
    List Effect :=
  match room.players.get? playerId with
  | none => []
  | some player => if env.isOpen player.socket then [.send playerId message] else []

def broadcast (env : Env) (room : Room) (message : ServerToClientMessage)
    (exclude : Option Uuid := none) : Effect :=
  .broadcast message
    ((room.players.rows.filter fun p => some p.id ≠ exclude ∧ env.isOpen p.socket).map Player.id)

def notice (env : Env) (room : Room) (site : ClockSite) (text : JsString) : Effect :=
  room.broadcast env (.system text (env.now site))

end Room

end GachaMind.GameSession
