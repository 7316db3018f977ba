import GachaMind.GameSession.RoomInvariant

/-!
# The process (apps/game-session/src/index.ts, room.ts)

One game-session process: the rooms of the `RoomManager`, the state of every
connection and the joins that wait at one of the two awaits of `handleJoin`. Handlers
run to completion between the awaits. An exception that leaves a handler, or a
rejected `handleJoin`, ends the process, so the step function has no successor there.
-/

namespace GachaMind.GameSession
open GachaMind.Js GachaMind.Shared KeyedTable

structure ShardIdentity where
  shardId : ShardId
  host : JsString
  port : ℕ

/-- `ConnectionState` and what the handlers read of its socket. `identity` is the outcome of
the promise that `identifyConnection` returned; `closed` is set by the close event. -/
structure Connection where
  socket : SocketId
  isOpen : Bool := true
  closed : Bool := false
  identity : Except JsError (Option Identity)
  joinedRoomId : Option RoomId := none
  playerId : Option Uuid := none
  joining : Bool := false

/-- A call of `handleJoin`: its socket, the promise it awaits and the fields of its message. -/
structure JoinCall where
  socket : SocketId
  identity : Except JsError (Option Identity)
  roomId : Option Json
  nickname : Option Json

/-- A call that waits: for the identity, or for `isRoomAssignedHere`, whose promise may have
been settled with an answer. -/
inductive Waiting where
  | identity (call : JoinCall)
  | assignment (call : JoinCall) (identity : Option Identity) (roomId : RoomId)
      (answer : Option Bool)

def Waiting.call : Waiting → JoinCall
  | .identity call => call
  | .assignment call _ _ _ => call

/-- The code that the check has allowed. -/
def Waiting.granted : Waiting → Option RoomId
  | .assignment _ _ roomId (some true) => some roomId
  | _ => none

def Waiting.answered (answer : Bool) : Waiting → Waiting
  | .assignment call who roomId none => .assignment call who roomId (some answer)
  | w => w

theorem Waiting.call_answered (w : Waiting) (answer : Bool) :
    (w.answered answer).call = w.call := by
  cases w with
  | identity call => rfl
  | assignment call who roomId a => cases a <;> rfl

/-- The join of `socket` waits for the check of `roomId`. -/
def Waiting.asks (socket : SocketId) (roomId : RoomId) : Waiting → Bool
  | .assignment call _ code _ => decide (call.socket = socket ∧ code = roomId)
  | .identity _ => false

structure Server where
  self : ShardIdentity
  rooms : Table Room.id
  connections : Table Connection.socket
  waiting : List Waiting
  issued : List Uuid

/-! ### RoomManager -/

namespace Server

def setRoom (s : Server) (room : Room) : Server := { s with rooms := s.rooms.set room }

def getOrCreate (s : Server) (roomId : RoomId) : Server × Room :=
  match s.rooms.get? roomId with
  | some room => (s, room)
  | none =>
    let room := newRoom roomId DEFAULT_ROOM_CAPACITY
    (s.setRoom room, room)

/-- `removeIfEmpty` on the room just left. Its pending timers, if any, go with it: the one that
`clearRoundTimer` clears is the only one a room has. -/
def removeIfEmpty (s : Server) (room : Room) : Option Server :=
  if room.size = 0 then some { s with rooms := s.rooms.erase room.id } else none

def roomCount (s : Server) : ℕ := s.rooms.size

def totalConnections (s : Server) : ℕ := (s.rooms.rows.map Room.size).sum

def sessionLoad (s : Server) : SessionLoad :=
  { shard := s.self.shardId
    host := s.self.host
    port := s.self.port
    rooms := s.roomCount
    connections := s.totalConnections }

/-- `publishSessionLoad` and `syncTaskProtection`, as every handler that changes a room's
players calls them. -/
def report (s : Server) : List Effect :=
  [.publishSessionLoad s.sessionLoad, .syncTaskProtection s.roomCount]

/-! ### Connections -/

def modifyConnection (s : Server) (socket : SocketId) (f : Connection → Connection)
    (hf : ∀ c, (f c).socket = c.socket) : Server :=
  { s with connections := s.connections.modify socket f hf }

/-- `socket.readyState === socket.OPEN`. -/
def isOpen (s : Server) (socket : SocketId) : Bool :=
  (s.connections.get? socket).any Connection.isOpen

def setJoining (s : Server) (socket : SocketId) (joining : Bool) : Server :=
  s.modifyConnection socket (fun c => { c with joining := joining }) fun _ => rfl

def leaveOpen (s : Server) (socket : SocketId) : Server :=
  s.modifyConnection socket (fun c => { c with isOpen := false }) fun _ => rfl

/-- `state.playerId = …; state.joinedRoomId = …; state.joining = false`. -/
def setJoined (s : Server) (socket : SocketId) (roomId : RoomId) (playerId : Uuid) : Server :=
  s.modifyConnection socket
    (fun c => { c with joinedRoomId := some roomId, playerId := some playerId, joining := false })
    fun _ => rfl

def see (s : Server) (env : Env) : Env :=
  { env with shard := s.self.shardId, isOpen := s.isOpen }

/-! ### Joining -/

/-- `handleJoin` up to `await state.identity`. -/
def startJoin (s : Server) (c : Connection) (roomId nickname : Option Json) : Server :=
  if truthy c.joinedRoomId || c.joining then s
  else
    { s.setJoining c.socket true with
      waiting := s.waiting ++ [.identity ⟨c.socket, c.identity, roomId, nickname⟩] }

/-- `identity?.nickname ?? message.nickname`, of which `trim` is called. -/
def joinNickname (identity : Option Identity) (nickname : Option Json) : Except JsError JsString :=
  match identity with
  | some identity => .ok identity.nickname
  | none => asString nickname

/-- `handleJoin` once it has its room. -/
def enter (s : Server) (env : Env) (call : JoinCall) (identity : Option Identity) (roomId : RoomId)
    (room : Room) : Except JsError (Server × List Effect) :=
  if room.isFull then
    .ok ((s.setJoining call.socket false).leaveOpen call.socket,
      [.reply call.socket (.roomFull room.id), .closeSocket call.socket])
  else do
    let nickname ← joinNickname identity call.nickname
    let player := joiningPlayer env call.socket identity nickname
    let room := seatPlayer room player
    let s := (s.setRoom room).setJoined call.socket roomId player.id
    return (s, syncOccupancy env room :: s.report ++ welcome env room player)

variable [Runtime]

/-- `handleJoin` between its two awaits. -/
def afterIdentity (s : Server) (env : Env) (call : JoinCall) :
    Except JsError (Server × List Effect) := do
  let identity ← call.identity
  if !s.isOpen call.socket then return (s.setJoining call.socket false, [])
  let roomId := normalizeRoomCode (← asString call.roomId)
  match s.rooms.get? roomId with
  | some room => s.enter (s.see env) call identity roomId room
  | none =>
    return ({ s with waiting := s.waiting ++ [.assignment call identity roomId none] },
      [.checkAssigned call.socket roomId])

omit [Runtime] in
/-- `handleJoin` after `await isRoomAssignedHere(roomId)`. -/
def afterAssignment (s : Server) (env : Env) (call : JoinCall) (identity : Option Identity)
    (roomId : RoomId) (answer : Bool) : Except JsError (Server × List Effect) :=
  if !answer then
    .ok ((s.setJoining call.socket false).leaveOpen call.socket,
      [.reply call.socket (.roomNotFound roomId), .closeSocket call.socket])
  else if !s.isOpen call.socket then .ok (s.setJoining call.socket false, [])
  else
    let r := s.getOrCreate roomId
    r.1.enter (s.see env) call identity roomId r.2

/-! ### Frames and closes -/

/-- The handlers of the messages that count only after a join. -/
def memberMessage (env : Env) (room : Room) (playerId : Uuid) (message : Json) :
    Except JsError (Room × List Effect) :=
  let type := message.field (utf16 "type")
  if isString type (utf16 "chat") then
    handleChat env room playerId (message.field (utf16 "text"))
  else if isString type (utf16 "draw") then
    handleDraw env room playerId (message.field (utf16 "stroke"))
  else if isString type (utf16 "draw-clear") then .ok (handleDrawClear env room playerId)
  else if isString type (utf16 "start-game") then .ok (startGame env room)
  else .ok (room, [])

/-- `handleMessage` past the join: the room is looked up first. -/
def handleMember (s : Server) (env : Env) (c : Connection) (message : Json) :
    Except JsError (Server × List Effect) :=
  match c.joinedRoomId, c.playerId with
  | some roomId, some playerId =>
    -- `!state.joinedRoomId` is also true of the empty code
    if roomId = [] then .ok (s, [])
    else
      match s.rooms.get? roomId with
      | none => .ok (s, [])
      | some room => do
        let r ← memberMessage (s.see env) room playerId message
        return (s.setRoom r.1, r.2)
  | _, _ => .ok (s, [])

/-- `handleMessage`; `raw` is the parsed frame, `none` when `JSON.parse` throws. -/
def handleMessage (s : Server) (env : Env) (c : Connection) (raw : Option Json) :
    Except JsError (Server × List Effect) :=
  match raw with
  | none => .ok (s, [])
  | some message => do
    let type ← getProp message (utf16 "type")
    if isString type (utf16 "join") then
      return (s.startJoin c (message.field (utf16 "roomId")) (message.field (utf16 "nickname")), [])
    s.handleMember env c message

omit [Runtime] in
def handleClose (s : Server) (env : Env) (c : Connection) : Server × List Effect :=
  match c.joinedRoomId, c.playerId with
  | some roomId, some playerId =>
    if roomId = [] then (s, [])
    else
      match s.rooms.get? roomId with
      | none => (s, [])
      | some room =>
        let left := leaveRoom (s.see env) room playerId
        match s.removeIfEmpty left.1 with
        | some s => (s, left.2 ++ .notifyRoomClosed left.1.id :: s.report)
        | none =>
          let s := s.setRoom left.1
          (s, left.2 ++ syncOccupancy (s.see env) left.1 :: s.report)
  | _, _ => (s, [])

end Server

/-! ### The event loop -/

inductive ServerInput where
  /-- A connection, with the outcome that its identity promise will have. -/
  | connect (socket : SocketId) (identity : Except JsError (Option Identity))
  | message (socket : SocketId) (raw : Option Json)
  | resume (socket : SocketId)
  /-- The promise of `isRoomAssignedHere(roomId)` is fulfilled. -/
  | settle (socket : SocketId) (roomId : RoomId) (answer : Bool)
  | leaveOpen (socket : SocketId)
  | close (socket : SocketId)
  | timer (roomId : RoomId) (id : ℕ)
  | heartbeat

namespace Server

def connect (s : Server) (socket : SocketId) (identity : Except JsError (Option Identity)) :
    Option Server :=
  if socket ∈ s.connections.keys then none
  else some { s with connections := s.connections.set { socket := socket, identity := identity } }

def live (s : Server) (socket : SocketId) : Option Connection :=
  (s.connections.get? socket).filter fun c => !c.closed

def markClosed (s : Server) (socket : SocketId) : Server :=
  s.modifyConnection socket (fun c => { c with isOpen := false, closed := true }) fun _ => rfl

def close (s : Server) (env : Env) (c : Connection) : Server × List Effect :=
  (s.markClosed c.socket).handleClose env c

/-- `startProjectionHeartbeat`. -/
def heartbeat (s : Server) (env : Env) : List Effect :=
  s.rooms.rows.map (syncOccupancy (s.see env)) ++ s.report

def settle (s : Server) (socket : SocketId) (roomId : RoomId) (answer : Bool) : Server :=
  { s with waiting := s.waiting.map fun w => if w.asks socket roomId then w.answered answer else w }

/-- The process after the first waiting join of a socket has been taken out. -/
def without (s : Server) (socket : SocketId) : Server :=
  { s with waiting := s.waiting.eraseP fun w => w.call.socket = socket }

variable [Runtime]

def goOn (s : Server) (env : Env) : Waiting → Option (Except JsError (Server × List Effect))
  | .identity call => some (s.afterIdentity env call)
  | .assignment call identity roomId (some answer) =>
    some (s.afterAssignment env call identity roomId answer)
  | .assignment _ _ _ none => none

def resume (s : Server) (env : Env) (socket : SocketId) : Option (Server × List Effect) :=
  (s.waiting.find? fun w => w.call.socket = socket).bind fun w =>
    ((s.without socket).goOn env w).bind Except.toOption

def handle (s : Server) (env : Env) : ServerInput → Option (Server × List Effect)
  | .connect socket identity => (s.connect socket identity).map fun t => (t, [])
  | .message socket raw =>
    (s.live socket).bind fun c => (s.handleMessage env c raw).toOption
  | .resume socket => s.resume env socket
  | .settle socket roomId answer => some (s.settle socket roomId answer, [])
  | .leaveOpen socket => some (s.leaveOpen socket, [])
  | .close socket => (s.live socket).map fun c => s.close env c
  | .timer roomId id =>
    (s.rooms.get? roomId).bind fun room =>
      (fireTimer (s.see env) room id).map fun r => (s.setRoom r.1, r.2)
  | .heartbeat => some (s, s.heartbeat env)

/-- One event. Every event may draw a UUID, and `randomUUID` never repeats one. -/
def step (s : Server) (i : Env × ServerInput) : Option (Server × List Effect) :=
  if i.1.uuid ∈ s.issued then none
  else (s.handle i.1 i.2).map fun r => ({ r.1 with issued := i.1.uuid :: s.issued }, r.2)

end Server

def newServer (self : ShardIdentity) : Server :=
  { self := self, rooms := Table.empty, connections := Table.empty, waiting := [], issued := [] }

def serverSystem [Runtime] (self : ShardIdentity) :
    Machine.System Server (Env × ServerInput) Effect :=
  Machine.ofFunction (newServer self) Server.step

/-! ### Joins on fixed inputs -/

def joinFrame (roomId : String) : Option Json :=
  some (.obj [(utf16 "type", .str (utf16 "join")), (utf16 "roomId", .str (utf16 roomId)),
    (utf16 "nickname", .str (utf16 "a"))])

/-- The events of a join that the check allows. -/
def joinEvents (socket : SocketId) (roomId : String) : List ServerInput :=
  [.connect socket (.ok none), .message socket (joinFrame roomId), .resume socket,
   .settle socket (@normalizeRoomCode plainRuntime (utf16 roomId)) true, .resume socket]

def startFrame : Option Json := some (.obj [(utf16 "type", .str (utf16 "start-game"))])

/-- Two connections join a room, the first with the frame given, and play a game of two rounds. -/
def gameOfTwo (a b : Option Identity) (frame : Option Json) : List ServerInput :=
  [.connect 0 (.ok a), .message 0 frame, .resume 0, .settle 0 (utf16 "AB3DE") true, .resume 0,
   .connect 1 (.ok b), .message 1 (joinFrame "AB3DE"), .resume 1, .message 0 startFrame,
   .timer (utf16 "AB3DE") 0, .timer (utf16 "AB3DE") 1, .timer (utf16 "AB3DE") 2,
   .timer (utf16 "AB3DE") 3]

def plainShard : ShardIdentity := ⟨utf16 "4001", utf16 "localhost", 4001⟩

end GachaMind.GameSession
