import GachaMind.Lib.Machine
import GachaMind.GameSession.Handlers

/-!
# A room as a transition system

The inputs are everything that can happen to one room: a join, a leave, a frame of a
member, or a pending timer firing, each handled to completion. A handler that throws
ends the process, so it is no step. `issued` holds the UUIDs drawn so far, and
`randomUUID` never repeats one of them.
-/

namespace GachaMind.GameSession
open GachaMind.Js GachaMind.Shared KeyedTable

inductive RoomInput where
  | join (socket : SocketId) (identity : Option Identity) (nickname : JsString)
  | leave (playerId : Uuid)
  | chat (playerId : Uuid) (text : Option Json)
  | draw (playerId : Uuid) (stroke : Option Json)
  | drawClear (playerId : Uuid)
  | startGame
  | timer (id : ℕ)

/-- `handleJoin` from the check of the capacity on. -/
def joinRoom (env : Env) (room : Room) (socket : SocketId) (identity : Option Identity)
    (nickname : JsString) : Room × List Effect :=
  if room.isFull then (room, [.reply socket (.roomFull room.id), .closeSocket socket])
  else
    let player := joiningPlayer env socket identity nickname
    let room := seatPlayer room player
    (room, syncOccupancy env room :: welcome env room player)

def runCallback (env : Env) (room : Room) : TimerCallback → Room × List Effect
  | .endRound => endRound env room
  | .intermission => intermissionOver env room

def fireTimer (env : Env) (room : Room) (id : ℕ) : Option (Room × List Effect) :=
  (room.timers.pending.find? fun t => t.id = id).map fun t =>
    runCallback env { room with timers := room.timers.clearTimeout t.id } t.callback

section
variable [Runtime]

def roomStep (env : Env) (room : Room) : RoomInput → Option (Room × List Effect)
  | .join socket identity nickname => some (joinRoom env room socket identity nickname)
  | .leave playerId => some (leaveRoom env room playerId)
  | .chat playerId text => (handleChat env room playerId text).toOption
  | .draw playerId stroke => (handleDraw env room playerId stroke).toOption
  | .drawClear playerId => some (handleDrawClear env room playerId)
  | .startGame => some (startGame env room)
  | .timer id => fireTimer env room id

structure RoomState where
  room : Room
  issued : List Uuid

def stepRoomState (s : RoomState) (i : Env × RoomInput) : Option (RoomState × List Effect) :=
  if i.1.uuid ∈ s.issued then none
  else (roomStep i.1 s.room i.2).map fun r => (⟨r.1, i.1.uuid :: s.issued⟩, r.2)

/-- `new Room(id, capacity)`. -/
def newRoom (id : RoomId) (capacity : ℕ) : Room := { id := id, capacity := capacity }

def roomSystem (id : RoomId) (capacity : ℕ) :
    Machine.System RoomState (Env × RoomInput) Effect :=
  Machine.ofFunction ⟨newRoom id capacity, []⟩ stepRoomState

theorem roomSystem_step {id : RoomId} {capacity : ℕ} {s t : RoomState} {i : Env × RoomInput}
    {os : List Effect} (h : (roomSystem id capacity).step s i t os) :
    i.1.uuid ∉ s.issued ∧ roomStep i.1 s.room i.2 = some (t.room, os) ∧
      t.issued = i.1.uuid :: s.issued := by
  simp only [roomSystem, Machine.ofFunction, stepRoomState] at h
  split_ifs at h with hu
  obtain ⟨r, hr, he⟩ := Option.map_eq_some_iff.mp h
  cases he
  exact ⟨hu, hr, rfl⟩

end

/-! ### A concrete runtime, for runs on fixed inputs -/

/-- The engine on ASCII digits and words without case, which is all that the runs below feed it. -/
@[reducible] def plainRuntime : Runtime where
  toLowerCase s := s
  toUpperCase s := s
  stringToNumber _ := .nan
  numberToString _ := []

/-- The `n`-th handler runs at second `n`, draws the UUID `n` and finds every socket open. -/
def plainEnv (n : ℕ) : Env where
  shard := utf16 "4001"
  now _ := 1000 * n
  random _ := 0
  pick := 0
  uuid := ⟨BitVec.ofNat 128 n⟩
  isOpen _ := true

def numbered {ι : Type} (inputs : List ι) : List (Env × ι) :=
  inputs.zipIdx.map fun p => (plainEnv p.2, p.1)

abbrev plainSystem : Machine.System RoomState (Env × RoomInput) Effect :=
  @roomSystem plainRuntime (utf16 "AB3DE") DEFAULT_ROOM_CAPACITY

end GachaMind.GameSession
