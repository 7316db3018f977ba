import GachaMind.Shared

/-!
# The shared Redis state

The keys that matchmaking and game-session share, and the commands that the two services
send. A pipeline is no transaction: its commands run in order, with those of others between
them. A hash whose fields are all missing is a key that does not exist. Expiry times are not
kept: a key with a TTL may expire at any time.
-/

namespace GachaMind
open GachaMind.Js GachaMind.Shared

/-- The hash `room:{roomId}`. -/
structure RoomHash where
  shard : Option ShardId := none
  capacity : Option ℕ := none
  playerCount : Option ℕ := none
  phase : Option GamePhase := none
  deriving DecidableEq

def hashOf (projection : RoomProjection) : RoomHash where
  shard := some projection.shard
  capacity := some projection.capacity
  playerCount := some projection.playerCount
  phase := some projection.phase

structure Redis where
  room : RoomId → RoomHash
  joinable : Finset RoomId
  session : ShardId → Option SessionLoad

namespace Redis

def empty : Redis := ⟨fun _ => {}, ∅, fun _ => none⟩

def setRoom (r : Redis) (roomId : RoomId) (hash : RoomHash) : Redis :=
  { r with room := Function.update r.room roomId hash }

@[simp] theorem room_setRoom (r : Redis) (roomId k : RoomId) (hash : RoomHash) :
    (r.setRoom roomId hash).room k = if k = roomId then hash else r.room k := by
  simp [setRoom, Function.update_apply]

/-! ### game-session (apps/game-session/src/occupancy.ts) -/

/-- The `HSET` of `syncOccupancy`. -/
def recordRoom (r : Redis) (roomId : RoomId) (projection : RoomProjection) : Redis :=
  r.setRoom roomId (hashOf projection)

/-- The `SREM` or `SADD` of `syncOccupancy`. -/
def indexRoom (r : Redis) (roomId : RoomId) (isFull : Bool) : Redis :=
  { r with
    joinable := if isFull then r.joinable.erase roomId else insert roomId r.joinable }

def publishSessionLoad (r : Redis) (load : SessionLoad) : Redis :=
  { r with session := Function.update r.session load.shard (some load) }

def isRoomAssignedHere (r : Redis) (self : ShardId) (roomId : RoomId) : Bool :=
  decide ((r.room roomId).shard = some self)

/-! ### matchmaking (apps/matchmaking/src/index.ts) -/

/-- One attempt of `claimRoomCode` at the code `roomId`, and whether it won the code. -/
def claimRoomCode (r : Redis) (roomId : RoomId) (shard : ShardId) : Redis × Bool :=
  match (r.room roomId).shard with
  | none => (r.setRoom roomId { r.room roomId with shard := some shard }, true)
  | some _ => (r, false)

/-- What `POST /assign` records of a code it has claimed. -/
def reserve (r : Redis) (roomId : RoomId) : Redis :=
  r.setRoom roomId
    { r.room roomId with capacity := some DEFAULT_ROOM_CAPACITY, playerCount := some 0 }

/-- The `DEL` of `DELETE /rooms/:roomId`. -/
def deleteRoom (r : Redis) (roomId : RoomId) : Redis := r.setRoom roomId {}

/-- The `SREM` that follows it. -/
def unindexRoom (r : Redis) (roomId : RoomId) : Redis :=
  { r with joinable := r.joinable.erase roomId }

def expireRoom (r : Redis) (roomId : RoomId) : Redis := r.setRoom roomId {}

/-! ### The shard that a record names -/

theorem shard_recordRoom (r : Redis) (roomId k : RoomId) (projection : RoomProjection) :
    ((r.recordRoom roomId projection).room k).shard =
      if k = roomId then some projection.shard else (r.room k).shard := by
  rw [recordRoom, room_setRoom]
  split_ifs <;> rfl

theorem shard_claimRoomCode (r : Redis) (roomId k : RoomId) (shard : ShardId)
    (h : (r.room roomId).shard = none) :
    ((r.claimRoomCode roomId shard).1.room k).shard =
      if k = roomId then some shard else (r.room k).shard := by
  simp only [claimRoomCode, h, room_setRoom]
  split_ifs <;> rfl

theorem shard_reserve (r : Redis) (roomId k : RoomId) :
    ((r.reserve roomId).room k).shard = (r.room k).shard := by
  rw [reserve, room_setRoom]
  split_ifs with hk
  · rw [hk]
  · rfl

theorem shard_deleteRoom (r : Redis) (roomId k : RoomId) :
    ((r.deleteRoom roomId).room k).shard = if k = roomId then none else (r.room k).shard := by
  rw [deleteRoom, room_setRoom]
  split_ifs <;> rfl

theorem shard_expireRoom (r : Redis) (roomId k : RoomId) :
    ((r.expireRoom roomId).room k).shard = if k = roomId then none else (r.room k).shard :=
  shard_deleteRoom r roomId k

end Redis

end GachaMind
