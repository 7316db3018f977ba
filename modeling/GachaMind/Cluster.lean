import GachaMind.GameSession.ServerRooms
import GachaMind.Redis

/-!
# Shards, Redis and matchmaking

Any number of game-session processes, the Redis they share and any number of
matchmaking instances. A process writes its commands to one connection, so Redis runs
them in the order in which they were issued, each at any later time. The close callbacks
are HTTP requests, which arrive in any order. No process stops and no call fails.
-/

namespace GachaMind
open GachaMind.Js GachaMind.Shared GachaMind.GameSession KeyedTable

inductive Command where
  | recordRoom (roomId : RoomId) (projection : RoomProjection)
  | indexRoom (roomId : RoomId) (isFull : Bool)
  | checkAssigned (socket : SocketId) (roomId : RoomId)
  | publishSessionLoad (load : SessionLoad)

/-- `syncOccupancy` reads `room.isFull` together with the projection. -/
def Command.ofEffect : Effect → List Command
  | .syncOccupancy roomId projection =>
    [.recordRoom roomId projection,
     .indexRoom roomId (decide (projection.capacity ≤ projection.playerCount))]
  | .checkAssigned socket roomId => [.checkAssigned socket roomId]
  | .publishSessionLoad load => [.publishSessionLoad load]
  | _ => []

def closedRoom : Effect → Option RoomId
  | .notifyRoomClosed roomId => some roomId
  | _ => none

/-- A process and the commands it has issued that Redis has not run yet. -/
structure Shard where
  server : Server
  pipe : List Command

/-- `closing` lists the close callbacks in flight, `unindexing` those whose `SREM` is still to
come, `claimed` the codes won by an `/assign` that has not recorded their capacity yet. -/
structure Cluster where
  shards : ShardId → Shard
  redis : Redis
  closing : List RoomId
  unindexing : List RoomId
  claimed : List RoomId

inductive ClusterInput where
  /-- An event of a process other than an answer of Redis. -/
  | process (shard : ShardId) (env : Env) (input : ServerInput)
  /-- Redis runs the next command of a process and answers it. -/
  | redis (shard : ShardId) (env : Env)
  | claim (roomId : RoomId) (shard : ShardId)
  | reserve (roomId : RoomId)
  /-- matchmaking handles a close callback, up to its first command. -/
  | deliver (roomId : RoomId)
  | unindex (roomId : RoomId)
  | expire (roomId : RoomId)

/-- The answers of Redis are no events that a process can have by itself. -/
def ServerInput.isSettle : ServerInput → Bool
  | .settle _ _ _ => true
  | _ => false

namespace Cluster

def setShard (w : Cluster) (shard : ShardId) (x : Shard) : Cluster :=
  { w with shards := Function.update w.shards shard x }

@[simp] theorem shards_setShard (w : Cluster) (shard k : ShardId) (x : Shard) :
    (w.setShard shard x).shards k = if k = shard then x else w.shards k := by
  simp [setShard, Function.update_apply]

variable [Runtime]

def process (w : Cluster) (shard : ShardId) (env : Env) (input : ServerInput) :
    Option (Cluster × List Effect) :=
  if ServerInput.isSettle input then none
  else
    ((w.shards shard).server.step (env, input)).map fun r =>
      ({ w.setShard shard ⟨r.1, (w.shards shard).pipe ++ r.2.flatMap Command.ofEffect⟩ with
          closing := w.closing ++ r.2.filterMap closedRoom }, r.2)

def runCommand (w : Cluster) (shard : ShardId) (env : Env) : Option (Cluster × List Effect) :=
  match (w.shards shard).pipe with
  | [] => none
  | .recordRoom roomId projection :: pipe =>
    some ({ w.setShard shard { w.shards shard with pipe := pipe } with
      redis := w.redis.recordRoom roomId projection }, [])
  | .indexRoom roomId isFull :: pipe =>
    some ({ w.setShard shard { w.shards shard with pipe := pipe } with
      redis := w.redis.indexRoom roomId isFull }, [])
  | .publishSessionLoad load :: pipe =>
    some ({ w.setShard shard { w.shards shard with pipe := pipe } with
      redis := w.redis.publishSessionLoad load }, [])
  | .checkAssigned socket roomId :: pipe =>
    let answer := w.redis.isRoomAssignedHere (w.shards shard).server.self.shardId roomId
    ((w.shards shard).server.step (env, .settle socket roomId answer)).map fun r =>
      (w.setShard shard ⟨r.1, pipe⟩, r.2)

def claim (w : Cluster) (roomId : RoomId) (shard : ShardId) : Cluster :=
  let r := w.redis.claimRoomCode roomId shard
  { w with redis := r.1, claimed := if r.2 then roomId :: w.claimed else w.claimed }

def step (w : Cluster) : ClusterInput → Option (Cluster × List Effect)
  | .process shard env input => w.process shard env input
  | .redis shard env => w.runCommand shard env
  | .claim roomId shard => some (w.claim roomId shard, [])
  | .reserve roomId =>
    if roomId ∈ w.claimed then
      some ({ w with redis := w.redis.reserve roomId, claimed := w.claimed.erase roomId }, [])
    else none
  | .deliver roomId =>
    if roomId ∈ w.closing then
      some ({ w with
        redis := w.redis.deleteRoom (normalizeRoomCode roomId)
        closing := w.closing.erase roomId
        unindexing := normalizeRoomCode roomId :: w.unindexing }, [])
    else none
  | .unindex roomId =>
    if roomId ∈ w.unindexing then
      some ({ w with
        redis := w.redis.unindexRoom roomId
        unindexing := w.unindexing.erase roomId }, [])
    else none
  | .expire roomId => some ({ w with redis := w.redis.expireRoom roomId }, [])

end Cluster

structure Addresses where
  identity : ShardId → ShardIdentity
  named : ∀ shard, (identity shard).shardId = shard

def newCluster (addresses : Addresses) : Cluster where
  shards shard := ⟨newServer (addresses.identity shard), []⟩
  redis := Redis.empty
  closing := []
  unindexing := []
  claimed := []

def clusterSystem [Runtime] (addresses : Addresses) :
    Machine.System Cluster ClusterInput Effect :=
  Machine.ofFunction (newCluster addresses) Cluster.step

/-! ### Everything one event can do -/

inductive ClusterStep [Runtime] (w : Cluster) : ClusterInput → Cluster → List Effect → Prop
  | process {shard : ShardId} {env : Env} {input : ServerInput} {t : Server} {os : List Effect}
      (hi : ServerInput.isSettle input = false)
      (h : (w.shards shard).server.step (env, input) = some (t, os)) :
      ClusterStep w (.process shard env input)
        { w.setShard shard ⟨t, (w.shards shard).pipe ++ os.flatMap Command.ofEffect⟩ with
          closing := w.closing ++ os.filterMap closedRoom } os
  | record {shard : ShardId} {env : Env} {roomId : RoomId} {projection : RoomProjection}
      {pipe : List Command} (hp : (w.shards shard).pipe = .recordRoom roomId projection :: pipe) :
      ClusterStep w (.redis shard env)
        { w.setShard shard { w.shards shard with pipe := pipe } with
          redis := w.redis.recordRoom roomId projection } []
  | index {shard : ShardId} {env : Env} {roomId : RoomId} {isFull : Bool}
      {pipe : List Command} (hp : (w.shards shard).pipe = .indexRoom roomId isFull :: pipe) :
      ClusterStep w (.redis shard env)
        { w.setShard shard { w.shards shard with pipe := pipe } with
          redis := w.redis.indexRoom roomId isFull } []
  | load {shard : ShardId} {env : Env} {load : SessionLoad} {pipe : List Command}
      (hp : (w.shards shard).pipe = .publishSessionLoad load :: pipe) :
      ClusterStep w (.redis shard env)
        { w.setShard shard { w.shards shard with pipe := pipe } with
          redis := w.redis.publishSessionLoad load } []
  | answer {shard : ShardId} {env : Env} {socket : SocketId} {roomId : RoomId}
      {pipe : List Command} {t : Server} {os : List Effect}
      (hp : (w.shards shard).pipe = .checkAssigned socket roomId :: pipe)
      (h : (w.shards shard).server.step (env, .settle socket roomId
        (w.redis.isRoomAssignedHere (w.shards shard).server.self.shardId roomId)) = some (t, os)) :
      ClusterStep w (.redis shard env) (w.setShard shard ⟨t, pipe⟩) os
  | claim (roomId : RoomId) (shard : ShardId) :
      ClusterStep w (.claim roomId shard) (w.claim roomId shard) []
  | reserve {roomId : RoomId} (h : roomId ∈ w.claimed) :
      ClusterStep w (.reserve roomId)
        { w with redis := w.redis.reserve roomId, claimed := w.claimed.erase roomId } []
  | deliver {roomId : RoomId} (h : roomId ∈ w.closing) :
      ClusterStep w (.deliver roomId)
        { w with
          redis := w.redis.deleteRoom (normalizeRoomCode roomId)
          closing := w.closing.erase roomId
          unindexing := normalizeRoomCode roomId :: w.unindexing } []
  | unindex {roomId : RoomId} (h : roomId ∈ w.unindexing) :
      ClusterStep w (.unindex roomId)
        { w with
          redis := w.redis.unindexRoom roomId
          unindexing := w.unindexing.erase roomId } []
  | expire (roomId : RoomId) :
      ClusterStep w (.expire roomId) { w with redis := w.redis.expireRoom roomId } []

section
variable [Runtime] {addresses : Addresses}

theorem cluster_step {w v : Cluster} {input : ClusterInput} {os : List Effect}
    (h : (clusterSystem addresses).step w input v os) : ClusterStep w input v os := by
  change w.step input = some (v, os) at h
  cases input with
  | process shard env input =>
    change w.process shard env input = _ at h
    unfold Cluster.process at h
    split_ifs at h with hi
    obtain ⟨r, hr, he⟩ := Option.map_eq_some_iff.mp h
    cases he
    exact .process (by simpa using hi) hr
  | redis shard env =>
    change w.runCommand shard env = _ at h
    unfold Cluster.runCommand at h
    split at h
    · cases h
    · rename_i roomId projection pipe hp
      cases h
      exact .record hp
    · rename_i roomId isFull pipe hp
      cases h
      exact .index hp
    · rename_i load pipe hp
      cases h
      exact .load hp
    · rename_i socket roomId pipe hp
      obtain ⟨r, hr, he⟩ := Option.map_eq_some_iff.mp h
      cases he
      exact .answer hp hr
  | claim roomId shard =>
    cases h
    exact .claim roomId shard
  | reserve roomId =>
    simp only [Cluster.step] at h
    split_ifs at h with hm
    cases h
    exact .reserve hm
  | deliver roomId =>
    simp only [Cluster.step] at h
    split_ifs at h with hm
    cases h
    exact .deliver hm
  | unindex roomId =>
    simp only [Cluster.step] at h
    split_ifs at h with hm
    cases h
    exact .unindex hm
  | expire roomId =>
    cases h
    exact .expire roomId

/-! ### Every process of the cluster is a process -/

theorem cluster_process {w : Cluster} (hr : Machine.Reachable (clusterSystem addresses) w)
    (shard : ShardId) :
    Machine.Reachable (serverSystem (addresses.identity shard)) (w.shards shard).server := by
  refine hr.invariant (I := fun w => ∀ shard,
    Machine.Reachable (serverSystem (addresses.identity shard)) (w.shards shard).server) ?_ ?_ shard
  · intro w hw shard
    rw [show w = newCluster addresses from hw]
    exact .start rfl
  · intro w i v os h hs k
    have hset : ∀ shard (t : Server) (pipe : List Command),
        Machine.Reachable (serverSystem (addresses.identity shard)) t →
        Machine.Reachable (serverSystem (addresses.identity k))
          ((w.setShard shard ⟨t, pipe⟩).shards k).server := by
      intro shard t pipe ht
      rw [Cluster.shards_setShard]
      split_ifs with hk
      · rw [hk]
        exact ht
      · exact h k
    cases cluster_step hs with
    | process _ hstep => exact hset _ _ _ ((h _).step hstep)
    | record _ => exact hset _ _ _ (h _)
    | index _ => exact hset _ _ _ (h _)
    | load _ => exact hset _ _ _ (h _)
    | answer _ hstep => exact hset _ _ _ ((h _).step hstep)
    | claim _ _ => exact h k
    | reserve _ => exact h k
    | deliver _ => exact h k
    | unindex _ => exact h k
    | expire _ => exact h k

end

end GachaMind
