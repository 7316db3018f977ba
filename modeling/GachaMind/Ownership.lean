import GachaMind.Cluster
import GachaMind.Lib.Lease

/-!
# Which shard a room belongs to

The record `room:{roomId}` is the register that names the shard of a room. A shard claims
a code while it holds the room, while one of its joins has passed the check of the code
and while a projection of the room waits in its connection. `RecordFree` guards the two
events that strike a record out, a close callback and an expiry: with it the cluster
follows the rules of `Lease`, so records name the shards that hold the rooms and no room
is split. Nothing in the code enforces the guard.
-/

namespace GachaMind
open GachaMind.Js GachaMind.Shared GachaMind.GameSession KeyedTable

/-! ### Claims -/

/-- The process holds the room, or will create it for a join that passed the check. -/
def Server.Claims (s : Server) (roomId : RoomId) : Prop :=
  roomId ∈ s.rooms.keys ∨ ∃ w ∈ s.waiting, w.granted = some roomId

def Command.syncs : Command → Option RoomId
  | .recordRoom roomId _ => some roomId
  | _ => none

def Shard.Claims (x : Shard) (roomId : RoomId) : Prop :=
  Server.Claims x.server roomId ∨ ∃ c ∈ x.pipe, c.syncs = some roomId

structure Shard.SpeaksAs (x : Shard) (shard : ShardId) : Prop where
  self : x.server.self.shardId = shard
  projections : ∀ roomId projection, .recordRoom roomId projection ∈ x.pipe →
    projection.shard = shard

instance (s : Server) (roomId : RoomId) : Decidable (Server.Claims s roomId) :=
  inferInstanceAs (Decidable (_ ∨ _))

instance (x : Shard) (roomId : RoomId) : Decidable (x.Claims roomId) :=
  inferInstanceAs (Decidable (_ ∨ _))

/-- The shard that the record of a code names does not claim the code. -/
def Cluster.RecordFree (w : Cluster) (roomId : RoomId) : Prop :=
  ∀ shard ∈ (w.redis.room roomId).shard, ¬ (w.shards shard).Claims roomId

instance (w : Cluster) (roomId : RoomId) : Decidable (w.RecordFree roomId) :=
  inferInstanceAs (Decidable (∀ shard ∈ (w.redis.room roomId).shard, _))

/-- A record is struck out only when its shard does not claim the code. -/
def RecordsKept [Runtime] (w : Cluster) : ClusterInput → Prop
  | .deliver roomId => w.RecordFree (normalizeRoomCode roomId)
  | .expire roomId => w.RecordFree roomId
  | _ => True

instance [Runtime] (w : Cluster) : ∀ input, Decidable (RecordsKept w input)
  | .deliver roomId => inferInstanceAs (Decidable (w.RecordFree (normalizeRoomCode roomId)))
  | .expire roomId => inferInstanceAs (Decidable (w.RecordFree roomId))
  | .process _ _ _ | .redis _ _ | .claim _ _ | .reserve _ | .unindex _ =>
    inferInstanceAs (Decidable True)

/-- Every room that a process holds has its record, under the name of the process. -/
def Cluster.Recorded (w : Cluster) : Prop :=
  ∀ shard, ∀ room ∈ (w.shards shard).server.rooms.rows,
    (w.redis.room room.id).shard = some shard

def Cluster.Unsplit (w : Cluster) : Prop :=
  ∀ a b, ∀ roomId ∈ (w.shards a).server.rooms.keys, roomId ∈ (w.shards b).server.rooms.keys → a = b

/-! ### A process gains claims by the check only -/

theorem mem_without_waiting {s : Server} {socket : SocketId} {w : Waiting}
    (h : w ∈ (s.without socket).waiting) : w ∈ s.waiting :=
  List.mem_of_mem_eraseP h

theorem keys_setRoom {s : Server} {room t : Room} (hroom : room.id ∈ s.rooms.keys)
    (hid : t.id = room.id) {roomId : RoomId} (h : roomId ∈ (s.setRoom t).rooms.keys) :
    roomId ∈ s.rooms.keys := by
  rcases mem_keys_set.mp h with hk | hk
  · rw [hk, hid]
    exact hroom
  · exact hk

theorem claims_of_offers {s : Server} {w : Waiting} {room : Room} (hw : w ∈ s.waiting)
    (h : s.Offers w room) : Server.Claims s room.id := by
  rcases h with hroom | ⟨-, -, hg⟩
  · exact .inl (mem_keys_of_get? hroom)
  · exact .inr ⟨w, hw, hg⟩

section
variable [Runtime] {s t : Server} {env : Env} {input : ServerInput} {os : List Effect}

theorem serverStep_granted (hi : ServerInput.isSettle input = false)
    (h : ServerStep s env input t os) {v : Waiting} {roomId : RoomId} (hv : v ∈ t.waiting)
    (hg : v.granted = some roomId) : v ∈ s.waiting := by
  cases h with
  | settle _ _ _ => cases hi
  | startJoin _ _ _ =>
    rcases List.mem_append.mp hv with hv | hv
    · exact hv
    · rw [List.mem_singleton.mp hv] at hg
      cases hg
  | abandon _ => exact mem_without_waiting hv
  | refuse _ _ => exact mem_without_waiting hv
  | ask _ _ =>
    rcases List.mem_append.mp hv with hv | hv
    · exact mem_without_waiting hv
    · rw [List.mem_singleton.mp hv] at hg
      cases hg
  | seat _ _ _ _ _ _ => exact mem_without_waiting hv
  | _ => exact hv

theorem serverStep_keys (hrun : ∀ room ∈ s.rooms.rows, RoomRun s.issued room)
    (h : ServerStep s env input t os) {roomId : RoomId} (hk : roomId ∈ t.rooms.keys) :
    Server.Claims s roomId := by
  cases h with
  | play hroom _ hstep =>
    have hid := (gameStep_room ((hrun _ (get?_eq_some.mp hroom).1).gameStep hstep)).1
    exact .inl (keys_setRoom (mem_keys_of_get? hroom) hid hk)
  | seat hw _ hroom _ ht _ =>
    subst ht
    rcases mem_keys_set.mp hk with hk | hk
    · rw [hk, seatPlayer_id]
      exact claims_of_offers hw hroom
    · exact .inl hk
  | @closeMember c room left playerId _ _ _ _ _ hroom hl _ _ =>
    have hid : left.id = room.id := by
      have := leaveRoom_id ((s.markClosed c.socket).see env) room playerId
      rwa [hl] at this
    exact .inl (keys_setRoom (mem_keys_of_get? hroom) hid hk)
  | closeLast _ _ _ _ _ _ _ _ => exact .inl (mem_keys_erase.mp hk).1
  | _ => exact .inl hk

theorem serverStep_claims (hrun : ∀ room ∈ s.rooms.rows, RoomRun s.issued room)
    (hi : ServerInput.isSettle input = false) (h : ServerStep s env input t os)
    {roomId : RoomId} (hc : Server.Claims t roomId) : Server.Claims s roomId := by
  rcases hc with hk | ⟨w, hw, hg⟩
  · exact serverStep_keys hrun h hk
  · exact .inr ⟨w, serverStep_granted hi h hw hg, hg⟩

theorem serverStep_syncs (h : ServerStep s env input t os) {roomId : RoomId}
    {projection : RoomProjection} (he : .syncOccupancy roomId projection ∈ os) :
    Server.Claims s roomId ∧ projection.shard = s.self.shardId := by
  have hknown : AllKnown s os → Server.Claims s roomId ∧ projection.shard = s.self.shardId := by
    intro hos
    exact ⟨.inl (hos _ he).1, (hos _ he).2⟩
  cases h with
  | still hos => exact hknown hos
  | play hroom _ hstep =>
    have hlocal := (roomStep_local hstep).known (mem_keys_of_get? hroom) rfl
    exact hknown hlocal
  | seat hw _ hroom _ ht hos =>
    subst ht
    obtain ⟨hk, hshard⟩ := hos _ he
    refine ⟨?_, hshard⟩
    rcases mem_keys_set.mp hk with hk | hk
    · rw [hk, seatPlayer_id]
      exact claims_of_offers hw hroom
    · exact .inl hk
  | closeMember _ _ _ _ _ _ hos => exact hknown hos
  | closeLast _ _ _ _ _ _ hos hps =>
    rcases List.mem_append.mp he with he | he
    · exact ⟨.inl (hos _ he).1, (hos _ he).2⟩
    · rcases List.mem_cons.mp he with he | he
      · cases he
      · exact ⟨.inl (hps _ he).1, (hps _ he).2⟩
  | refuse _ _ => simp at he
  | ask _ _ => simp at he
  | _ => cases he

theorem serverStep_self (h : ServerStep s env input t os) : t.self = s.self := by
  cases h <;> rfl

omit [Runtime] in
theorem settle_claims {socket : SocketId} {code roomId : RoomId} {answer : Bool}
    (hc : Server.Claims (s.settle socket code answer) roomId) :
    Server.Claims s roomId ∨ answer = true ∧ roomId = code := by
  rcases hc with hk | ⟨w, hw, hg⟩
  · exact .inl (.inl hk)
  · obtain ⟨v, hv, rfl⟩ := List.mem_map.mp hw
    split_ifs at hg with hasks
    · cases v with
      | identity call => cases hg
      | assignment call who asked a =>
        cases a with
        | some a => exact .inl (.inr ⟨_, hv, hg⟩)
        | none =>
          have hcode : asked = code := (of_decide_eq_true hasks).2
          cases answer with
          | false => cases hg
          | true =>
            have hroom : asked = roomId := Option.some.inj hg
            exact .inr ⟨rfl, hroom.symm.trans hcode⟩
    · exact .inl (.inr ⟨v, hv, hg⟩)

end

/-! ### The cluster follows the rules -/

namespace Cluster

def lease (w : Cluster) : Lease.State RoomId ShardId where
  owner roomId := (w.redis.room roomId).shard
  claims shard := {roomId | (w.shards shard).Claims roomId}

structure Inv (w : Cluster) : Prop where
  named : ∀ shard, (w.shards shard).SpeaksAs shard
  backed : w.lease.Backed

theorem claims_setShard {w : Cluster} {shard k : ShardId} {x : Shard}
    (h : ∀ roomId, x.Claims roomId → (w.shards shard).Claims roomId) {roomId : RoomId}
    (hc : ((w.setShard shard x).shards k).Claims roomId) : (w.shards k).Claims roomId := by
  rw [shards_setShard] at hc
  split_ifs at hc with hk
  · rw [hk]
    exact h roomId hc
  · exact hc

theorem claims_pipe {x : Shard} {c : Command} {pipe : List Command} (hp : x.pipe = c :: pipe)
    {roomId : RoomId} (h : Shard.Claims { x with pipe := pipe } roomId) : x.Claims roomId := by
  rcases h with h | ⟨d, hd, hs⟩
  · exact .inl h
  · exact .inr ⟨d, hp ▸ List.mem_cons_of_mem c hd, hs⟩

theorem Inv.unclaimed {w : Cluster} (h : w.Inv) {roomId : RoomId} (hf : w.RecordFree roomId)
    (shard : ShardId) : roomId ∉ w.lease.claims shard :=
  fun hc => hf shard (h.backed shard roomId hc) hc

end Cluster

theorem mem_commands {os : List Effect} {roomId : RoomId} {projection : RoomProjection}
    (h : .recordRoom roomId projection ∈ os.flatMap Command.ofEffect) :
    .syncOccupancy roomId projection ∈ os := by
  obtain ⟨e, he, hc⟩ := List.mem_flatMap.mp h
  cases e <;> simp [Command.ofEffect] at hc
  obtain ⟨rfl, rfl⟩ := hc
  exact he

section
variable [Runtime] {addresses : Addresses}

theorem process_claims {s t : Server} {env : Env} {input : ServerInput} {os : List Effect}
    (hrun : ∀ room ∈ s.rooms.rows, RoomRun s.issued room)
    (hi : ServerInput.isSettle input = false) (h : s.step (env, input) = some (t, os)) :
    t.self = s.self ∧ (∀ roomId, Server.Claims t roomId → Server.Claims s roomId) ∧
      ∀ roomId projection, .syncOccupancy roomId projection ∈ os →
        Server.Claims s roomId ∧ projection.shard = s.self.shardId := by
  have hs : (serverSystem s.self).step s (env, input) t os := h
  obtain ⟨-, u, hstep, rfl⟩ := server_step hs
  have hself : u.self = s.self := serverStep_self hstep
  exact ⟨hself, fun _ hc => serverStep_claims hrun hi hstep hc,
    fun _ _ he => serverStep_syncs hstep he⟩

theorem step_settle {s t : Server} {env : Env} {socket : SocketId} {roomId : RoomId}
    {answer : Bool} {os : List Effect}
    (h : s.step (env, .settle socket roomId answer) = some (t, os)) :
    t = { s.settle socket roomId answer with issued := env.uuid :: s.issued } ∧ os = [] := by
  simp only [Server.step, Server.handle] at h
  split_ifs at h
  cases h
  exact ⟨rfl, rfl⟩

theorem answer_claims {x : Shard} {t : Server} {env : Env} {socket : SocketId} {roomId : RoomId}
    {answer : Bool} {pipe : List Command} {os : List Effect}
    (hp : x.pipe = .checkAssigned socket roomId :: pipe)
    (h : x.server.step (env, .settle socket roomId answer) = some (t, os)) {l : RoomId}
    (hc : Shard.Claims ⟨t, pipe⟩ l) : x.Claims l ∨ answer = true ∧ l = roomId := by
  obtain ⟨rfl, -⟩ := step_settle h
  rcases hc with hc | ⟨c, hc, hsync⟩
  · exact (settle_claims hc).imp_left .inl
  · exact .inl (.inr ⟨c, hp ▸ List.mem_cons_of_mem _ hc, hsync⟩)

theorem clusterStep_lease {w v : Cluster} {input : ClusterInput} {os : List Effect}
    (hrun : ∀ shard, ∀ room ∈ (w.shards shard).server.rooms.rows,
      RoomRun (w.shards shard).server.issued room)
    (h : w.Inv) (hk : RecordsKept w input) (hs : ClusterStep w input v os) :
    Lease.Step w.lease v.lease := by
  -- a command that has run leaves no more claims than there were
  have hpop : ∀ {shard c pipe}, (w.shards shard).pipe = c :: pipe → ∀ k,
      (w.setShard shard { w.shards shard with pipe := pipe }).lease.claims k ⊆ w.lease.claims k :=
    fun hp k l hl => Cluster.claims_setShard (fun _ => Cluster.claims_pipe hp) hl
  cases hs with
  | @process shard env input t os hi hstep =>
    obtain ⟨-, hclaims, hsyncs⟩ := process_claims (hrun shard) hi hstep
    refine .drop (fun k l hl => Cluster.claims_setShard (fun roomId hc => ?_) hl) rfl
    rcases hc with hc | ⟨c, hc, hsync⟩
    · exact .inl (hclaims roomId hc)
    · rcases List.mem_append.mp hc with hc | hc
      · exact .inr ⟨c, hc, hsync⟩
      · cases c with
        | recordRoom code projection =>
          obtain rfl := Option.some.inj hsync
          exact .inl (hsyncs _ _ (mem_commands hc)).1
        | _ => cases hsync
  | @record shard env roomId projection pipe hp =>
    have hmem : .recordRoom roomId projection ∈ (w.shards shard).pipe := by simp [hp]
    have hclaim : roomId ∈ w.lease.claims shard := .inr ⟨_, hmem, rfl⟩
    refine .refresh hclaim (hpop hp) ?_
    funext k
    rw [Function.update_apply, ← (h.named shard).projections roomId projection hmem]
    exact Redis.shard_recordRoom _ _ _ _
  | index hp => exact .drop (hpop hp) rfl
  | load hp => exact .drop (hpop hp) rfl
  | @answer shard env socket roomId pipe t os hp hstep =>
    have hgain : ∀ k l, l ∈ (w.setShard shard ⟨t, pipe⟩).lease.claims k → l ∈ w.lease.claims k ∨
        (w.redis.isRoomAssignedHere (w.shards shard).server.self.shardId roomId = true ∧
          k = shard ∧ l = roomId) := by
      intro k l hl
      change ((w.setShard shard ⟨t, pipe⟩).shards k).Claims l at hl
      rw [Cluster.shards_setShard] at hl
      split_ifs at hl with hk
      · subst hk
        exact (answer_claims hp hstep hl).imp_right fun hyes => ⟨hyes.1, rfl, hyes.2⟩
      · exact .inl hl
    cases hyes : w.redis.isRoomAssignedHere (w.shards shard).server.self.shardId roomId with
    | false =>
      refine .drop (fun k l hl => ?_) rfl
      exact (hgain k l hl).resolve_right fun hno => by simp [hyes] at hno
    | true =>
      have howner : (w.redis.room roomId).shard = some shard := by
        rw [of_decide_eq_true hyes, (h.named shard).self]
      exact .check howner (fun k l hl => (hgain k l hl).imp_right And.right) rfl
  | claim roomId shard =>
    cases hr : (w.redis.room roomId).shard with
    | some owner =>
      have hsame : (w.redis.claimRoomCode roomId shard).1 = w.redis := by
        simp [Redis.claimRoomCode, hr]
      exact .drop (fun _ => subset_rfl) (congrArg (fun r k => (r.room k).shard) hsame)
    | none =>
      refine .take (a := shard) hr (fun _ => subset_rfl) (funext fun k => ?_)
      rw [Function.update_apply]
      exact Redis.shard_claimRoomCode _ _ _ _ hr
  | reserve _ => exact .drop (fun _ => subset_rfl) (funext fun k => Redis.shard_reserve _ _ _)
  | deliver _ =>
    refine .strike (h.unclaimed hk) (fun _ => subset_rfl) (funext fun k => ?_)
    rw [Function.update_apply]
    exact Redis.shard_deleteRoom _ _ _
  | unindex _ => exact .drop (fun _ => subset_rfl) rfl
  | expire _ =>
    refine .strike (h.unclaimed hk) (fun _ => subset_rfl) (funext fun k => ?_)
    rw [Function.update_apply]
    exact Redis.shard_expireRoom _ _ _

theorem clusterStep_inv {w v : Cluster} {input : ClusterInput} {os : List Effect}
    (hrun : ∀ shard, ∀ room ∈ (w.shards shard).server.rooms.rows,
      RoomRun (w.shards shard).server.issued room)
    (h : w.Inv) (hk : RecordsKept w input) (hs : ClusterStep w input v os) : v.Inv := by
  refine ⟨fun k => ?_, (clusterStep_lease hrun h hk hs).backed h.backed⟩
  have hset : ∀ shard x, x.SpeaksAs shard → ((w.setShard shard x).shards k).SpeaksAs k := by
    intro shard x hx
    rw [Cluster.shards_setShard]
    split_ifs with hk
    · exact hk ▸ hx
    · exact h.named k
  have hpop : ∀ {shard c pipe}, (w.shards shard).pipe = c :: pipe →
      Shard.SpeaksAs { w.shards shard with pipe := pipe } shard := by
    intro shard c pipe hp
    refine ⟨(h.named shard).self, fun roomId projection hm => ?_⟩
    exact (h.named shard).projections roomId projection (hp ▸ List.mem_cons_of_mem c hm)
  cases hs with
  | @process shard env input t os hi hstep =>
    obtain ⟨hself, -, hsyncs⟩ := process_claims (hrun shard) hi hstep
    refine hset shard _ ⟨hself ▸ (h.named shard).self, fun roomId projection hm => ?_⟩
    rcases List.mem_append.mp hm with hm | hm
    · exact (h.named shard).projections roomId projection hm
    · exact (hsyncs roomId projection (mem_commands hm)).2.trans (h.named shard).self
  | record hp => exact hset _ _ (hpop hp)
  | index hp => exact hset _ _ (hpop hp)
  | load hp => exact hset _ _ (hpop hp)
  | answer hp hstep =>
    obtain ⟨rfl, -⟩ := step_settle hstep
    exact hset _ _ ⟨(hpop hp).self, (hpop hp).projections⟩
  | claim _ _ => exact h.named k
  | reserve _ => exact h.named k
  | deliver _ => exact h.named k
  | unindex _ => exact h.named k
  | expire _ => exact h.named k

omit [Runtime] in
theorem newCluster_inv (addresses : Addresses) : (newCluster addresses).Inv where
  named shard := ⟨addresses.named shard, fun _ _ hm => absurd hm List.not_mem_nil⟩
  backed shard roomId hc := by
    rcases hc with (hk | ⟨w, hw, -⟩) | ⟨c, hc, -⟩
    · exact absurd hk List.not_mem_nil
    · exact absurd hw List.not_mem_nil
    · exact absurd hc List.not_mem_nil

theorem cluster_inv {w : Cluster}
    (hr : Machine.Reachable ((clusterSystem addresses).restrict RecordsKept) w) : w.Inv := by
  refine hr.invariant_of (J := fun w => ∀ shard, ∀ room ∈ (w.shards shard).server.rooms.rows,
    RoomRun (w.shards shard).server.issued room) ?_ ?_ ?_
  · exact fun w hr shard => server_room_reachable (cluster_process hr.of_restrict shard)
  · intro w h
    obtain rfl := h
    exact newCluster_inv addresses
  · intro w i v os hrun h hstep
    obtain ⟨hk, hs⟩ := hstep
    exact clusterStep_inv hrun h hk (cluster_step hs)

theorem records_kept (addresses : Addresses) (w : Cluster)
    (hr : Machine.Reachable ((clusterSystem addresses).restrict RecordsKept) w) : w.Recorded :=
  fun shard _ hroom => (cluster_inv hr).backed shard _ (.inl (.inl (key_mem_keys hroom)))

theorem rooms_unsplit (addresses : Addresses) (w : Cluster)
    (hr : Machine.Reachable ((clusterSystem addresses).restrict RecordsKept) w) : w.Unsplit :=
  fun _ _ _ ha hb => (cluster_inv hr).backed.exclusive (.inl (.inl ha)) (.inl (.inl hb))

end

/-! ### Runs on fixed inputs -/

def localAddresses : Addresses where
  identity shard := ⟨shard, utf16 "localhost", 4001⟩
  named _ := rfl

/-- A guest's join at a shard, the `n`-th UUIDs on, until its room is synced. -/
def joinAt (shard : String) (n : ℕ) (socket : SocketId) (code : String) : List ClusterInput :=
  [.process (utf16 shard) (plainEnv n) (.connect socket (.ok none)),
   .process (utf16 shard) (plainEnv (n + 1)) (.message socket (joinFrame code)),
   .process (utf16 shard) (plainEnv (n + 2)) (.resume socket),
   .redis (utf16 shard) (plainEnv (n + 3)),
   .process (utf16 shard) (plainEnv (n + 4)) (.resume socket),
   .redis (utf16 shard) (plainEnv (n + 5)),
   .redis (utf16 shard) (plainEnv (n + 6)),
   .redis (utf16 shard) (plainEnv (n + 7))]

/-- A room of shard "a" is opened and closed, its close callback is handled, and shard "b" gets
the code. -/
def reuseInputs : List ClusterInput :=
  [.claim (utf16 "AB3DE") (utf16 "a"), .reserve (utf16 "AB3DE")] ++ joinAt "a" 0 0 "AB3DE" ++
  [.process (utf16 "a") (plainEnv 10) (.close 0), .redis (utf16 "a") (plainEnv 11),
   .deliver (utf16 "AB3DE"), .unindex (utf16 "AB3DE"), .claim (utf16 "AB3DE") (utf16 "b"),
   .reserve (utf16 "AB3DE")] ++
  joinAt "b" 0 0 "AB3DE"

/-- The only player of a room leaves and comes back before the close callback is handled. -/
def refreshInputs : List ClusterInput :=
  [.claim (utf16 "AB3DE") (utf16 "a"), .reserve (utf16 "AB3DE")] ++ joinAt "a" 0 0 "AB3DE" ++
  [.process (utf16 "a") (plainEnv 10) (.close 0), .redis (utf16 "a") (plainEnv 11)] ++
  joinAt "a" 20 1 "AB3DE" ++ [.deliver (utf16 "AB3DE"), .unindex (utf16 "AB3DE")]

def splitInputs : List ClusterInput :=
  refreshInputs ++ [.claim (utf16 "AB3DE") (utf16 "b"), .reserve (utf16 "AB3DE")] ++
  joinAt "b" 0 0 "AB3DE"

theorem reuse_run : ∃ w os,
    Machine.Run ((@clusterSystem plainRuntime localAddresses).restrict (@RecordsKept plainRuntime))
      reuseInputs w os ∧ utf16 "AB3DE" ∈ (w.shards (utf16 "b")).server.rooms.keys :=
  ⟨_, _, Machine.exec_restrict_run (by decide +kernel), by decide +kernel⟩

theorem reuse_recorded : ∃ w os,
    Machine.Run ((@clusterSystem plainRuntime localAddresses).restrict (@RecordsKept plainRuntime))
      reuseInputs w os ∧ utf16 "AB3DE" ∈ (w.shards (utf16 "b")).server.rooms.keys ∧
      w.Recorded := by
  obtain ⟨w, os, hrun, hkey⟩ := reuse_run
  exact ⟨w, os, hrun, hkey, @records_kept plainRuntime localAddresses w ⟨_, os, hrun⟩⟩

/-- The late close callback strikes out the record of the room that was opened again. -/
theorem refresh_unrecorded : ∃ w os,
    Machine.Run (@clusterSystem plainRuntime localAddresses) refreshInputs w os ∧
    w.closing = [] ∧ w.unindexing = [] ∧ ∃ room ∈ (w.shards (utf16 "a")).server.rooms.rows,
      0 < room.size ∧ (w.redis.room room.id).shard ≠ some (utf16 "a") :=
  ⟨_, _, Machine.exec_get_run (by decide +kernel), by decide +kernel, by decide +kernel,
    by decide +kernel⟩

theorem reuse_unsplit : ∃ w os,
    Machine.Run ((@clusterSystem plainRuntime localAddresses).restrict (@RecordsKept plainRuntime))
      reuseInputs w os ∧ utf16 "AB3DE" ∈ (w.shards (utf16 "b")).server.rooms.keys ∧
      w.Unsplit := by
  obtain ⟨w, os, hrun, hkey⟩ := reuse_run
  exact ⟨w, os, hrun, hkey, @rooms_unsplit plainRuntime localAddresses w ⟨_, os, hrun⟩⟩

/-- Without its record the code goes to another shard, and both hold a room with a player. -/
theorem refresh_split : ∃ w os,
    Machine.Run (@clusterSystem plainRuntime localAddresses) splitInputs w os ∧ ¬ w.Unsplit ∧
    (∃ room ∈ (w.shards (utf16 "a")).server.rooms.rows, room.id = utf16 "AB3DE" ∧ 0 < room.size) ∧
    ∃ room ∈ (w.shards (utf16 "b")).server.rooms.rows, room.id = utf16 "AB3DE" ∧ 0 < room.size := by
  refine ⟨_, _, Machine.exec_get_run (by decide +kernel), fun h => ?_, by decide +kernel,
    by decide +kernel⟩
  exact absurd (h (utf16 "a") (utf16 "b") (utf16 "AB3DE") (by decide +kernel) (by decide +kernel))
    (by decide)

end GachaMind
