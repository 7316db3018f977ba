import GachaMind.Cluster

/-!
# The index of joinable rooms (apps/matchmaking/src/index.ts, apps/game-session/src/occupancy.ts)

`rooms:joinable` is written by the pipelines of `syncOccupancy` and pruned by the calls of
matchmaking: a call of `readJoinableRooms` lists candidates, reads their records and removes
the stale ones, and `DELETE /rooms/:roomId` deletes a record and removes its room. Between two
commands of a call anything can run.
-/

namespace GachaMind
open GachaMind.Js GachaMind.Shared GachaMind.GameSession

/-! ### Reading the candidates -/

/-- `playerCount` and `capacity` are none where `Number` of a missing field is NaN. -/
structure RoomSummary where
  roomId : RoomId
  shard : ShardId
  playerCount : Option ℕ
  capacity : Option ℕ
  phase : GamePhase
  deriving DecidableEq

/-- The record has no shard, or is not below its capacity. NaN compares with nothing. -/
def RoomHash.isStale (hash : RoomHash) : Bool :=
  !truthy hash.shard ||
    match hash.playerCount, hash.capacity with
    | some playerCount, some capacity => decide (capacity ≤ playerCount)
    | _, _ => false

def RoomHash.summary (hash : RoomHash) (roomId : RoomId) : RoomSummary where
  roomId := roomId
  shard := hash.shard.getD []
  playerCount := hash.playerCount
  capacity := hash.capacity
  phase := hash.phase.getD .waiting

/-- The candidates with the records that the first pipeline of `readJoinableRooms` reads. -/
abbrev CandidateHashes := List (RoomId × RoomHash)

def Redis.readCandidates (r : Redis) (candidates : List RoomId) : CandidateHashes :=
  candidates.map fun roomId => (roomId, r.room roomId)

/-- The rooms that `readJoinableRooms` answers. -/
def aliveRooms (results : CandidateHashes) : List RoomSummary :=
  (results.filter fun entry => !entry.2.isStale).map fun entry => entry.2.summary entry.1

/-- The rooms that it removes from the index. -/
def staleRooms (results : CandidateHashes) : List RoomId :=
  (results.filter fun entry => entry.2.isStale).map Prod.fst

/-- `SREM`. -/
def Redis.removeRooms (r : Redis) (rooms : List RoomId) : Redis :=
  { r with joinable := r.joinable.filter fun roomId => roomId ∉ rooms }

/-! ### The system -/

/-- A call of matchmaking in flight: it has listed its candidates, it has read them and its
`SREM` is to come, or it has deleted a record and its `SREM` is to come. -/
inductive MatchmakingCall where
  | listed (candidates : List RoomId)
  | answered (results : CandidateHashes)
  | deleting (roomId : RoomId)
  deriving DecidableEq

/-- `pipes` holds the commands that the processes have issued and Redis has not run yet. -/
structure JoinableIndex where
  redis : Redis
  pipes : ShardId → List Command
  calls : List MatchmakingCall

inductive IndexInput where
  /-- `syncOccupancy` of the process that the projection names. -/
  | sync (roomId : RoomId) (projection : RoomProjection)
  /-- Redis runs the next command of a process. -/
  | run (shard : ShardId)
  /-- `SRANDMEMBER` or `SMEMBERS` of a new call. -/
  | list (candidates : List RoomId)
  | read (i : ℕ)
  | remove (i : ℕ)
  /-- The `DEL` of a new call of `DELETE /rooms/:roomId`. -/
  | delete (roomId : RoomId)
  | claim (roomId : RoomId) (shard : ShardId)
  | reserve (roomId : RoomId)
  | expire (roomId : RoomId)

namespace JoinableIndex

def setPipe (w : JoinableIndex) (shard : ShardId) (pipe : List Command) : JoinableIndex :=
  { w with pipes := Function.update w.pipes shard pipe }

@[simp] theorem pipes_setPipe (w : JoinableIndex) (shard k : ShardId) (pipe : List Command) :
    (w.setPipe shard pipe).pipes k = if k = shard then pipe else w.pipes k := by
  simp [setPipe, Function.update_apply]

def runCommand (r : Redis) : Command → Redis
  | .recordRoom roomId projection => r.recordRoom roomId projection
  | .indexRoom roomId isFull => r.indexRoom roomId isFull
  | .publishSessionLoad load => r.publishSessionLoad load
  | .checkAssigned _ _ => r

def step (w : JoinableIndex) : IndexInput → Option (JoinableIndex × List RoomSummary)
  | .sync roomId projection =>
    some (w.setPipe projection.shard
      (w.pipes projection.shard ++ Command.ofEffect (.syncOccupancy roomId projection)), [])
  | .run shard =>
    match w.pipes shard with
    | [] => none
    | command :: pipe =>
      some ({ w.setPipe shard pipe with redis := runCommand w.redis command }, [])
  | .list candidates =>
    if candidates ≠ [] ∧ ∀ roomId ∈ candidates, roomId ∈ w.redis.joinable then
      some ({ w with calls := w.calls ++ [.listed candidates] }, [])
    else none
  | .read i =>
    match w.calls[i]? with
    | some (.listed candidates) =>
      let results := w.redis.readCandidates candidates
      -- with nothing to remove the call answers at once
      if staleRooms results = [] then
        some ({ w with calls := w.calls.eraseIdx i }, aliveRooms results)
      else some ({ w with calls := w.calls.set i (.answered results) }, [])
    | _ => none
  | .remove i =>
    match w.calls[i]? with
    | some (.answered results) =>
      some ({ w with
        redis := w.redis.removeRooms (staleRooms results)
        calls := w.calls.eraseIdx i }, aliveRooms results)
    | some (.deleting roomId) =>
      some ({ w with
        redis := w.redis.removeRooms [roomId]
        calls := w.calls.eraseIdx i }, [])
    | _ => none
  | .delete roomId =>
    some ({ w with
      redis := w.redis.deleteRoom roomId
      calls := w.calls ++ [.deleting roomId] }, [])
  | .claim roomId shard => some ({ w with redis := (w.redis.claimRoomCode roomId shard).1 }, [])
  | .reserve roomId => some ({ w with redis := w.redis.reserve roomId }, [])
  | .expire roomId => some ({ w with redis := w.redis.expireRoom roomId }, [])

end JoinableIndex

/-- The last projection written for each room since its record was last deleted. -/
abbrev Written := RoomId → Option RoomProjection

def writtenAfter (written : Written) (w : JoinableIndex) (i : IndexInput) (_ : JoinableIndex)
    (_ : List RoomSummary) : Written :=
  match i with
  | .run shard =>
    match w.pipes shard with
    | .recordRoom roomId projection :: _ => Function.update written roomId (some projection)
    | _ => written
  | .delete roomId => Function.update written roomId none
  | _ => written

def newIndex : JoinableIndex := ⟨Redis.empty, fun _ => [], []⟩

def indexSystem : Machine.System (JoinableIndex × Written) IndexInput RoomSummary :=
  (Machine.ofFunction newIndex JoinableIndex.step).observe (fun _ => none) writtenAfter

/-! ### What the index owes to a room -/

def Command.about : Command → Option RoomId
  | .recordRoom roomId _ => some roomId
  | .indexRoom roomId _ => some roomId
  | _ => none

def Command.indexes (roomId : RoomId) : Command → Bool
  | .indexRoom k _ => decide (k = roomId)
  | _ => false

namespace JoinableIndex

/-- The projection has been written, and the command that indexes its room is the next one of
its process. -/
def HalfRun (w : JoinableIndex) (roomId : RoomId) (projection : RoomProjection) : Prop :=
  (w.pipes projection.shard).head?.any (Command.indexes roomId) = true

instance (w : JoinableIndex) (roomId : RoomId) (projection : RoomProjection) :
    Decidable (w.HalfRun roomId projection) :=
  inferInstanceAs (Decidable (_ = true))

end JoinableIndex

/-- Every room that is not full by the last projection written for it is joinable. -/
def AllJoinable (w : JoinableIndex) (written : Written) : Prop :=
  ∀ roomId, ∀ projection ∈ written roomId, projection.playerCount < projection.capacity →
    ¬ w.HalfRun roomId projection → roomId ∈ w.redis.joinable

/-- The record names no shard, or it says that the room is full. -/
def RoomHash.Closed (hash : RoomHash) : Prop :=
  (hash.shard = none ∨ hash.shard = some []) ∨ ∃ capacity playerCount,
    hash.capacity = some capacity ∧ hash.playerCount = some playerCount ∧ capacity ≤ playerCount

/-- A call whose `SREM` is to come has read the room closed, or has deleted its record. -/
def MatchmakingCall.SawClosed : MatchmakingCall → RoomId → Prop
  | .listed _, _ => False
  | .answered results, roomId => ∃ hash, (roomId, hash) ∈ results ∧ hash.Closed
  | .deleting k, roomId => k = roomId

/-- Between the `HGETALL` of a call that reads a room closed, or the `DEL` of a call, and its
`SREM` no `SADD` of the room runs. The record of a room that is not full does not expire, and
no process reports a room while a report of another process waits. -/
def ReportsApart (s : JoinableIndex × Written) : IndexInput → Prop
  | .sync roomId projection => projection.shard ≠ [] ∧ ∀ shard, shard ≠ projection.shard →
    ∀ command ∈ s.1.pipes shard, command.about ≠ some roomId
  | .run shard => ∀ roomId, (s.1.pipes shard).head? = some (.indexRoom roomId false) →
    ∀ call ∈ s.1.calls, ¬call.SawClosed roomId
  | .expire roomId => ∀ projection ∈ s.2 roomId, projection.capacity ≤ projection.playerCount
  | _ => True

/-! ### The pipes -/

/-- Whole pipelines of one process. -/
inductive Pipelines (shard : ShardId) : List Command → Prop
  | nil : Pipelines shard []
  | cons {roomId : RoomId} {projection : RoomProjection} {pipe : List Command}
      (hs : projection.shard = shard) (hne : projection.shard ≠ []) (h : Pipelines shard pipe) :
      Pipelines shard (Command.ofEffect (.syncOccupancy roomId projection) ++ pipe)

theorem Pipelines.append {shard : ShardId} {pipe rest : List Command}
    (h : Pipelines shard pipe) (h' : Pipelines shard rest) : Pipelines shard (pipe ++ rest) := by
  induction h with
  | nil => exact h'
  | cons hs hne _ ih =>
    rw [List.append_assoc]
    exact .cons hs hne ih

/-- Whole pipelines, the first of which may have written its projection. -/
def Piped (written : Written) (shard : ShardId) (pipe : List Command) : Prop :=
  Pipelines shard pipe ∨ ∃ roomId isFull rest, pipe = .indexRoom roomId isFull :: rest ∧
    Pipelines shard rest ∧ ∀ projection ∈ written roomId,
      projection.shard = shard ∧ isFull = decide (projection.capacity ≤ projection.playerCount)

theorem Piped.update {written : Written} {shard : ShardId} {pipe : List Command} {roomId : RoomId}
    {entry : Option RoomProjection} (h : Piped written shard pipe)
    (hout : (∀ command ∈ pipe, command.about ≠ some roomId) ∨ entry = none) :
    Piped (Function.update written roomId entry) shard pipe := by
  rcases h with h | ⟨k, isFull, rest, rfl, hrest, hk⟩
  · exact .inl h
  · refine .inr ⟨k, isFull, rest, rfl, hrest, fun projection hp => ?_⟩
    rw [Function.update_apply] at hp
    split_ifs at hp with hsame
    · rcases hout with hout | hnone
      · exact absurd (by rw [hsame]; rfl) (hout _ List.mem_cons_self)
      · rw [hnone] at hp
        cases hp
    · exact hk projection hp

/-- The next command writes a projection and the one after it indexes the room, or it indexes the
room of the projection written last. -/
inductive NextCommand (written : Written) (shard : ShardId) : Command → List Command → Prop
  | record {roomId : RoomId} {projection : RoomProjection} {rest : List Command}
      (hs : projection.shard = shard) (hne : projection.shard ≠ []) (hrest : Pipelines shard rest) :
      NextCommand written shard (.recordRoom roomId projection)
        (.indexRoom roomId (decide (projection.capacity ≤ projection.playerCount)) :: rest)
  | index {roomId : RoomId} {isFull : Bool} {rest : List Command} (hrest : Pipelines shard rest)
      (hlast : ∀ projection ∈ written roomId,
        projection.shard = shard ∧ isFull = decide (projection.capacity ≤ projection.playerCount)) :
      NextCommand written shard (.indexRoom roomId isFull) rest

theorem Piped.next {written : Written} {shard : ShardId} {command : Command} {pipe : List Command}
    (h : Piped written shard (command :: pipe)) : NextCommand written shard command pipe := by
  rcases h with hwhole | ⟨roomId, isFull, rest, hpipe, hrest, hlast⟩
  · cases hwhole with
    | cons hs hne hrest => exact .record hs hne hrest
  · obtain ⟨rfl, rfl⟩ := List.cons.inj hpipe
    exact .index hrest hlast

structure IndexInv (w : JoinableIndex) (written : Written) : Prop where
  piped : ∀ shard, Piped written shard (w.pipes shard)
  one : ∀ a b roomId, ∀ c ∈ w.pipes a, ∀ d ∈ w.pipes b, c.about = some roomId →
    d.about = some roomId → a = b
  joinable : AllJoinable w written
  opened : ∀ roomId, ∀ projection ∈ written roomId,
    projection.playerCount < projection.capacity → ¬(w.redis.room roomId).Closed
  reported : ∀ call ∈ w.calls, ∀ roomId, call.SawClosed roomId → ∀ projection ∈ written roomId,
    projection.playerCount < projection.capacity → w.HalfRun roomId projection

theorem RoomHash.isStale_iff {hash : RoomHash} : hash.isStale = true ↔ hash.Closed := by
  rw [RoomHash.isStale, RoomHash.Closed, Bool.or_eq_true]
  apply or_congr
  · cases hshard : hash.shard with
    | none => simp [truthy]
    | some shard => simp [truthy]
  · cases hash.playerCount with
    | none => simp
    | some playerCount =>
      cases hash.capacity with
      | none => simp
      | some capacity => simp

theorem mem_staleRooms {results : CandidateHashes} {roomId : RoomId} :
    roomId ∈ staleRooms results ↔ ∃ hash, (roomId, hash) ∈ results ∧ hash.Closed := by
  rw [staleRooms, List.mem_map]
  constructor
  · rintro ⟨⟨k, hash⟩, hentry, rfl⟩
    obtain ⟨hmem, hstale⟩ := List.mem_filter.mp hentry
    exact ⟨hash, hmem, RoomHash.isStale_iff.mp hstale⟩
  · rintro ⟨hash, hmem, hclosed⟩
    exact ⟨(roomId, hash), List.mem_filter.mpr ⟨hmem, RoomHash.isStale_iff.mpr hclosed⟩, rfl⟩

theorem mem_readCandidates {r : Redis} {candidates : List RoomId} {roomId : RoomId}
    {hash : RoomHash} (h : (roomId, hash) ∈ r.readCandidates candidates) :
    hash = r.room roomId := by
  obtain ⟨k, -, heq⟩ := List.mem_map.mp h
  obtain ⟨rfl, rfl⟩ := Prod.mk.inj heq
  rfl

theorem not_closed_hashOf {projection : RoomProjection} (hne : projection.shard ≠ [])
    (hn : projection.playerCount < projection.capacity) : ¬(hashOf projection).Closed := by
  rintro ((hnone | hempty) | ⟨capacity, playerCount, hcapacity, hcount, hle⟩)
  · cases hnone
  · exact hne (Option.some.inj hempty)
  · have hc : projection.capacity = capacity := Option.some.inj hcapacity
    have hp : projection.playerCount = playerCount := Option.some.inj hcount
    omega

theorem about_sync {roomId : RoomId} {projection : RoomProjection} :
    ∀ c ∈ Command.ofEffect (.syncOccupancy roomId projection), c.about = some roomId := by
  intro c hc
  rcases List.mem_pair.mp hc with rfl | rfl <;> rfl

section
variable {w : JoinableIndex} {written : Written}

theorem halfRun_congr {v : JoinableIndex} (hpipes : v.pipes = w.pipes) {roomId : RoomId}
    {projection : RoomProjection} : v.HalfRun roomId projection ↔ w.HalfRun roomId projection := by
  rw [JoinableIndex.HalfRun, JoinableIndex.HalfRun, hpipes]

theorem halfRun_append {shard : ShardId} {commands : List Command} {roomId : RoomId}
    {projection : RoomProjection} (h : w.HalfRun roomId projection) :
    (w.setPipe shard (w.pipes shard ++ commands)).HalfRun roomId projection := by
  unfold JoinableIndex.HalfRun at h ⊢
  rw [JoinableIndex.pipes_setPipe]
  split_ifs with hshard
  · rw [hshard] at h
    cases hpipe : w.pipes shard with
    | nil =>
      rw [hpipe] at h
      cases h
    | cons c pipe =>
      rw [hpipe] at h
      exact h
  · exact h

/-- A command that does not index the room leaves a half-run report of it as it is. -/
theorem halfRun_tail {shard : ShardId} {command : Command} {pipe : List Command} {roomId : RoomId}
    {projection : RoomProjection} {r : Redis} (hp : w.pipes shard = command :: pipe)
    (hother : command.indexes roomId = false) (h : w.HalfRun roomId projection) :
    ({ w.setPipe shard pipe with redis := r } : JoinableIndex).HalfRun roomId projection := by
  unfold JoinableIndex.HalfRun at h ⊢
  change ((w.setPipe shard pipe).pipes projection.shard).head?.any _ = true
  rw [JoinableIndex.pipes_setPipe]
  split_ifs with hk
  · rw [hk, hp, List.head?_cons, Option.any_some, hother] at h
    cases h
  · exact h

theorem IndexInv.sync (h : IndexInv w written) {roomId : RoomId} {projection : RoomProjection}
    (hne : projection.shard ≠ [])
    (hg : ∀ shard, shard ≠ projection.shard → ∀ c ∈ w.pipes shard, c.about ≠ some roomId) :
    IndexInv (w.setPipe projection.shard (w.pipes projection.shard ++
      Command.ofEffect (.syncOccupancy roomId projection))) written := by
  have hmem : ∀ shard, ∀ c ∈ (w.setPipe projection.shard (w.pipes projection.shard ++
      Command.ofEffect (.syncOccupancy roomId projection))).pipes shard,
      c ∈ w.pipes shard ∨ shard = projection.shard ∧ c.about = some roomId := by
    intro shard c hc
    rw [JoinableIndex.pipes_setPipe] at hc
    split_ifs at hc with hshard
    · rcases List.mem_append.mp hc with hc | hc
      · exact .inl (hshard ▸ hc)
      · exact .inr ⟨hshard, about_sync c hc⟩
    · exact .inl hc
  constructor
  case piped =>
    intro shard
    rw [JoinableIndex.pipes_setPipe]
    split_ifs with hshard
    · have hnew : Pipelines shard (Command.ofEffect (.syncOccupancy roomId projection)) := by
        rw [← List.append_nil (Command.ofEffect (.syncOccupancy roomId projection))]
        exact .cons hshard.symm hne .nil
      rcases h.piped projection.shard with hp | ⟨k, isFull, rest, hpipe, hrest, hk⟩
      · rw [← hshard] at hp ⊢
        exact .inl (hp.append hnew)
      · rw [hpipe, ← hshard] at *
        exact .inr ⟨k, isFull, _, rfl, hrest.append hnew, hk⟩
    · exact h.piped shard
  case one =>
    intro a b k c hc d hd hck hdk
    rcases hmem a c hc with hca | ⟨ha, hcr⟩
    · rcases hmem b d hd with hdb | ⟨hb, hdr⟩
      · exact h.one a b k c hca d hdb hck hdk
      · rw [hb]
        by_contra hne
        exact hg a hne c hca (hck.trans (hdk.symm.trans hdr))
    · rcases hmem b d hd with hdb | ⟨hb, hdr⟩
      · rw [ha]
        by_contra hne
        exact hg b (Ne.symm hne) d hdb (hdk.trans (hck.symm.trans hcr))
      · rw [ha, hb]
  case joinable =>
    intro k p hp hn hhalf
    exact h.joinable k p hp hn (mt halfRun_append hhalf)
  case opened => exact h.opened
  case reported =>
    intro call hcall k hclosed p hp hn
    exact halfRun_append (h.reported call hcall k hclosed p hp hn)

theorem IndexInv.one_tail (h : IndexInv w written) {shard : ShardId} {command : Command}
    {pipe : List Command} (hp : w.pipes shard = command :: pipe) :
    ∀ a b roomId, ∀ c ∈ (w.setPipe shard pipe).pipes a, ∀ d ∈ (w.setPipe shard pipe).pipes b,
      c.about = some roomId → d.about = some roomId → a = b := by
  have hmem : ∀ k, ∀ c ∈ (w.setPipe shard pipe).pipes k, c ∈ w.pipes k := by
    intro k c hc
    rw [JoinableIndex.pipes_setPipe] at hc
    split_ifs at hc with hk
    · rw [hk, hp]
      exact List.mem_cons_of_mem _ hc
    · exact hc
  intro a b roomId c hc d hd
  exact h.one a b roomId c (hmem a c hc) d (hmem b d hd)

theorem IndexInv.next (h : IndexInv w written) {shard : ShardId} {command : Command}
    {pipe : List Command} (hp : w.pipes shard = command :: pipe) :
    NextCommand written shard command pipe := by
  have hpiped := h.piped shard
  rw [hp] at hpiped
  exact hpiped.next

theorem IndexInv.record (h : IndexInv w written) {shard : ShardId} {roomId : RoomId}
    {projection : RoomProjection} {pipe : List Command}
    (hp : w.pipes shard = .recordRoom roomId projection :: pipe) :
    IndexInv { w.setPipe shard pipe with redis := w.redis.recordRoom roomId projection }
      (Function.update written roomId (some projection)) := by
  obtain ⟨hs, hne, rest, hrest, hpipe⟩ : projection.shard = shard ∧ projection.shard ≠ [] ∧
      ∃ rest, Pipelines shard rest ∧
        pipe =
          .indexRoom roomId (decide (projection.capacity ≤ projection.playerCount)) :: rest := by
    cases h.next hp with
    | record hs hne hrest => exact ⟨hs, hne, _, hrest, rfl⟩
  have hmine : Command.recordRoom roomId projection ∈ w.pipes shard := by
    rw [hp]
    exact List.mem_cons_self
  -- the report that has just written its projection indexes its room next
  have hhalf : JoinableIndex.HalfRun
      { w.setPipe shard pipe with redis := w.redis.recordRoom roomId projection }
      roomId projection := by
    change ((w.setPipe shard pipe).pipes projection.shard).head?.any _ = true
    rw [JoinableIndex.pipes_setPipe, if_pos hs, hpipe]
    simp [Command.indexes]
  constructor
  case piped =>
    intro k
    change Piped _ k ((w.setPipe shard pipe).pipes k)
    rw [JoinableIndex.pipes_setPipe]
    split_ifs with hshard
    · refine .inr ⟨roomId, _, rest, hpipe, hshard ▸ hrest, ?_⟩
      intro p hp
      rw [Function.update_self] at hp
      obtain rfl := Option.some.inj hp
      exact ⟨hs.trans hshard.symm, rfl⟩
    · apply (h.piped k).update
      apply Or.inl
      intro c hc habout
      exact hshard (h.one k shard roomId c hc _ hmine habout rfl)
  case one => exact h.one_tail hp
  case joinable =>
    intro k p hk hn hout
    rw [Function.update_apply] at hk
    split_ifs at hk with hsame
    · obtain rfl := Option.some.inj hk
      rw [hsame] at hout
      exact absurd hhalf hout
    · exact h.joinable k p hk hn (mt (halfRun_tail hp rfl) hout)
  case opened =>
    intro k p hk hn
    change ¬((w.redis.recordRoom roomId projection).room k).Closed
    rw [Function.update_apply] at hk
    rw [Redis.recordRoom, Redis.room_setRoom]
    split_ifs at hk with hsame
    · obtain rfl := Option.some.inj hk
      rw [if_pos hsame]
      exact not_closed_hashOf hne hn
    · rw [if_neg hsame]
      exact h.opened k p hk hn
  case reported =>
    intro call hcall k hclosed p hk hn
    rw [Function.update_apply] at hk
    split_ifs at hk with hsame
    · obtain rfl := Option.some.inj hk
      rw [hsame]
      exact hhalf
    · exact halfRun_tail hp rfl (h.reported call hcall k hclosed p hk hn)

theorem IndexInv.index (h : IndexInv w written) {shard : ShardId} {roomId : RoomId}
    {isFull : Bool} {pipe : List Command} (hp : w.pipes shard = .indexRoom roomId isFull :: pipe)
    (hapart : isFull = false → ∀ call ∈ w.calls, ¬call.SawClosed roomId) :
    IndexInv { w.setPipe shard pipe with redis := w.redis.indexRoom roomId isFull } written := by
  obtain ⟨hrest, hwritten⟩ : Pipelines shard pipe ∧ ∀ projection ∈ written roomId,
      projection.shard = shard ∧
        isFull = decide (projection.capacity ≤ projection.playerCount) := by
    cases h.next hp with
    | index hrest hlast => exact ⟨hrest, hlast⟩
  have hfull : ∀ projection ∈ written roomId, projection.playerCount < projection.capacity →
      isFull = false := by
    intro projection hprojection hn
    rw [(hwritten projection hprojection).2]
    exact decide_eq_false (by omega)
  constructor
  case piped =>
    intro k
    change Piped _ k ((w.setPipe shard pipe).pipes k)
    rw [JoinableIndex.pipes_setPipe]
    split_ifs with hshard
    · exact .inl (hshard ▸ hrest)
    · exact h.piped k
  case one => exact h.one_tail hp
  case joinable =>
    intro k p hk hn hout
    change k ∈ (w.redis.indexRoom roomId isFull).joinable
    unfold Redis.indexRoom
    by_cases hsame : roomId = k
    · rw [hfull p (hsame ▸ hk) hn, hsame]
      exact Finset.mem_insert_self _ _
    · have hin := h.joinable k p hk hn (mt (halfRun_tail hp (decide_eq_false hsame)) hout)
      cases isFull with
      | true => exact Finset.mem_erase.mpr ⟨Ne.symm hsame, hin⟩
      | false => exact Finset.mem_insert_of_mem hin
  case opened => exact h.opened
  case reported =>
    intro call hcall k hclosed p hk hn
    by_cases hsame : roomId = k
    · rw [← hsame] at hk hclosed
      exact absurd hclosed (hapart (hfull p hk hn) call hcall)
    · exact halfRun_tail hp (decide_eq_false hsame) (h.reported call hcall k hclosed p hk hn)

/-- A step of matchmaking or an expiry: the pipes stay. -/
theorem IndexInv.of_pipes (h : IndexInv w written) {v : JoinableIndex}
    (hpipes : v.pipes = w.pipes)
    (hkept : ∀ roomId, ∀ projection ∈ written roomId,
      projection.playerCount < projection.capacity → ¬w.HalfRun roomId projection →
      roomId ∈ w.redis.joinable → roomId ∈ v.redis.joinable)
    (hopened : ∀ roomId, ∀ projection ∈ written roomId,
      projection.playerCount < projection.capacity → ¬(w.redis.room roomId).Closed →
      ¬(v.redis.room roomId).Closed)
    (hcalls : ∀ call ∈ v.calls, ∀ roomId, call.SawClosed roomId → call ∈ w.calls ∨
      (w.redis.room roomId).Closed) : IndexInv v written := by
  constructor
  case piped =>
    rw [hpipes]
    exact h.piped
  case one =>
    rw [hpipes]
    exact h.one
  case joinable =>
    intro roomId projection hp hn hhalf
    rw [halfRun_congr hpipes] at hhalf
    exact hkept roomId projection hp hn hhalf (h.joinable roomId projection hp hn hhalf)
  case opened =>
    intro roomId projection hp hn
    exact hopened roomId projection hp hn (h.opened roomId projection hp hn)
  case reported =>
    intro call hcall roomId hclosed projection hp hn
    rw [halfRun_congr hpipes]
    rcases hcalls call hcall roomId hclosed with hin | hnow
    · exact h.reported call hin roomId hclosed projection hp hn
    · exact absurd hnow (h.opened roomId projection hp hn)

theorem IndexInv.read (h : IndexInv w written) (candidates : List RoomId) (i : ℕ) :
    IndexInv { w with calls := w.calls.set i (.answered (w.redis.readCandidates candidates)) }
      written := by
  refine h.of_pipes rfl (fun _ _ _ _ _ hin => hin) (fun _ _ _ _ hopen => hopen) ?_
  intro call hcall roomId hclosed
  rcases List.mem_or_eq_of_mem_set hcall with hin | rfl
  · exact .inl hin
  · obtain ⟨hash, hmem, hhash⟩ := hclosed
    rw [mem_readCandidates hmem] at hhash
    exact .inr hhash

/-- A removal by a call that saw every room closed that it removes. -/
theorem IndexInv.remove (h : IndexInv w written) {i : ℕ} {call : MatchmakingCall}
    {rooms : List RoomId} (hcall : w.calls[i]? = some call)
    (hrooms : ∀ roomId ∈ rooms, call.SawClosed roomId) :
    IndexInv { w with redis := w.redis.removeRooms rooms, calls := w.calls.eraseIdx i }
      written := by
  refine h.of_pipes rfl ?_ (fun _ _ _ _ hopen => hopen)
    fun call hin _ _ => .inl (List.mem_of_mem_eraseIdx hin)
  intro roomId projection hp hn hhalf hin
  apply Finset.mem_filter.mpr ⟨hin, ?_⟩
  intro hremoved
  have hmem := List.mem_of_getElem? hcall
  exact hhalf (h.reported call hmem roomId (hrooms roomId hremoved) projection hp hn)

theorem IndexInv.delete (h : IndexInv w written) (roomId : RoomId) :
    IndexInv { w with
      redis := w.redis.deleteRoom roomId
      calls := w.calls ++ [.deleting roomId] } (Function.update written roomId none) := by
  have hold : ∀ {k p}, p ∈ Function.update written roomId none k → k ≠ roomId ∧ p ∈ written k := by
    intro k p hp
    rw [Function.update_apply] at hp
    split_ifs at hp with hk
    · cases hp
    · exact ⟨hk, hp⟩
  constructor
  case piped => exact fun shard => (h.piped shard).update (.inr rfl)
  case one => exact h.one
  case joinable =>
    intro k p hp hn hhalf
    exact h.joinable k p (hold hp).2 hn hhalf
  case opened =>
    intro k p hp hn
    change ¬((w.redis.deleteRoom roomId).room k).Closed
    rw [Redis.deleteRoom, Redis.room_setRoom, if_neg (hold hp).1]
    exact h.opened k p (hold hp).2 hn
  case reported =>
    intro call hcall k hclosed p hp hn
    rcases List.mem_append.mp hcall with hin | hnew
    · exact h.reported call hin k hclosed p (hold hp).2 hn
    · obtain rfl := List.mem_singleton.mp hnew
      exact absurd hclosed.symm (hold hp).1

theorem joinable_claimRoomCode (r : Redis) (roomId : RoomId) (shard : ShardId) :
    (r.claimRoomCode roomId shard).1.joinable = r.joinable := by
  unfold Redis.claimRoomCode
  split <;> rfl

/-- A record that names a shard is not claimed. -/
theorem room_claimRoomCode {r : Redis} {roomId k : RoomId} {shard : ShardId}
    (h : ¬(r.room k).Closed) : (r.claimRoomCode roomId shard).1.room k = r.room k := by
  unfold Redis.claimRoomCode
  split
  case h_1 hnone =>
    rw [Redis.room_setRoom, if_neg]
    rintro rfl
    exact h (.inl (.inl hnone))
  case h_2 => rfl

theorem not_closed_reserve {r : Redis} {roomId k : RoomId} (h : ¬(r.room k).Closed) :
    ¬((r.reserve roomId).room k).Closed := by
  rw [Redis.reserve, Redis.room_setRoom]
  split_ifs with hk
  · subst hk
    rintro (hshard | ⟨capacity, playerCount, hcapacity, hcount, hle⟩)
    · exact h (.inl hshard)
    · have hc : DEFAULT_ROOM_CAPACITY = capacity := Option.some.inj hcapacity
      have hp : 0 = playerCount := Option.some.inj hcount
      rw [← hc, ← hp] at hle
      exact absurd hle (by decide)
  · exact h

theorem indexInv_step {v : JoinableIndex} {i : IndexInput} {os : List RoomSummary}
    (h : IndexInv w written) (hg : ReportsApart (w, written) i)
    (hs : w.step i = some (v, os)) : IndexInv v (writtenAfter written w i v os) := by
  cases i with
  | sync roomId projection =>
    obtain ⟨rfl, -⟩ := Prod.mk.inj (Option.some.inj hs)
    exact h.sync hg.1 hg.2
  | run shard =>
    simp only [JoinableIndex.step] at hs
    cases hp : w.pipes shard with
    | nil =>
      rw [hp] at hs
      cases hs
    | cons command pipe =>
      rw [hp] at hs
      obtain ⟨rfl, -⟩ := Prod.mk.inj (Option.some.inj hs)
      simp only [writtenAfter, hp]
      cases h.next hp with
      | record _ _ _ => exact h.record hp
      | @index roomId isFull _ _ _ =>
        apply h.index hp
        rintro rfl
        exact hg roomId (by rw [hp]; rfl)
  | list candidates =>
    simp only [JoinableIndex.step] at hs
    split_ifs at hs
    obtain ⟨rfl, -⟩ := Prod.mk.inj (Option.some.inj hs)
    refine h.of_pipes rfl (fun _ _ _ _ _ hin => hin) (fun _ _ _ _ hopen => hopen) ?_
    intro call hcall roomId hclosed
    rcases List.mem_append.mp hcall with hin | hnew
    · exact .inl hin
    · obtain rfl := List.mem_singleton.mp hnew
      exact hclosed.elim
  | read i =>
    simp only [JoinableIndex.step] at hs
    split at hs
    case h_1 candidates hcall =>
      split_ifs at hs
      · obtain ⟨rfl, -⟩ := Prod.mk.inj (Option.some.inj hs)
        refine h.of_pipes rfl (fun _ _ _ _ _ hin => hin) (fun _ _ _ _ hopen => hopen) ?_
        exact fun call hin _ _ => .inl (List.mem_of_mem_eraseIdx hin)
      · obtain ⟨rfl, -⟩ := Prod.mk.inj (Option.some.inj hs)
        exact h.read candidates i
    case h_2 => cases hs
  | remove i =>
    simp only [JoinableIndex.step] at hs
    split at hs
    case h_1 results hcall =>
      obtain ⟨rfl, -⟩ := Prod.mk.inj (Option.some.inj hs)
      exact h.remove hcall fun roomId hremoved => mem_staleRooms.mp hremoved
    case h_2 roomId hcall =>
      obtain ⟨rfl, -⟩ := Prod.mk.inj (Option.some.inj hs)
      exact h.remove hcall fun k hremoved => (List.mem_singleton.mp hremoved).symm
    case h_3 => cases hs
  | delete roomId =>
    obtain ⟨rfl, -⟩ := Prod.mk.inj (Option.some.inj hs)
    exact h.delete roomId
  | claim roomId shard =>
    obtain ⟨rfl, -⟩ := Prod.mk.inj (Option.some.inj hs)
    refine h.of_pipes rfl ?_ ?_ fun call hin _ _ => .inl hin
    · intro k _ _ _ _ hin
      change k ∈ (w.redis.claimRoomCode roomId shard).1.joinable
      rwa [joinable_claimRoomCode]
    · intro k _ _ _ hopen
      change ¬((w.redis.claimRoomCode roomId shard).1.room k).Closed
      rwa [room_claimRoomCode hopen]
  | reserve roomId =>
    obtain ⟨rfl, -⟩ := Prod.mk.inj (Option.some.inj hs)
    refine h.of_pipes rfl (fun _ _ _ _ _ hin => hin) ?_ fun call hin _ _ => .inl hin
    exact fun _ _ _ _ hopen => not_closed_reserve hopen
  | expire roomId =>
    obtain ⟨rfl, -⟩ := Prod.mk.inj (Option.some.inj hs)
    refine h.of_pipes rfl (fun _ _ _ _ _ hin => hin) ?_ fun call hin _ _ => .inl hin
    intro k projection hp hn hopen
    have hk : k ≠ roomId := by
      rintro rfl
      have hfull := hg projection hp
      omega
    change ¬((w.redis.expireRoom roomId).room k).Closed
    rwa [Redis.expireRoom, Redis.room_setRoom, if_neg hk]

end

theorem indexInv_reachable {s : JoinableIndex × Written}
    (hr : Machine.Reachable (indexSystem.restrict ReportsApart) s) : IndexInv s.1 s.2 := by
  apply hr.recorded (J := fun _ => True) (I := IndexInv) (fun _ _ => trivial)
  · rintro w rfl
    constructor
    case piped => exact fun _ => .inl .nil
    case one => exact fun _ _ _ c hc => (by cases hc)
    case joinable => exact fun _ p hp => (by cases hp)
    case opened => exact fun _ p hp => (by cases hp)
    case reported => exact fun _ hcall => (by cases hcall)
  · intro w written i v os _ h hg hstep
    exact indexInv_step h hg hstep

/-- In every run in which no room is reported between the read of a call that finds it closed and
the removal that follows, every room that is not full is joinable. -/
theorem index_complete (s : JoinableIndex × Written)
    (hr : Machine.Reachable (indexSystem.restrict ReportsApart) s) : AllJoinable s.1 s.2 :=
  (indexInv_reachable hr).joinable

/-- A report within a call is lost with the removal of the call. -/
theorem remove_loses {w v : JoinableIndex} {written : Written} {i : ℕ} {os : List RoomSummary}
    {call : MatchmakingCall} {roomId : RoomId} {projection : RoomProjection}
    (hs : w.step (.remove i) = some (v, os)) (hcall : w.calls[i]? = some call)
    (hclosed : call.SawClosed roomId) (hp : projection ∈ written roomId)
    (hn : projection.playerCount < projection.capacity) (hhalf : ¬w.HalfRun roomId projection) :
    ¬AllJoinable v written := by
  intro h
  cases call with
  | listed candidates => exact hclosed
  | answered results =>
    simp only [JoinableIndex.step, hcall] at hs
    obtain ⟨rfl, -⟩ := Prod.mk.inj (Option.some.inj hs)
    exact (Finset.mem_filter.mp (h roomId projection hp hn hhalf)).2 (mem_staleRooms.mpr hclosed)
  | deleting k =>
    simp only [JoinableIndex.step, hcall] at hs
    obtain ⟨rfl, -⟩ := Prod.mk.inj (Option.some.inj hs)
    exact (Finset.mem_filter.mp (h roomId projection hp hn hhalf)).2
      (List.mem_singleton.mpr hclosed.symm)

/-! ### Runs on fixed inputs -/

def plainProjection (playerCount : ℕ) : RoomProjection where
  shard := utf16 "4001"
  capacity := DEFAULT_ROOM_CAPACITY
  playerCount := playerCount
  phase := .waiting

theorem reportsApart_run {s : JoinableIndex × Written} {shard : ShardId}
    (candidates : List RoomId) (h : s.1.calls = [] ∨ s.1.calls = [.listed candidates]) :
    ReportsApart s (.run shard) := by
  intro roomId _ call hcall hclosed
  rcases h with hnone | hlisted
  · rw [hnone] at hcall
    cases hcall
  · rw [hlisted] at hcall
    obtain rfl := List.mem_singleton.mp hcall
    exact hclosed

theorem reportsApart_sync {s : JoinableIndex × Written} {projection : RoomProjection}
    (hname : projection.shard ≠ []) (h : ∀ shard, shard ≠ projection.shard → s.1.pipes shard = []) :
    ReportsApart s (.sync (utf16 "AB3DE") projection) := by
  apply And.intro hname
  intro shard hother command hcommand
  rw [h shard hother] at hcommand
  cases hcommand

/-- A room becomes full while a reader has it listed, the reader removes it, and then a seat
becomes free. -/
theorem index_complete_listed : ∃ s,
    Machine.Reachable (indexSystem.restrict ReportsApart) s ∧
      s.2 (utf16 "AB3DE") = some (plainProjection 99) ∧ s.1.calls = [] ∧
        AllJoinable s.1 s.2 := by
  have hstart := Machine.Reachable.start
    (M := indexSystem.restrict ReportsApart) (s := (newIndex, fun _ => none)) ⟨rfl, rfl⟩
  have hreports := ((hstart.step (i := .sync (utf16 "AB3DE") (plainProjection 99))
    ⟨reportsApart_sync (by decide) fun _ _ => rfl,
      Machine.observeStep_step (by decide +kernel)⟩).step
      (i := .sync (utf16 "AB3DE") (plainProjection 100))
    ⟨reportsApart_sync (by decide) fun _ hne => Function.update_of_ne hne _ _,
      Machine.observeStep_step (by decide +kernel)⟩).step
      (i := .sync (utf16 "AB3DE") (plainProjection 99))
    ⟨reportsApart_sync (by decide) fun _ hne =>
        (Function.update_of_ne hne _ _).trans (Function.update_of_ne hne _ _),
      Machine.observeStep_step (by decide +kernel)⟩
  have hlisted := ((hreports.step (i := .run (utf16 "4001"))
    ⟨reportsApart_run [] (by decide +kernel),
      Machine.observeStep_step (by decide +kernel)⟩).step (i := .run (utf16 "4001"))
    ⟨reportsApart_run [] (by decide +kernel),
      Machine.observeStep_step (by decide +kernel)⟩).step (i := .list [utf16 "AB3DE"])
    ⟨by trivial, Machine.observeStep_step (by decide +kernel)⟩
  have hremoved := (((hlisted.step (i := .run (utf16 "4001"))
    ⟨reportsApart_run [utf16 "AB3DE"] (by decide +kernel),
      Machine.observeStep_step (by decide +kernel)⟩).step (i := .run (utf16 "4001"))
    ⟨reportsApart_run [utf16 "AB3DE"] (by decide +kernel),
      Machine.observeStep_step (by decide +kernel)⟩).step (i := .read 0)
    ⟨by trivial, Machine.observeStep_step (by decide +kernel)⟩).step (i := .remove 0)
    ⟨by trivial, Machine.observeStep_step (by decide +kernel)⟩
  have hfreed := (hremoved.step (i := .run (utf16 "4001"))
    ⟨reportsApart_run [] (by decide +kernel),
      Machine.observeStep_step (by decide +kernel)⟩).step (i := .run (utf16 "4001"))
    ⟨reportsApart_run [] (by decide +kernel),
      Machine.observeStep_step (by decide +kernel)⟩
  exact ⟨_, hfreed, by decide +kernel, by decide +kernel, index_complete _ hfreed⟩

/-- A full room is listed and read, a seat becomes free, and the `SREM` of the reader takes the
room out of the index again. -/
def prunedAgain : List IndexInput :=
  [.sync (utf16 "AB3DE") (plainProjection 99), .run (utf16 "4001"), .run (utf16 "4001"),
   .list [utf16 "AB3DE"], .sync (utf16 "AB3DE") (plainProjection 100), .run (utf16 "4001"),
   .run (utf16 "4001"), .read 0, .sync (utf16 "AB3DE") (plainProjection 99),
   .run (utf16 "4001"), .run (utf16 "4001"), .remove 0]

theorem room_pruned : ∃ s os, Machine.Run indexSystem prunedAgain s os ∧ s.1.calls = [] ∧
    s.2 (utf16 "AB3DE") = some (plainProjection 99) ∧
    ¬ s.1.HalfRun (utf16 "AB3DE") (plainProjection 99) ∧
    s.1.pipes (utf16 "4001") = [] ∧ utf16 "AB3DE" ∉ s.1.redis.joinable :=
  ⟨_, _, Machine.exec_observe_run (by decide +kernel), by decide +kernel, by decide +kernel,
    by decide +kernel, by decide +kernel, by decide +kernel⟩

end GachaMind
