import GachaMind.Projections
import GachaMind.Lib.Refresh

/-!
# Redis with a clock

The processes, the Redis they share and the `/assign` requests of matchmaking, with a clock in
milliseconds and the deadlines that `EXPIRE` gives to keys. Processes start at any time and die
at any time, with what they have not written to the socket yet; a pipeline is written as a whole,
but other clients' commands may run between its commands. A command never sees a key whose
deadline has passed.

No process gets the shard name of one that has died. That holds of the task ids of ECS; a name
from the local port or from `SHARD_ID` comes back when its process is started again.
-/

namespace GachaMind.Timed
open GachaMind.Js GachaMind.Shared GachaMind.GameSession KeyedTable

def PROJECTION_TTL_SECONDS : ℕ := 60
def PROJECTION_HEARTBEAT_INTERVAL_MS : ℕ := 20000
def ROOM_CODE_ATTEMPTS : ℕ := 5

/-- The time to live in milliseconds. -/
def ttl : ℕ := PROJECTION_TTL_SECONDS * 1000

inductive RedisKey where
  | room (roomId : RoomId)
  | session (shard : ShardId)
  deriving DecidableEq

def holds (r : Redis) : RedisKey → Bool
  | .room roomId => decide (r.room roomId ≠ {})
  | .session shard => (r.session shard).isSome

def drop (r : Redis) : RedisKey → Redis
  | .room roomId => r.expireRoom roomId
  | .session shard => { r with session := Function.update r.session shard none }

/-! ### Commands -/

inductive TimedCommand where
  | data (c : Command)
  | expire (key : RedisKey)

def timedCommands : Effect → List TimedCommand
  | .syncOccupancy roomId projection =>
    [.data (.recordRoom roomId projection), .expire (.room roomId),
     .data (.indexRoom roomId (decide (projection.capacity ≤ projection.playerCount)))]
  | .publishSessionLoad load => [.data (.publishSessionLoad load), .expire (.session load.shard)]
  | .checkAssigned socket roomId => [.data (.checkAssigned socket roomId)]
  | _ => []

/-- The key whose deadline matters to the command. -/
def touches : Command → Option RedisKey
  | .recordRoom roomId _ => some (.room roomId)
  | .checkAssigned _ roomId => some (.room roomId)
  | .publishSessionLoad load => some (.session load.shard)
  | .indexRoom _ _ => none

def TimedCommand.refreshes : TimedCommand → Option RedisKey
  | .expire key => some key
  | .data _ => none

/-- A process. Its commands carry the time at which they were issued; `beat` is when the
interval of its heartbeat last began. -/
structure Process where
  server : Server
  pipe : List (ℕ × TimedCommand)
  beat : ℕ
  died : Option ℕ

def Process.shard (p : Process) : ShardId := p.server.self.shardId

def stamp (now : ℕ) (os : List Effect) : List (ℕ × TimedCommand) :=
  (os.flatMap timedCommands).map fun c => (now, c)

/-- A process reports its load and starts its heartbeat as soon as it is up. -/
def newProcess (now : ℕ) (identity : ShardIdentity) : Process where
  server := newServer identity
  pipe := stamp now [.publishSessionLoad (newServer identity).sessionLoad]
  beat := now
  died := none

/-! ### Matchmaking -/

/-- How far `POST /assign` is: it has chosen a shard and failed to get `lost` codes, it has sent
`HSETNX`, it has its code, or it has recorded the capacity. -/
inductive Stage where
  | picked (lost : ℕ)
  | bid (roomId : RoomId) (won : Bool) (lost : ℕ)
  | won (roomId : RoomId)
  | recorded (roomId : RoomId)
  deriving DecidableEq

structure Assign where
  shard : ShardId
  since : ℕ
  stage : Stage
  deriving DecidableEq

/-- The key of the next command of a request. -/
def Stage.target (code : RoomId) : Stage → RedisKey
  | .picked _ => .room code
  | .bid roomId _ _ => .room roomId
  | .won roomId => .room roomId
  | .recorded roomId => .room roomId

/-- How a request goes on after its `HSETNX`, if it does not give up. -/
def Assign.afterBid (a : Assign) (roomId : RoomId) (won : Bool) (lost : ℕ) : List Assign :=
  if won then [{ a with stage := .won roomId }]
  else if lost + 1 < ROOM_CODE_ATTEMPTS then [{ a with stage := .picked (lost + 1) }]
  else []

structure TimedCluster where
  processes : Table Process.shard
  redis : Redis
  deadline : RedisKey → Option ℕ
  closing : List RoomId
  unindexing : List RoomId
  assigns : List Assign
  now : ℕ

inductive TimedInput where
  | tick (ms : ℕ)
  | start (identity : ShardIdentity)
  /-- An event of a process other than an answer of Redis. -/
  | process (shard : ShardId) (env : Env) (input : ServerInput)
  /-- Redis runs the next command of a process and answers it. -/
  | redis (shard : ShardId) (env : Env)
  /-- The process dies; of its commands the first `kept` are on their way. -/
  | crash (shard : ShardId) (kept : ℕ)
  /-- `POST /assign` chooses a shard for a new room. -/
  | pick (shard : ShardId)
  /-- The next command of a request; `code` is the one it draws, if it draws one. -/
  | assign (a : Assign) (code : RoomId)
  | deliver (roomId : RoomId)
  | unindex (roomId : RoomId)
  | expire (key : RedisKey)

def ServerInput.isHeartbeat : ServerInput → Bool
  | .heartbeat => true
  | _ => false

namespace TimedCluster

def setProcess (w : TimedCluster) (p : Process) : TimedCluster :=
  { w with processes := w.processes.set p }

/-- The deadline of the key has not passed. -/
def ready (w : TimedCluster) (key : RedisKey) : Bool := (w.deadline key).all (w.now ≤ ·)

/-- `EXPIRE key PROJECTION_TTL_SECONDS`, which does nothing to a key that is not there. -/
def expireKey (w : TimedCluster) (key : RedisKey) : TimedCluster :=
  if holds w.redis key then
    { w with
      deadline := Function.update w.deadline key (some (w.now + ttl)) }
  else w

/-- `EXPIRE key PROJECTION_TTL_SECONDS NX`. -/
def expireKeyNew (w : TimedCluster) (key : RedisKey) : TimedCluster :=
  if w.deadline key = none then w.expireKey key else w

def remove (w : TimedCluster) (key : RedisKey) : TimedCluster :=
  { w with
    redis := drop w.redis key
    deadline := Function.update w.deadline key none }

def start (w : TimedCluster) (identity : ShardIdentity) : Option TimedCluster :=
  if identity.shardId ∈ w.processes.keys then none
  else some (w.setProcess (newProcess w.now identity))

/-! ### POST /assign -/

def pick (w : TimedCluster) (shard : ShardId) : Option TimedCluster :=
  if holds w.redis (.session shard) && w.ready (.session shard) then
    some { w with assigns := ⟨shard, w.now, .picked 0⟩ :: w.assigns }
  else none

/-- The next command of a request, which leaves the list of requests. -/
def advance (w : TimedCluster) (a : Assign) (code : RoomId) : TimedCluster :=
  match a.stage with
  | .picked lost =>
    let r := w.redis.claimRoomCode code a.shard
    { w with redis := r.1, assigns := { a with stage := .bid code r.2 lost } :: w.assigns }
  | .bid roomId won lost =>
    { w with assigns := a.afterBid roomId won lost ++ w.assigns }.expireKeyNew (.room roomId)
  | .won roomId =>
    { w with
      redis := w.redis.reserve roomId
      assigns := { a with stage := .recorded roomId } :: w.assigns }
  | .recorded roomId => w.expireKey (.room roomId)

def assign (w : TimedCluster) (a : Assign) (code : RoomId) : Option TimedCluster :=
  if a ∈ w.assigns ∧ w.ready (a.stage.target code) then
    some ({ w with assigns := w.assigns.erase a }.advance a code)
  else none

variable [Runtime]

def process (w : TimedCluster) (shard : ShardId) (env : Env) (input : ServerInput) :
    Option (TimedCluster × List Effect) :=
  (w.processes.get? shard).bind fun p =>
    if p.died.isSome || ServerInput.isSettle input then none
    else
      (p.server.step (env, input)).map fun r =>
        ({ w.setProcess { p with
            server := r.1
            pipe := p.pipe ++ stamp w.now r.2
            beat := if ServerInput.isHeartbeat input then w.now else p.beat } with
          closing := w.closing ++ r.2.filterMap closedRoom }, r.2)

/-- The process after Redis has answered one of its commands; only the `HGET` of
`isRoomAssignedHere` has an answer that it reads. -/
def answer (r : Redis) (p : Process) (env : Env) : Command → Option (Server × List Effect)
  | .checkAssigned socket roomId =>
    if p.died.isSome then some (p.server, [])
    else p.server.step (env, .settle socket roomId (r.isRoomAssignedHere p.shard roomId))
  | _ => some (p.server, [])

def runCommand (w : TimedCluster) (shard : ShardId) (env : Env) :
    Option (TimedCluster × List Effect) :=
  (w.processes.get? shard).bind fun p =>
    match p.pipe with
    | [] => none
    | (_, .expire key) :: pipe =>
      if w.ready key then some ((w.setProcess { p with pipe := pipe }).expireKey key, []) else none
    | (_, .data c) :: pipe =>
      if (touches c).all w.ready then
        (answer w.redis p env c).map fun r =>
          ({ w.setProcess { p with server := r.1, pipe := pipe } with
            redis := JoinableIndex.runCommand w.redis c }, r.2)
      else none

/-- The commands of one pipeline are written together, so `HSET` is not parted from its
`EXPIRE`. -/
def crash (w : TimedCluster) (shard : ShardId) (kept : ℕ) : Option TimedCluster :=
  (w.processes.get? shard).bind fun p =>
    if p.died.isSome || ((p.pipe.drop kept).head?.any fun c => c.2.refreshes.isSome) then none
    else some (w.setProcess { p with died := some w.now, pipe := p.pipe.take kept })

def step (w : TimedCluster) : TimedInput → Option (TimedCluster × List Effect)
  | .tick ms => some ({ w with now := w.now + ms }, [])
  | .start identity => (w.start identity).map fun v => (v, [])
  | .process shard env input => w.process shard env input
  | .redis shard env => w.runCommand shard env
  | .crash shard kept => (w.crash shard kept).map fun v => (v, [])
  | .pick shard => (w.pick shard).map fun v => (v, [])
  | .assign a code => (w.assign a code).map fun v => (v, [])
  | .deliver roomId =>
    if roomId ∈ w.closing then
      some ({ w.remove (.room (normalizeRoomCode roomId)) with
        closing := w.closing.erase roomId
        unindexing := normalizeRoomCode roomId :: w.unindexing }, [])
    else none
  | .unindex roomId =>
    if roomId ∈ w.unindexing then
      some ({ w with
        redis := w.redis.unindexRoom roomId
        unindexing := w.unindexing.erase roomId }, [])
    else none
  | .expire key => if w.ready key then none else some (w.remove key, [])

end TimedCluster

def newTimedCluster : TimedCluster where
  processes := Table.empty
  redis := Redis.empty
  deadline _ := none
  closing := []
  unindexing := []
  assigns := []
  now := 0

def timedSystem [Runtime] : Machine.System TimedCluster TimedInput Effect :=
  Machine.ofFunction newTimedCluster TimedCluster.step

/-! ### Everything one event can do -/

inductive TimedStep [Runtime] (w : TimedCluster) :
    TimedInput → TimedCluster → List Effect → Prop
  | tick (ms : ℕ) : TimedStep w (.tick ms) { w with now := w.now + ms } []
  | start {identity : ShardIdentity} (h : identity.shardId ∉ w.processes.keys) :
      TimedStep w (.start identity) (w.setProcess (newProcess w.now identity)) []
  | process {p : Process} {env : Env} {input : ServerInput} {t : Server} {os : List Effect}
      (hp : w.processes.get? p.shard = some p) (hd : p.died = none)
      (hi : ServerInput.isSettle input = false) (hs : p.server.step (env, input) = some (t, os)) :
      TimedStep w (.process p.shard env input)
        { w.setProcess { p with
            server := t
            pipe := p.pipe ++ stamp w.now os
            beat := if ServerInput.isHeartbeat input then w.now else p.beat } with
          closing := w.closing ++ os.filterMap closedRoom } os
  | refresh {p : Process} {env : Env} {x : ℕ} {key : RedisKey} {pipe : List (ℕ × TimedCommand)}
      (hp : w.processes.get? p.shard = some p) (hq : p.pipe = (x, .expire key) :: pipe)
      (hr : w.ready key) :
      TimedStep w (.redis p.shard env) ((w.setProcess { p with pipe := pipe }).expireKey key) []
  | data {p : Process} {env : Env} {x : ℕ} {c : Command} {pipe : List (ℕ × TimedCommand)}
      {t : Server} {os : List Effect} (hp : w.processes.get? p.shard = some p)
      (hq : p.pipe = (x, .data c) :: pipe) (hr : ∀ key ∈ touches c, w.ready key)
      (ha : TimedCluster.answer w.redis p env c = some (t, os)) :
      TimedStep w (.redis p.shard env)
        { w.setProcess { p with server := t, pipe := pipe } with
          redis := JoinableIndex.runCommand w.redis c } os
  | crash {p : Process} {kept : ℕ} (hp : w.processes.get? p.shard = some p) (hd : p.died = none)
      (hcut : ∀ c ∈ (p.pipe.drop kept).head?, c.2.refreshes = none) :
      TimedStep w (.crash p.shard kept)
        (w.setProcess { p with died := some w.now, pipe := p.pipe.take kept }) []
  | pick {shard : ShardId} (hh : holds w.redis (.session shard) = true)
      (hr : w.ready (.session shard)) :
      TimedStep w (.pick shard) { w with assigns := ⟨shard, w.now, .picked 0⟩ :: w.assigns } []
  | assign {a : Assign} {code : RoomId} (ha : a ∈ w.assigns) (hr : w.ready (a.stage.target code)) :
      TimedStep w (.assign a code)
        ({ w with assigns := w.assigns.erase a }.advance a code) []
  | deliver {roomId : RoomId} (h : roomId ∈ w.closing) :
      TimedStep w (.deliver roomId)
        { w.remove (.room (normalizeRoomCode roomId)) with
          closing := w.closing.erase roomId
          unindexing := normalizeRoomCode roomId :: w.unindexing } []
  | unindex {roomId : RoomId} (h : roomId ∈ w.unindexing) :
      TimedStep w (.unindex roomId)
        { w with
          redis := w.redis.unindexRoom roomId
          unindexing := w.unindexing.erase roomId } []
  | expire {key : RedisKey} (h : w.ready key = false) :
      TimedStep w (.expire key) (w.remove key) []

section
variable [Runtime]

theorem timed_step {w v : TimedCluster} {input : TimedInput} {os : List Effect}
    (h : timedSystem.step w input v os) : TimedStep w input v os := by
  change w.step input = some (v, os) at h
  cases input with
  | tick ms =>
    cases h
    exact .tick ms
  | start identity =>
    obtain ⟨u, hu, he⟩ := Option.map_eq_some_iff.mp h
    cases he
    unfold TimedCluster.start at hu
    split_ifs at hu with hk
    cases hu
    exact .start hk
  | process shard env input =>
    obtain ⟨p, hp, h⟩ := Option.bind_eq_some_iff.mp h
    obtain ⟨hno, h⟩ := Option.ite_none_left_eq_some.mp h
    obtain ⟨r, hr, he⟩ := Option.map_eq_some_iff.mp h
    cases he
    obtain rfl := (get?_eq_some.mp hp).2
    rw [Bool.or_eq_true, not_or, Bool.not_eq_true, Bool.not_eq_true] at hno
    exact .process hp (Option.isNone_iff_eq_none.mp (Option.isSome_eq_false_iff.mp hno.1)) hno.2 hr
  | redis shard env =>
    obtain ⟨p, hp, hnext⟩ := Option.bind_eq_some_iff.mp h
    obtain rfl := (get?_eq_some.mp hp).2
    split at hnext
    · cases hnext
    · rename_i hq
      split_ifs at hnext with hr
      cases hnext
      exact .refresh hp hq hr
    · rename_i hq
      obtain ⟨hr, hnext⟩ := Option.ite_none_right_eq_some.mp hnext
      obtain ⟨r, ha, he⟩ := Option.map_eq_some_iff.mp hnext
      cases he
      refine .data hp hq (fun key hk => ?_) ha
      rw [Option.mem_def.mp hk] at hr
      exact hr
  | crash shard kept =>
    obtain ⟨u, hu, he⟩ := Option.map_eq_some_iff.mp h
    cases he
    obtain ⟨p, hp, hcrash⟩ := Option.bind_eq_some_iff.mp hu
    obtain rfl := (get?_eq_some.mp hp).2
    obtain ⟨hno, hcrash⟩ := Option.ite_none_left_eq_some.mp hcrash
    cases hcrash
    rw [Bool.or_eq_true, not_or, Bool.not_eq_true, Bool.not_eq_true] at hno
    refine .crash hp (Option.isNone_iff_eq_none.mp (Option.isSome_eq_false_iff.mp hno.1)) ?_
    intro c hc
    have hcut := hno.2
    rw [Option.mem_def.mp hc] at hcut
    simpa using hcut
  | pick shard =>
    obtain ⟨u, hu, he⟩ := Option.map_eq_some_iff.mp h
    cases he
    unfold TimedCluster.pick at hu
    split_ifs at hu with hk
    cases hu
    rw [Bool.and_eq_true] at hk
    exact .pick hk.1 hk.2
  | assign a code =>
    obtain ⟨u, hu, he⟩ := Option.map_eq_some_iff.mp h
    cases he
    unfold TimedCluster.assign at hu
    split_ifs at hu with hk
    cases hu
    exact .assign hk.1 hk.2
  | deliver roomId =>
    simp only [TimedCluster.step] at h
    split_ifs at h with hm
    cases h
    exact .deliver hm
  | unindex roomId =>
    simp only [TimedCluster.step] at h
    split_ifs at h with hm
    cases h
    exact .unindex hm
  | expire key =>
    simp only [TimedCluster.step] at h
    split_ifs at h with hr
    cases h
    exact .expire (by simpa using hr)

end

/-! ### Punctuality -/

/-- How late the heartbeat's interval may be, how long a command may wait for Redis and how long a
request may take to be handled. -/
structure Timing where
  late : ℕ
  delay : ℕ
  handling : ℕ

def Timing.period (t : Timing) : ℕ := PROJECTION_HEARTBEAT_INTERVAL_MS + t.late

/-- Nothing is overdue at `now`. -/
structure Punctual (t : Timing) (w : TimedCluster) (now : ℕ) : Prop where
  beats : ∀ p ∈ w.processes.rows, p.died = none → now ≤ p.beat + t.period
  commands : ∀ p ∈ w.processes.rows, ∀ c ∈ p.pipe, now ≤ c.1 + t.delay
  requests : ∀ a ∈ w.assigns, now ≤ a.since + t.handling

/-- Time passes only while nothing is overdue. -/
def InTime (t : Timing) (w : TimedCluster) : TimedInput → Prop
  | .tick ms => Punctual t w (w.now + ms)
  | _ => True

instance (t : Timing) (w : TimedCluster) (now : ℕ) : Decidable (Punctual t w now) :=
  decidable_of_iff ((∀ p ∈ w.processes.rows, p.died = none → now ≤ p.beat + t.period) ∧
      (∀ p ∈ w.processes.rows, ∀ c ∈ p.pipe, now ≤ c.1 + t.delay) ∧
      ∀ a ∈ w.assigns, now ≤ a.since + t.handling)
    ⟨fun h => ⟨h.1, h.2.1, h.2.2⟩, fun h => ⟨h.beats, h.commands, h.requests⟩⟩

instance (t : Timing) (w : TimedCluster) : ∀ input, Decidable (InTime t w input)
  | .tick ms => inferInstanceAs (Decidable (Punctual t w (w.now + ms)))
  | .start _ | .process _ _ _ | .redis _ _ | .crash _ _ | .pick _ | .assign _ _ | .deliver _
  | .unindex _ | .expire _ => inferInstanceAs (Decidable True)

end GachaMind.Timed
