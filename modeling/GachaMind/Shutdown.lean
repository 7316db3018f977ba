import GachaMind.Projections

/-!
# Shutting down (apps/game-session/src/index.ts, occupancy.ts)

A process from its start to its exit, its connection to Redis and its close callbacks. Between
the awaited steps of `shutdown` every event but a new connection can still be handled. What
matchmaking records of new rooms is left out: the checks of codes may be answered in any way.
-/

namespace GachaMind
open GachaMind.Js GachaMind.Shared GachaMind.GameSession KeyedTable

/-- How far `shutdown` has come: it awaits `closeEventPublisher`, the `DEL` of the load (which
Redis has run at `cleared`), the close callbacks of its rooms, and `QUIT`. -/
inductive Stage where
  | running
  | closingPublisher
  | clearing
  | cleared
  | closingRooms
  | quitting
  | quit
  | exited
  deriving DecidableEq

/-- What the process has written to its connection. -/
inductive PipeCommand where
  | issued (command : Command)
  | clearSessionLoad
  | quit

/-- A call of `notifyRoomClosed`; `shutdown` awaits its own, `handleClose` does not. A call of
`handleClose` is `late` when `shutdown` has made its calls before. -/
structure Callback where
  roomId : RoomId
  awaited : Bool
  late : Bool
  deriving DecidableEq

/-- `closing` lists the callbacks in flight, `unindexing` those whose `SREM` is still to come. -/
structure Shutdown where
  server : Server
  stage : Stage
  pipe : List PipeCommand
  redis : Redis
  closing : List Callback
  unindexing : List Callback

inductive ShutdownInput where
  /-- An event of the process other than an answer of Redis. -/
  | process (env : Env) (input : ServerInput)
  /-- Redis runs the next command; `answer` is its answer to a check. -/
  | redis (env : Env) (answer : Bool)
  /-- matchmaking handles a close callback, up to its first command. -/
  | deliver (callback : Callback)
  | unindex (callback : Callback)
  | signal
  | publisherClosed
  | closeRooms
  | quit
  | exit

def Redis.clearSessionLoad (r : Redis) (shard : ShardId) : Redis :=
  { r with session := Function.update r.session shard none }

def ServerInput.isConnect : ServerInput → Bool
  | .connect _ _ => true
  | _ => false

namespace Shutdown

/-- `shutdown` has sent the callbacks of the rooms that the process held. -/
def listed (w : Shutdown) : Prop :=
  w.stage = .closingRooms ∨ w.stage = .quitting ∨ w.stage = .quit ∨ w.stage = .exited

instance (w : Shutdown) : Decidable w.listed := inferInstanceAs (Decidable (_ ∨ _))

variable [Runtime]

def process (w : Shutdown) (env : Env) (input : ServerInput) : Option (Shutdown × List Effect) :=
  if w.stage = .exited ∨ ServerInput.isSettle input = true ∨
    w.stage ≠ .running ∧ ServerInput.isConnect input = true then none
  else
    (w.server.step (env, input)).map fun r =>
      ({ w with
          server := r.1
          pipe := w.pipe ++ (commands r.2).map .issued
          closing := w.closing ++ (r.2.filterMap closedRoom).map fun roomId =>
            ⟨roomId, false, decide w.listed⟩ },
        r.2)

/-- Redis closes the connection when it has answered `QUIT`. -/
def runCommand (w : Shutdown) (env : Env) (answer : Bool) : Option (Shutdown × List Effect) :=
  if w.stage = .quit ∨ w.stage = .exited then none
  else
    match w.pipe with
    | [] => none
    | .issued (.checkAssigned socket roomId) :: pipe =>
      (w.server.step (env, .settle socket roomId answer)).map fun r =>
        ({ w with server := r.1, pipe := pipe }, r.2)
    | .issued command :: pipe =>
      some ({ w with redis := JoinableIndex.runCommand w.redis command, pipe := pipe }, [])
    | .clearSessionLoad :: pipe =>
      some ({ w with
        redis := w.redis.clearSessionLoad w.server.self.shardId
        pipe := pipe
        stage := .cleared }, [])
    | .quit :: pipe => some ({ w with pipe := pipe, stage := .quit }, [])

def step (w : Shutdown) : ShutdownInput → Option (Shutdown × List Effect)
  | .process env input => w.process env input
  | .redis env answer => w.runCommand env answer
  | .deliver callback =>
    if callback ∈ w.closing then
      some ({ w with
        redis := w.redis.deleteRoom (normalizeRoomCode callback.roomId)
        closing := w.closing.erase callback
        unindexing :=
          { callback with roomId := normalizeRoomCode callback.roomId } :: w.unindexing }, [])
    else none
  | .unindex callback =>
    if callback ∈ w.unindexing then
      some ({ w with
        redis := w.redis.unindexRoom callback.roomId
        unindexing := w.unindexing.erase callback }, [])
    else none
  | .signal =>
    if w.stage = .running then some ({ w with stage := .closingPublisher }, []) else none
  | .publisherClosed =>
    if w.stage = .closingPublisher then
      some ({ w with stage := .clearing, pipe := w.pipe ++ [.clearSessionLoad] }, [])
    else none
  | .closeRooms =>
    if w.stage = .cleared then
      some ({ w with
        stage := .closingRooms
        closing := w.closing ++ w.server.rooms.keys.map fun roomId => ⟨roomId, true, false⟩ }, [])
    else none
  | .quit =>
    if w.stage = .closingRooms ∧ ∀ c ∈ w.closing ++ w.unindexing, c.awaited = false then
      some ({ w with stage := .quitting, pipe := w.pipe ++ [.quit] }, [])
    else none
  | .exit => if w.stage = .quit then some ({ w with stage := .exited }, []) else none

end Shutdown

/-- A process that has just reported its load for the first time. -/
def newShutdown (self : ShardIdentity) : Shutdown where
  server := newServer self
  stage := .running
  pipe := [.issued (.publishSessionLoad (newServer self).sessionLoad)]
  redis := Redis.empty
  closing := []
  unindexing := []

def shutdownSystem [Runtime] (self : ShardIdentity) :
    Machine.System Shutdown ShutdownInput Effect :=
  Machine.ofFunction (newShutdown self) Shutdown.step

/-! ### When nothing is left behind -/

namespace Shutdown

/-- A close callback of the room that is not late is still to delete its record. -/
def DeletesLater (w : Shutdown) (roomId : RoomId) : Prop :=
  (∃ c ∈ w.closing, c.late = false ∧ c.roomId = roomId) ∨
    ¬ w.listed ∧ roomId ∈ w.server.rooms.keys

instance (w : Shutdown) (roomId : RoomId) : Decidable (w.DeletesLater roomId) :=
  inferInstanceAs (Decidable (_ ∨ _))

/-- Such a callback is still to remove the room from the index. -/
def UnindexesLater (w : Shutdown) (roomId : RoomId) : Prop :=
  w.DeletesLater roomId ∨ ∃ c ∈ w.unindexing, c.late = false ∧ c.roomId = roomId

instance (w : Shutdown) (roomId : RoomId) : Decidable (w.UnindexesLater roomId) :=
  inferInstanceAs (Decidable (_ ∨ _))

/-- Between the calls of `clearSessionLoad` and `redis.quit`. -/
def withdrawing (w : Shutdown) : Prop :=
  w.stage = .clearing ∨ w.stage = .cleared ∨ w.stage = .closingRooms

instance (w : Shutdown) : Decidable w.withdrawing := inferInstanceAs (Decidable (_ ∨ _))

end Shutdown

def Effect.isLoad : Effect → Bool
  | .publishSessionLoad _ => true
  | _ => false

/-- No event reports the load once `clearSessionLoad` is called, until `redis.quit` is; Redis runs
a projection of a room only if a close callback of the room, not a late one, is still to come; and
no such callback is under way at the exit. -/
def NothingLeft [Runtime] (w : Shutdown) : ShutdownInput → Prop
  | .process env input => w.withdrawing →
      ((w.server.step (env, input)).all fun r => !r.2.any Effect.isLoad) = true
  | .redis _ _ =>
    match w.pipe with
    | .issued (.recordRoom roomId _) :: _ => w.DeletesLater roomId
    | .issued (.indexRoom roomId false) :: _ => w.UnindexesLater roomId
    | _ => True
  | .exit => ∀ c ∈ w.closing ++ w.unindexing, c.late = true
  | _ => True

instance [Runtime] (w : Shutdown) : ∀ input, Decidable (NothingLeft w input)
  | .process _ _ => inferInstanceAs (Decidable (_ → _))
  | .redis _ _ => by
    unfold NothingLeft
    dsimp only
    split <;> infer_instance
  | .exit => inferInstanceAs (Decidable (∀ c ∈ w.closing ++ w.unindexing, _))
  | .deliver _ | .unindex _ | .signal | .publisherClosed | .closeRooms | .quit =>
    inferInstanceAs (Decidable True)

/-! ### Everything one event can do -/

inductive ShutdownStep [Runtime] (w : Shutdown) :
    ShutdownInput → Shutdown → List Effect → Prop
  | process {env : Env} {input : ServerInput} {t : Server} {os : List Effect}
      (hx : w.stage ≠ .exited) (h : w.server.step (env, input) = some (t, os)) :
      ShutdownStep w (.process env input)
        { w with
          server := t
          pipe := w.pipe ++ (commands os).map .issued
          closing := w.closing ++ (os.filterMap closedRoom).map fun roomId =>
            ⟨roomId, false, decide w.listed⟩ } os
  | check {env : Env} {answer : Bool} {socket : SocketId} {roomId : RoomId}
      {pipe : List PipeCommand} {t : Server} {os : List Effect} (hq : w.stage ≠ .quit)
      (hx : w.stage ≠ .exited) (hp : w.pipe = .issued (.checkAssigned socket roomId) :: pipe)
      (h : w.server.step (env, .settle socket roomId answer) = some (t, os)) :
      ShutdownStep w (.redis env answer) { w with server := t, pipe := pipe } os
  | run {env : Env} {answer : Bool} {command : Command} {pipe : List PipeCommand}
      (hq : w.stage ≠ .quit) (hx : w.stage ≠ .exited) (hp : w.pipe = .issued command :: pipe) :
      ShutdownStep w (.redis env answer)
        { w with redis := JoinableIndex.runCommand w.redis command, pipe := pipe } []
  | clear {env : Env} {answer : Bool} {pipe : List PipeCommand} (hq : w.stage ≠ .quit)
      (hx : w.stage ≠ .exited) (hp : w.pipe = .clearSessionLoad :: pipe) :
      ShutdownStep w (.redis env answer)
        { w with
          redis := w.redis.clearSessionLoad w.server.self.shardId
          pipe := pipe
          stage := .cleared } []
  | hangUp {env : Env} {answer : Bool} {pipe : List PipeCommand} (hq : w.stage ≠ .quit)
      (hx : w.stage ≠ .exited) (hp : w.pipe = .quit :: pipe) :
      ShutdownStep w (.redis env answer) { w with pipe := pipe, stage := .quit } []
  | deliver {callback : Callback} (h : callback ∈ w.closing) :
      ShutdownStep w (.deliver callback)
        { w with
          redis := w.redis.deleteRoom (normalizeRoomCode callback.roomId)
          closing := w.closing.erase callback
          unindexing :=
            { callback with roomId := normalizeRoomCode callback.roomId } :: w.unindexing } []
  | unindex {callback : Callback} (h : callback ∈ w.unindexing) :
      ShutdownStep w (.unindex callback)
        { w with
          redis := w.redis.unindexRoom callback.roomId
          unindexing := w.unindexing.erase callback } []
  | signal (h : w.stage = .running) :
      ShutdownStep w .signal { w with stage := .closingPublisher } []
  | publisherClosed (h : w.stage = .closingPublisher) :
      ShutdownStep w .publisherClosed
        { w with stage := .clearing, pipe := w.pipe ++ [.clearSessionLoad] } []
  | closeRooms (h : w.stage = .cleared) :
      ShutdownStep w .closeRooms
        { w with
          stage := .closingRooms
          closing := w.closing ++ w.server.rooms.keys.map fun roomId => ⟨roomId, true, false⟩ } []
  | quit (h : w.stage = .closingRooms) :
      ShutdownStep w .quit { w with stage := .quitting, pipe := w.pipe ++ [.quit] } []
  | exit (h : w.stage = .quit) : ShutdownStep w .exit { w with stage := .exited } []

section
variable [Runtime] {self : ShardIdentity}

theorem shutdown_step {w v : Shutdown} {input : ShutdownInput} {os : List Effect}
    (h : (shutdownSystem self).step w input v os) : ShutdownStep w input v os := by
  change w.step input = some (v, os) at h
  cases input with
  | process env input =>
    change w.process env input = _ at h
    unfold Shutdown.process at h
    split_ifs at h with hi
    push Not at hi
    obtain ⟨r, hr, he⟩ := Option.map_eq_some_iff.mp h
    cases he
    exact .process hi.1 hr
  | redis env answer =>
    change w.runCommand env answer = _ at h
    unfold Shutdown.runCommand at h
    split_ifs at h with hstage
    push Not at hstage
    split at h
    · cases h
    · rename_i socket roomId pipe hp
      obtain ⟨r, hr, he⟩ := Option.map_eq_some_iff.mp h
      cases he
      exact .check hstage.1 hstage.2 hp hr
    · rename_i command pipe _ hp
      cases h
      exact .run hstage.1 hstage.2 hp
    · rename_i pipe hp
      cases h
      exact .clear hstage.1 hstage.2 hp
    · rename_i pipe hp
      cases h
      exact .hangUp hstage.1 hstage.2 hp
  | deliver callback =>
    simp only [Shutdown.step] at h
    split_ifs at h with hm
    cases h
    exact .deliver hm
  | unindex callback =>
    simp only [Shutdown.step] at h
    split_ifs at h with hm
    cases h
    exact .unindex hm
  | signal =>
    simp only [Shutdown.step] at h
    split_ifs at h with hs
    cases h
    exact .signal hs
  | publisherClosed =>
    simp only [Shutdown.step] at h
    split_ifs at h with hs
    cases h
    exact .publisherClosed hs
  | closeRooms =>
    simp only [Shutdown.step] at h
    split_ifs at h with hs
    cases h
    exact .closeRooms hs
  | quit =>
    simp only [Shutdown.step] at h
    split_ifs at h with hs
    cases h
    exact .quit hs.1
  | exit =>
    simp only [Shutdown.step] at h
    split_ifs at h with hs
    cases h
    exact .exit hs

theorem shutdown_process {w : Shutdown} (hr : Machine.Reachable (shutdownSystem self) w) :
    Machine.Reachable (serverSystem self) w.server := by
  refine hr.invariant (I := fun w => Machine.Reachable (serverSystem self) w.server) ?_ ?_
  · intro w hw
    obtain rfl := hw
    exact .start rfl
  · intro w i v os h hs
    cases shutdown_step hs with
    | process _ hstep => exact h.step hstep
    | check _ _ _ hstep => exact h.step hstep
    | _ => exact h

end

/-! ### Codes are normal -/

section
variable [Runtime]

/-- `toUpperCase` leaves digits and capital letters as they are. -/
def KeepsCodes : Prop :=
  ∀ s : JsString, (∀ c ∈ s, isRoomCodeChar c = true) → Runtime.toUpperCase s = s

omit [Runtime] in
theorem isRoomCodeChar_fold {c : CodeUnit} (h : isRoomCodeChar c = true) :
    isRoomCodeChar (foldLookalike c) = true := by
  unfold foldLookalike
  split_ifs
  · rfl
  · rfl
  · exact h

omit [Runtime] in
theorem foldLookalike_idem (c : CodeUnit) :
    foldLookalike (foldLookalike c) = foldLookalike c := by
  unfold foldLookalike
  split_ifs with h1 h2 <;> simp_all

theorem normalizeRoomCode_idem (h : KeepsCodes) (s : JsString) :
    normalizeRoomCode (normalizeRoomCode s) = normalizeRoomCode s := by
  have hchars : ∀ c ∈ normalizeRoomCode s, isRoomCodeChar c = true := by
    intro c hc
    obtain ⟨d, hd, rfl⟩ := List.mem_map.mp hc
    exact isRoomCodeChar_fold (List.mem_filter.mp hd).2
  rw [show normalizeRoomCode (normalizeRoomCode s) = ((Runtime.toUpperCase
    (normalizeRoomCode s)).filter isRoomCodeChar).map foldLookalike from rfl, h _ hchars,
    List.filter_eq_self.mpr hchars]
  simp only [normalizeRoomCode, List.map_map]
  exact List.map_congr_left fun c _ => foldLookalike_idem c

def Normal (code : RoomId) : Prop := normalizeRoomCode code = code

structure Coded (s : Server) : Prop where
  rooms : ∀ roomId ∈ s.rooms.keys, Normal roomId
  waiting : ∀ call who code answer, .assignment call who code answer ∈ s.waiting → Normal code

variable {s t : Server} {env : Env} {input : ServerInput} {os : List Effect}

omit [Runtime] in
theorem enter_asks {u : Server} {call : JoinCall} {identity : Option Identity} {roomId : RoomId}
    {room : Room} (h : u.enter env call identity roomId room = .ok (t, os)) {socket : SocketId}
    {code : RoomId} : .checkAssigned socket code ∉ os := by
  intro he
  unfold Server.enter at h
  split_ifs at h with hf
  · cases h
    simp at he
  · obtain ⟨nickname, -, h⟩ := bind_eq_ok.mp h
    cases h
    rcases List.mem_append.mp he with he | he
    · simp [syncOccupancy, Server.report] at he
    · exact (@welcome_local env.shard room.id env _ _) _ he

theorem resume_asks {socket k : SocketId} {code : RoomId}
    (h : s.resume env socket = some (t, os)) (he : .checkAssigned k code ∈ os) :
    ∃ text, code = normalizeRoomCode text := by
  obtain ⟨w, -, h⟩ := Option.bind_eq_some_iff.mp h
  obtain ⟨x, hx, h⟩ := Option.bind_eq_some_iff.mp h
  have hok := toOption_eq_some h
  cases w with
  | identity call =>
    obtain rfl := Option.some.inj hx
    obtain ⟨identity, -, hok⟩ := bind_eq_ok.mp hok
    split_ifs at hok with hopen
    · cases hok
      exact absurd he List.not_mem_nil
    · obtain ⟨text, -, hok⟩ := bind_eq_ok.mp hok
      dsimp only at hok
      split at hok
      · exact absurd he (enter_asks hok)
      · cases hok
        exact ⟨text, (Effect.checkAssigned.inj (List.mem_singleton.mp he)).2⟩
  | assignment call identity roomId answer =>
    cases answer with
    | none => cases hx
    | some answer =>
      obtain rfl := Option.some.inj hx
      change Server.afterAssignment _ _ _ _ _ _ = _ at hok
      unfold Server.afterAssignment at hok
      split_ifs at hok with hanswer hopen
      · cases hok
        simp at he
      · cases hok
        exact absurd he List.not_mem_nil
      · exact absurd he (enter_asks hok)

theorem handle_coded (hk : KeepsCodes) (hrun : ∀ room ∈ s.rooms.rows, RoomRun s.issued room)
    (h : Coded s) (hs : s.handle env input = some (t, os)) : Coded t := by
  have hstep := handle_cases hs
  refine ⟨fun roomId hr => ?_, ?_⟩
  · rcases serverStep_keys hrun hstep hr with hr | ⟨w, hw, hg⟩
    · exact h.rooms roomId hr
    · unfold Waiting.granted at hg
      split at hg
      · obtain rfl := Option.some.inj hg
        exact h.waiting _ _ _ _ hw
      · cases hg
  · have hsame : t.waiting ⊆ s.waiting → ∀ call who code answer,
        .assignment call who code answer ∈ t.waiting → Normal code :=
      fun hsub call who code answer hw => h.waiting _ _ _ _ (hsub hw)
    cases hstep with
    | settle socket roomId answer =>
      intro call who code a hw
      obtain ⟨v, hv, he⟩ := List.mem_map.mp hw
      split_ifs at he with hasks
      · cases v with
        | identity _ => cases he
        | assignment call' who' code' a' =>
          obtain rfl : code' = code := by
            cases a' <;> cases he <;> rfl
          exact h.waiting _ _ _ _ hv
      · rw [he] at hv
        exact h.waiting _ _ _ _ hv
    | startJoin _ _ _ =>
      intro call who code a hw
      rcases List.mem_append.mp hw with hw | hw
      · exact h.waiting _ _ _ _ hw
      · cases List.mem_singleton.mp hw
    | abandon _ => exact hsame fun _ hw => mem_without_waiting hw
    | refuse _ _ => exact hsame fun _ hw => mem_without_waiting hw
    | ask _ _ =>
      intro call who code a hw
      rcases List.mem_append.mp hw with hw | hw
      · exact h.waiting _ _ _ _ (mem_without_waiting hw)
      · cases List.mem_singleton.mp hw
        obtain ⟨text, ht⟩ := resume_asks hs (List.mem_singleton.mpr rfl)
        rw [ht]
        exact normalizeRoomCode_idem hk text
    | seat _ _ _ _ _ _ => exact hsame fun _ hw => mem_without_waiting hw
    | _ => exact hsame fun _ hw => hw

theorem server_coded (hk : KeepsCodes) {self : ShardIdentity} {s : Server}
    (hr : Machine.Reachable (serverSystem self) s) : Coded s := by
  refine hr.invariant_of (J := fun s => ∀ room ∈ s.rooms.rows, RoomRun s.issued room)
    (fun _ hr => server_room_reachable hr) ?_ ?_
  · intro s hs
    obtain rfl := hs
    exact ⟨fun _ hr => absurd hr List.not_mem_nil, fun _ _ _ _ hw => absurd hw List.not_mem_nil⟩
  · intro s i t os hrun h hs
    simp only [serverSystem, Machine.ofFunction, Server.step] at hs
    split_ifs at hs with hu
    obtain ⟨x, hx, he⟩ := Option.map_eq_some_iff.mp hs
    cases he
    have hcoded := handle_coded hk hrun h hx
    exact ⟨hcoded.rooms, hcoded.waiting⟩

/-! ### Rooms go with a callback -/

theorem serverStep_kept (h : ServerStep s env input t os) {roomId : RoomId}
    (hk : roomId ∈ s.rooms.keys) : roomId ∈ t.rooms.keys ∨ .notifyRoomClosed roomId ∈ os := by
  cases h with
  | play _ _ _ => exact .inl (mem_keys_set.mpr (.inr hk))
  | seat _ _ _ _ _ _ => exact .inl (mem_keys_set.mpr (.inr hk))
  | closeMember _ _ _ _ _ _ _ => exact .inl (mem_keys_set.mpr (.inr hk))
  | @closeLast _ room _ _ _ os _ _ _ _ _ _ _ _ _ =>
    by_cases he : roomId = room.id
    · right
      rw [he]
      exact List.mem_append_right _ List.mem_cons_self
    · exact .inl (mem_keys_erase.mpr ⟨hk, he⟩)
  | _ => exact .inl hk

theorem serverStep_notified (h : ServerStep s env input t os) {roomId : RoomId}
    (he : .notifyRoomClosed roomId ∈ os) : roomId ∈ s.rooms.keys := by
  cases h with
  | still hos => exact (hos _ he).elim
  | play _ _ hs => exact (roomStep_local hs _ he).elim
  | refuse _ _ => simp at he
  | ask _ _ => simp at he
  | seat _ _ _ _ _ hos => exact (hos _ he).elim
  | closeMember _ _ _ _ _ _ hos => exact (hos _ he).elim
  | closeLast _ _ _ hroom _ _ hos hps =>
    rcases List.mem_append.mp he with he | he
    · exact (hos _ he).elim
    · rcases List.mem_cons.mp he with he | he
      · cases he
        exact mem_keys_of_get? hroom
      · exact (hps _ he).elim
  | _ => cases he

end

/-! ### The load -/

def PipeCommand.isIssued : PipeCommand → Bool
  | .issued _ => true
  | _ => false

def PipeCommand.isQuiet : PipeCommand → Bool
  | .issued (.publishSessionLoad _) => false
  | .issued _ => true
  | _ => false

/-- Where the `DEL` of the load and `QUIT` stand in the pipe; no report of the load lies between. -/
inductive LoadWithdrawn (r : Redis) (shard : ShardId) : Stage → List PipeCommand → Prop
  | running {pipe : List PipeCommand} (h : ∀ c ∈ pipe, c.isIssued = true) :
      LoadWithdrawn r shard .running pipe
  | closingPublisher {pipe : List PipeCommand} (h : ∀ c ∈ pipe, c.isIssued = true) :
      LoadWithdrawn r shard .closingPublisher pipe
  | clearing {pre post : List PipeCommand} (hpre : ∀ c ∈ pre, c.isIssued = true)
      (hpost : ∀ c ∈ post, c.isQuiet = true) :
      LoadWithdrawn r shard .clearing (pre ++ .clearSessionLoad :: post)
  | cleared {pipe : List PipeCommand} (hr : r.session shard = none)
      (h : ∀ c ∈ pipe, c.isQuiet = true) : LoadWithdrawn r shard .cleared pipe
  | closingRooms {pipe : List PipeCommand} (hr : r.session shard = none)
      (h : ∀ c ∈ pipe, c.isQuiet = true) : LoadWithdrawn r shard .closingRooms pipe
  | quitting {pre post : List PipeCommand} (hr : r.session shard = none)
      (hpre : ∀ c ∈ pre, c.isQuiet = true) :
      LoadWithdrawn r shard .quitting (pre ++ .quit :: post)
  | quit {pipe : List PipeCommand} (hr : r.session shard = none) : LoadWithdrawn r shard .quit pipe
  | exited {pipe : List PipeCommand} (hr : r.session shard = none) :
      LoadWithdrawn r shard .exited pipe

namespace LoadWithdrawn
variable {r q : Redis} {shard : ShardId} {stage : Stage} {pipe : List PipeCommand}

theorem congr (h : LoadWithdrawn r shard stage pipe) (hs : q.session = r.session) :
    LoadWithdrawn q shard stage pipe := by
  cases h with
  | running h => exact .running h
  | closingPublisher h => exact .closingPublisher h
  | clearing hpre hpost => exact .clearing hpre hpost
  | cleared hr h => exact .cleared (hs ▸ hr) h
  | closingRooms hr h => exact .closingRooms (hs ▸ hr) h
  | quitting hr hpre => exact .quitting (hs ▸ hr) hpre
  | quit hr => exact .quit (hs ▸ hr)
  | exited hr => exact .exited (hs ▸ hr)

theorem append (h : LoadWithdrawn r shard stage pipe) {cs : List Command}
    (hq : stage = .clearing ∨ stage = .cleared ∨ stage = .closingRooms →
      ∀ c ∈ cs, (PipeCommand.issued c).isQuiet = true) :
    LoadWithdrawn r shard stage (pipe ++ cs.map .issued) := by
  have hissued : ∀ ds : List PipeCommand, (∀ c ∈ ds, c.isIssued = true) →
      ∀ c ∈ ds ++ cs.map .issued, c.isIssued = true := by
    intro ds hds c hc
    rcases List.mem_append.mp hc with hc | hc
    · exact hds c hc
    · obtain ⟨d, -, rfl⟩ := List.mem_map.mp hc
      rfl
  have hquiet : ∀ ds : List PipeCommand,
      (∀ c ∈ cs, (PipeCommand.issued c).isQuiet = true) → (∀ c ∈ ds, c.isQuiet = true) →
      ∀ c ∈ ds ++ cs.map .issued, c.isQuiet = true := by
    intro ds hcs hds c hc
    rcases List.mem_append.mp hc with hc | hc
    · exact hds c hc
    · obtain ⟨d, hd, rfl⟩ := List.mem_map.mp hc
      exact hcs d hd
  cases h with
  | running h => exact .running (hissued _ h)
  | closingPublisher h => exact .closingPublisher (hissued _ h)
  | clearing hpre hpost =>
    rw [List.append_assoc, List.cons_append]
    exact .clearing hpre (hquiet _ (hq (.inl rfl)) hpost)
  | cleared hr h => exact .cleared hr (hquiet _ (hq (.inr (.inl rfl))) h)
  | closingRooms hr h => exact .closingRooms hr (hquiet _ (hq (.inr (.inr rfl))) h)
  | quitting hr hpre =>
    rw [List.append_assoc, List.cons_append]
    exact .quitting hr hpre
  | quit hr => exact .quit hr
  | exited hr => exact .exited hr

theorem session_runCommand {command : Command}
    (h : (PipeCommand.issued command).isQuiet = true) :
    (JoinableIndex.runCommand r command).session = r.session := by
  cases command with
  | publishSessionLoad _ => cases h
  | _ => rfl

theorem run {command : Command} (h : LoadWithdrawn r shard stage (.issued command :: pipe))
    (hq : stage ≠ .quit) (hx : stage ≠ .exited) :
    LoadWithdrawn (JoinableIndex.runCommand r command) shard stage pipe := by
  generalize hp : PipeCommand.issued command :: pipe = whole at h
  have htail : ∀ {P : PipeCommand → Prop}, (∀ c ∈ whole, P c) → ∀ c ∈ pipe, P c := by
    intro P h c hc
    exact h c (hp ▸ List.mem_cons_of_mem _ hc)
  cases h with
  | running h => exact .running (htail h)
  | closingPublisher h => exact .closingPublisher (htail h)
  | @clearing pre post hpre hpost =>
    cases pre with
    | nil => cases hp
    | cons c pre =>
      obtain ⟨rfl, rfl⟩ := List.cons.inj hp
      exact .clearing (fun c hc => hpre c (List.mem_cons_of_mem _ hc)) hpost
  | cleared hr h =>
    have hhead := h _ (hp ▸ List.mem_cons_self)
    exact .cleared (by rw [session_runCommand hhead, hr]) (htail h)
  | closingRooms hr h =>
    have hhead := h _ (hp ▸ List.mem_cons_self)
    exact .closingRooms (by rw [session_runCommand hhead, hr]) (htail h)
  | @quitting pre post hr hpre =>
    cases pre with
    | nil => cases hp
    | cons c pre =>
      obtain ⟨rfl, rfl⟩ := List.cons.inj hp
      have hhead := hpre _ List.mem_cons_self
      exact .quitting (by rw [session_runCommand hhead, hr])
        fun c hc => hpre c (List.mem_cons_of_mem _ hc)
  | quit _ => exact absurd rfl hq
  | exited _ => exact absurd rfl hx

theorem clear (h : LoadWithdrawn r shard stage (.clearSessionLoad :: pipe)) (hq : stage ≠ .quit)
    (hx : stage ≠ .exited) : LoadWithdrawn (r.clearSessionLoad shard) shard .cleared pipe := by
  generalize hp : PipeCommand.clearSessionLoad :: pipe = whole at h
  have hhead : PipeCommand.clearSessionLoad ∈ whole := hp ▸ List.mem_cons_self
  cases h with
  | running h => cases h _ hhead
  | closingPublisher h => cases h _ hhead
  | @clearing pre post hpre hpost =>
    cases pre with
    | nil =>
      obtain ⟨-, rfl⟩ := List.cons.inj hp
      exact .cleared (Function.update_self ..) hpost
    | cons c pre =>
      obtain ⟨rfl, -⟩ := List.cons.inj hp
      cases hpre _ List.mem_cons_self
  | cleared _ h => cases h _ hhead
  | closingRooms _ h => cases h _ hhead
  | @quitting pre post hr hpre =>
    cases pre with
    | nil => cases hp
    | cons c pre =>
      obtain ⟨rfl, -⟩ := List.cons.inj hp
      cases hpre _ List.mem_cons_self
  | quit _ => exact absurd rfl hq
  | exited _ => exact absurd rfl hx

theorem hangUp (h : LoadWithdrawn r shard stage (.quit :: pipe)) (hq : stage ≠ .quit)
    (hx : stage ≠ .exited) : stage = .quitting ∧ LoadWithdrawn r shard .quit pipe := by
  generalize hp : PipeCommand.quit :: pipe = whole at h
  have hhead : PipeCommand.quit ∈ whole := hp ▸ List.mem_cons_self
  cases h with
  | running h => cases h _ hhead
  | closingPublisher h => cases h _ hhead
  | @clearing pre post hpre hpost =>
    cases pre with
    | nil => cases hp
    | cons c pre =>
      obtain ⟨rfl, -⟩ := List.cons.inj hp
      cases hpre _ List.mem_cons_self
  | cleared _ h => cases h _ hhead
  | closingRooms _ h => cases h _ hhead
  | quitting hr _ => exact ⟨rfl, .quit hr⟩
  | quit _ => exact absurd rfl hq
  | exited _ => exact absurd rfl hx

end LoadWithdrawn

theorem quiet_commands {os : List Effect} (h : os.any Effect.isLoad = false) :
    ∀ c ∈ commands os, (PipeCommand.issued c).isQuiet = true := by
  intro c hc
  obtain ⟨e, he, hce⟩ := List.mem_flatMap.mp hc
  have hno := List.any_eq_false.mp h e he
  cases e with
  | syncOccupancy roomId projection =>
    rcases List.mem_pair.mp hce with rfl | rfl <;> rfl
  | checkAssigned socket roomId =>
    rw [List.mem_singleton.mp hce]
    rfl
  | publishSessionLoad load => exact absurd rfl hno
  | _ => cases hce

/-! ### The invariant -/

namespace Shutdown
variable {w v : Shutdown}

theorem DeletesLater.mono {roomId : RoomId} (h : w.DeletesLater roomId)
    (hclosing : ∀ c ∈ w.closing, c.late = false → c.roomId = roomId →
      ∃ d ∈ v.closing, d.late = false ∧ d.roomId = roomId)
    (hkeys : ¬ w.listed → roomId ∈ w.server.rooms.keys → v.DeletesLater roomId) :
    v.DeletesLater roomId := by
  rcases h with ⟨c, hc, hin, he⟩ | ⟨hl, hk⟩
  · exact .inl (hclosing c hc hin he)
  · exact hkeys hl hk

theorem UnindexesLater.mono {roomId : RoomId} (h : w.UnindexesLater roomId)
    (hdeletes : w.DeletesLater roomId → v.DeletesLater roomId)
    (hunindexing : w.unindexing = v.unindexing) : v.UnindexesLater roomId := by
  rcases h with h | h
  · exact .inl (hdeletes h)
  · exact .inr (hunindexing ▸ h)

variable [Runtime]

/-- Every record and every entry of the index still has its callback to come. -/
structure Clean (w : Shutdown) : Prop where
  closing : ∀ c ∈ w.closing, Normal c.roomId
  recorded : ∀ roomId, w.redis.room roomId ≠ {} → w.DeletesLater roomId
  indexed : ∀ roomId ∈ w.redis.joinable, w.UnindexesLater roomId
  load : LoadWithdrawn w.redis w.server.self.shardId w.stage w.pipe
  done : w.stage = .exited → ∀ c ∈ w.closing ++ w.unindexing, c.late = true

theorem Clean.stay (h : w.Clean) (hclosing : v.closing = w.closing)
    (hunindexing : v.unindexing = w.unindexing) (hroom : v.redis.room = w.redis.room)
    (hjoinable : v.redis.joinable = w.redis.joinable)
    (hkeys : v.server.rooms.keys = w.server.rooms.keys) (hlisted : v.listed → w.listed)
    (hload : LoadWithdrawn v.redis v.server.self.shardId v.stage v.pipe)
    (hdone : v.stage = .exited → ∀ c ∈ v.closing ++ v.unindexing, c.late = true) : v.Clean := by
  have hlater : ∀ roomId, w.DeletesLater roomId → v.DeletesLater roomId := by
    intro roomId hd
    refine hd.mono (fun c hc hin he => ⟨c, hclosing ▸ hc, hin, he⟩) fun hl hk => ?_
    exact .inr ⟨fun hv => hl (hlisted hv), hkeys ▸ hk⟩
  refine ⟨hclosing ▸ h.closing, fun roomId hr => ?_, fun roomId hj => ?_, hload, hdone⟩
  · exact hlater roomId (h.recorded roomId (hroom ▸ hr))
  · exact (h.indexed roomId (hjoinable ▸ hj)).mono (hlater roomId) hunindexing.symm

theorem Clean.process {env : Env} {input : ServerInput} {t : Server} {os : List Effect}
    (h : w.Clean) (hcoded : Coded w.server) (hn : NothingLeft w (.process env input))
    (hx : w.stage ≠ .exited) (hs : w.server.step (env, input) = some (t, os)) :
    Clean { w with
      server := t
      pipe := w.pipe ++ (commands os).map .issued
      closing := w.closing ++ (os.filterMap closedRoom).map fun roomId =>
            ⟨roomId, false, decide w.listed⟩ } := by
  obtain ⟨-, u, hstep, rfl⟩ := @server_step _ w.server.self _ _ (env, input) _ hs
  have hself : u.self = w.server.self := serverStep_self hstep
  have hlater : ∀ roomId, w.DeletesLater roomId → DeletesLater { w with
      server := { u with issued := env.uuid :: w.server.issued }
      pipe := w.pipe ++ (commands os).map .issued
      closing := w.closing ++ (os.filterMap closedRoom).map fun roomId =>
            ⟨roomId, false, decide w.listed⟩ }
      roomId := by
    intro roomId hd
    refine hd.mono (fun c hc hin he => ⟨c, List.mem_append_left _ hc, hin, he⟩) fun hl hk => ?_
    rcases serverStep_kept hstep hk with hk | hclosed
    · exact .inr ⟨hl, hk⟩
    · refine .inl ⟨⟨roomId, false, decide w.listed⟩, List.mem_append_right _
        (List.mem_map_of_mem (List.mem_filterMap.mpr ⟨_, hclosed, rfl⟩)), ?_, rfl⟩
      exact decide_eq_false hl
  refine ⟨fun c hc => ?_, fun roomId hr => hlater _ (h.recorded roomId hr),
    fun roomId hj => (h.indexed roomId hj).mono (hlater _) rfl, ?_, fun he => absurd he hx⟩
  · rcases List.mem_append.mp hc with hc | hc
    · exact h.closing c hc
    · obtain ⟨roomId, hr, rfl⟩ := List.mem_map.mp hc
      obtain ⟨e, he, hce⟩ := List.mem_filterMap.mp hr
      unfold closedRoom at hce
      split at hce
      · obtain rfl := Option.some.inj hce
        exact hcoded.rooms _ (serverStep_notified hstep he)
      · cases hce
  · show LoadWithdrawn w.redis u.self.shardId w.stage _
    rw [hself]
    refine h.load.append fun hw => quiet_commands ?_
    have hquiet := hn hw
    rw [hs] at hquiet
    simpa using hquiet

theorem Clean.run {command : Command} {pipe : List PipeCommand} {env : Env} {answer : Bool}
    (h : w.Clean) (hn : NothingLeft w (.redis env answer)) (hq : w.stage ≠ .quit)
    (hx : w.stage ≠ .exited) (hp : w.pipe = .issued command :: pipe) :
    Clean { w with redis := JoinableIndex.runCommand w.redis command, pipe := pipe } := by
  have hload : LoadWithdrawn (JoinableIndex.runCommand w.redis command) w.server.self.shardId
      w.stage pipe := by
    have hbefore := h.load
    rw [hp] at hbefore
    exact hbefore.run hq hx
  have hdone : w.stage = .exited → ∀ c ∈ w.closing ++ w.unindexing, c.late = true :=
    fun he => absurd he hx
  simp only [NothingLeft, hp] at hn
  cases command with
  | recordRoom roomId projection =>
    refine ⟨h.closing, fun k hr => ?_, h.indexed, hload, hdone⟩
    change (w.redis.recordRoom roomId projection).room k ≠ {} at hr
    rw [Redis.recordRoom, Redis.room_setRoom] at hr
    split_ifs at hr with hk
    · rw [hk]
      exact hn
    · exact h.recorded k hr
  | indexRoom roomId isFull =>
    refine ⟨h.closing, h.recorded, fun k hj => ?_, hload, hdone⟩
    change k ∈ (w.redis.indexRoom roomId isFull).joinable at hj
    cases isFull with
    | true => exact h.indexed k (Finset.mem_of_mem_erase hj)
    | false =>
      rcases Finset.mem_insert.mp hj with rfl | hj
      · exact hn
      · exact h.indexed k hj
  | checkAssigned _ _ => exact ⟨h.closing, h.recorded, h.indexed, hload, hdone⟩
  | publishSessionLoad _ => exact ⟨h.closing, h.recorded, h.indexed, hload, hdone⟩

theorem Clean.deliver {callback : Callback} (h : w.Clean) (hc : callback ∈ w.closing) :
    Clean { w with
      redis := w.redis.deleteRoom (normalizeRoomCode callback.roomId)
      closing := w.closing.erase callback
      unindexing :=
          { callback with roomId := normalizeRoomCode callback.roomId } :: w.unindexing } := by
  have hnormal : normalizeRoomCode callback.roomId = callback.roomId := h.closing callback hc
  rw [hnormal]
  have hother : ∀ roomId, roomId ≠ callback.roomId → w.DeletesLater roomId →
      DeletesLater { w with
        redis := w.redis.deleteRoom callback.roomId
        closing := w.closing.erase callback
        unindexing := { callback with roomId := callback.roomId } :: w.unindexing } roomId := by
    intro roomId hne hd
    refine hd.mono (fun c hm hin he => ⟨c, ?_, hin, he⟩) fun hl hk => .inr ⟨hl, hk⟩
    refine (List.mem_erase_of_ne fun hcc => hne ?_).mpr hm
    rw [← he, hcc]
  refine ⟨fun c hm => h.closing c (List.mem_of_mem_erase hm), fun roomId hr => ?_,
    fun roomId hj => ?_, h.load.congr rfl, fun he => ?_⟩
  · change (w.redis.deleteRoom callback.roomId).room roomId ≠ {} at hr
    rw [Redis.deleteRoom, Redis.room_setRoom] at hr
    split_ifs at hr with hk
    · exact absurd rfl hr
    · exact hother roomId hk (h.recorded roomId hr)
  · rcases h.indexed roomId hj with (⟨c, hm, hin, he⟩ | ⟨hl, hk⟩) | ⟨c, hm, he⟩
    · by_cases hcc : c = callback
      · subst hcc
        exact .inr ⟨_, List.mem_cons_self, hin, he⟩
      · exact .inl (.inl ⟨c, (List.mem_erase_of_ne hcc).mpr hm, hin, he⟩)
    · exact .inl (.inr ⟨hl, hk⟩)
    · exact .inr ⟨c, List.mem_cons_of_mem _ hm, he⟩
  · intro c hm
    have hold := h.done he
    rcases List.mem_append.mp hm with hm | hm
    · exact hold c (List.mem_append_left _ (List.mem_of_mem_erase hm))
    · rcases List.mem_cons.mp hm with rfl | hm
      · exact hold callback (List.mem_append_left _ hc)
      · exact hold c (List.mem_append_right _ hm)

theorem Clean.unindex (callback : Callback) (h : w.Clean) :
    Clean { w with
      redis := w.redis.unindexRoom callback.roomId
      unindexing := w.unindexing.erase callback } := by
  refine ⟨h.closing, h.recorded, fun roomId hj => ?_, h.load.congr rfl, fun he => ?_⟩
  · obtain ⟨hne, hj⟩ := Finset.mem_erase.mp hj
    rcases h.indexed roomId hj with hd | ⟨c, hm, he⟩
    · exact .inl hd
    · refine .inr ⟨c, (List.mem_erase_of_ne fun hcc => hne ?_).mpr hm, he⟩
      rw [← he.2, hcc]
  · intro c hm
    rcases List.mem_append.mp hm with hm | hm
    · exact h.done he c (List.mem_append_left _ hm)
    · exact h.done he c (List.mem_append_right _ (List.mem_of_mem_erase hm))

theorem Clean.closeRooms (h : w.Clean) (hcoded : Coded w.server) (hs : w.stage = .cleared) :
    Clean { w with
      stage := .closingRooms
      closing := w.closing ++ w.server.rooms.keys.map fun roomId => ⟨roomId, true, false⟩ } := by
  have hlater : ∀ roomId, w.DeletesLater roomId → DeletesLater { w with
      stage := .closingRooms
      closing := w.closing ++ w.server.rooms.keys.map fun roomId => ⟨roomId, true, false⟩ }
      roomId := by
    intro roomId hd
    refine hd.mono (fun c hm hin he => ⟨c, List.mem_append_left _ hm, hin, he⟩) fun _ hk => ?_
    exact .inl ⟨⟨roomId, true, false⟩, List.mem_append_right _ (List.mem_map_of_mem hk), rfl, rfl⟩
  refine ⟨fun c hm => ?_, fun roomId hr => hlater _ (h.recorded roomId hr),
    fun roomId hj => (h.indexed roomId hj).mono (hlater _) rfl, ?_, fun he => by cases he⟩
  · rcases List.mem_append.mp hm with hm | hm
    · exact h.closing c hm
    · obtain ⟨roomId, hk, rfl⟩ := List.mem_map.mp hm
      exact hcoded.rooms roomId hk
  · have hload := h.load
    rw [hs] at hload
    cases hload with
    | cleared hr hquiet => exact .closingRooms hr hquiet

theorem clean_step {input : ShutdownInput} {os : List Effect} (h : w.Clean)
    (hcoded : Coded w.server) (hn : NothingLeft w input) (hs : ShutdownStep w input v os) :
    v.Clean := by
  have hload := h.load
  cases hs with
  | process hx hstep => exact h.process hcoded hn hx hstep
  | @check env answer socket roomId pipe t os hq hx hp hstep =>
    obtain ⟨rfl, -⟩ := step_settle hstep
    rw [hp] at hload
    exact h.stay rfl rfl rfl rfl rfl id (hload.run hq hx) fun he => absurd he hx
  | run hq hx hp => exact h.run hn hq hx hp
  | clear hq hx hp =>
    rw [hp] at hload
    refine h.stay rfl rfl rfl rfl rfl ?_ (hload.clear hq hx) fun he => by cases he
    rintro (hv | hv | hv | hv) <;> cases hv
  | hangUp hq hx hp =>
    rw [hp] at hload
    obtain ⟨hstage, hquit⟩ := hload.hangUp hq hx
    exact h.stay rfl rfl rfl rfl rfl (fun _ => .inr (.inl hstage)) hquit fun he => by cases he
  | deliver hc => exact h.deliver hc
  | @unindex callback _ => exact h.unindex callback
  | signal hs =>
    rw [hs] at hload
    cases hload with
    | running hissued =>
      refine h.stay rfl rfl rfl rfl rfl ?_ (.closingPublisher hissued) fun he => by cases he
      rintro (hv | hv | hv | hv) <;> cases hv
  | publisherClosed hs =>
    rw [hs] at hload
    cases hload with
    | closingPublisher hissued =>
      refine h.stay rfl rfl rfl rfl rfl ?_ ?_ fun he => by cases he
      · rintro (hv | hv | hv | hv) <;> cases hv
      · exact .clearing hissued fun c hc => absurd hc List.not_mem_nil
  | closeRooms hs => exact h.closeRooms hcoded hs
  | quit hs =>
    rw [hs] at hload
    cases hload with
    | closingRooms hr hquiet =>
      refine h.stay rfl rfl rfl rfl rfl (fun _ => .inl hs) ?_ fun he => by cases he
      exact .quitting hr hquiet
  | exit hs =>
    rw [hs] at hload
    cases hload with
    | quit hr =>
      exact h.stay rfl rfl rfl rfl rfl (fun _ => .inr (.inr (.inl hs))) (.exited hr) fun _ => hn

end Shutdown

section
variable [Runtime] {self : ShardIdentity}

theorem shutdown_clean {w : Shutdown} (hk : KeepsCodes)
    (hr : Machine.Reachable ((shutdownSystem self).restrict NothingLeft) w) : w.Clean := by
  refine hr.invariant_of (J := fun w => Coded w.server) (I := Shutdown.Clean)
    (fun w hr => server_coded hk (shutdown_process hr.of_restrict)) ?_ ?_
  · intro w hw
    obtain rfl := hw
    refine ⟨fun _ hc => absurd hc List.not_mem_nil, fun _ hr => absurd rfl hr, ?_, ?_, ?_⟩
    · exact fun _ hj => absurd hj (Finset.notMem_empty _)
    · refine .running fun c hc => ?_
      rw [List.mem_singleton.mp hc]
      rfl
    · intro he
      cases he
  · intro w i v os hcoded h hs
    obtain ⟨hn, hs⟩ := hs
    exact Shutdown.clean_step h hcoded hn (shutdown_step hs)

/-- A process that has exited after steps that leave nothing has left neither its load nor the
record or the entry of any room in Redis. -/
theorem nothing_left (self : ShardIdentity) (hk : KeepsCodes) (w : Shutdown)
    (hr : Machine.Reachable ((shutdownSystem self).restrict NothingLeft) w)
    (he : w.stage = .exited) :
    w.redis.session self.shardId = none ∧
      ∀ roomId, w.redis.room roomId = {} ∧ roomId ∉ w.redis.joinable := by
  have h := shutdown_clean hk hr
  have hself : w.server.self = self := server_self (shutdown_process hr.of_restrict)
  have hlate : ∀ c ∈ w.closing ++ w.unindexing, c.late ≠ false := by
    intro c hc
    rw [h.done he c hc]
    simp
  have hnone : ∀ roomId, ¬ w.DeletesLater roomId := by
    rintro roomId (⟨c, hc, hin, -⟩ | ⟨hl, -⟩)
    · exact hlate c (List.mem_append_left _ hc) hin
    · exact hl (.inr (.inr (.inr he)))
  refine ⟨?_, fun roomId => ⟨by_contra fun hr => hnone roomId (h.recorded roomId hr), ?_⟩⟩
  · have hload := h.load
    rw [he, hself] at hload
    cases hload with
    | exited hr => exact hr
  · intro hj
    rcases h.indexed roomId hj with hd | ⟨c, hc, hin, -⟩
    · exact hnone roomId hd
    · exact hlate c (List.mem_append_right _ hc) hin

end

def plainProcess (n : ℕ) (input : ServerInput) : ShutdownInput := .process (plainEnv n) input

def plainRedis (n : ℕ) : ShutdownInput := .redis (plainEnv n) true

/-- A room is joined and reported; the process is told to shut down and calls
`clearSessionLoad`, which Redis runs; the callbacks are sent and handled. -/
def orderlyInputs : List ShutdownInput :=
  [plainRedis 0, plainProcess 1 (.connect 0 (.ok none)),
   plainProcess 2 (.message 0 (joinFrame "AB3DE")), plainProcess 3 (.resume 0), plainRedis 4,
   plainProcess 5 (.resume 0), plainRedis 6, plainRedis 7, plainRedis 8, .signal,
   .publisherClosed, plainRedis 9, .closeRooms, .deliver ⟨utf16 "AB3DE", true, false⟩,
   .unindex ⟨utf16 "AB3DE", true, false⟩]

/-- The heartbeat of the projections ticks once more before the process quits. -/
def heartbeatInputs : List ShutdownInput :=
  orderlyInputs ++ [plainProcess 10 .heartbeat, plainRedis 11, plainRedis 12, plainRedis 13, .quit,
    plainRedis 14, .exit]

def orderlyExit : List ShutdownInput := orderlyInputs ++ [.quit, plainRedis 10, .exit]

theorem orderlyExit_nothing_left : ∃ w os,
    Machine.Run ((@shutdownSystem plainRuntime plainShard).restrict (@NothingLeft plainRuntime))
      orderlyExit w os ∧ w.server.rooms.keys = [utf16 "AB3DE"] ∧
      w.redis.session plainShard.shardId = none ∧
      ∀ roomId, w.redis.room roomId = {} ∧ roomId ∉ w.redis.joinable :=
  ⟨_, _, Machine.exec_restrict_run (by decide +kernel), by decide +kernel,
    @nothing_left plainRuntime plainShard (fun _ _ => rfl) _
      ⟨_, _, Machine.exec_restrict_run (by decide +kernel)⟩ (by decide +kernel)⟩

theorem shutdown_undone : ∃ w os,
    Machine.Run (@shutdownSystem plainRuntime plainShard) heartbeatInputs w os ∧
      w.stage = .exited ∧ w.server.rooms.keys = [utf16 "AB3DE"] ∧
      w.redis.session plainShard.shardId ≠ none ∧ w.redis.room (utf16 "AB3DE") ≠ {} ∧
      utf16 "AB3DE" ∈ w.redis.joinable :=
  ⟨_, _, Machine.exec_get_run (by decide +kernel), by decide +kernel, by decide +kernel,
    by decide +kernel, by decide +kernel, by decide +kernel⟩

end GachaMind
