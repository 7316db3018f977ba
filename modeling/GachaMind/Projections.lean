import GachaMind.GameSession.Connections
import GachaMind.Matchmaking.JoinableRooms
import GachaMind.Ownership

/-!
# What Redis knows of a process

The commands that a process has issued, run in their order, leave Redis with the present state
of every room that the process holds and with its load. A room step that changes what is
reported of its room reports it, except for a departure, which `handleClose` reports.
-/

namespace GachaMind
open GachaMind.Js GachaMind.Shared GachaMind.GameSession KeyedTable

/-! ### Running the commands -/

def commands (os : List Effect) : List Command := os.flatMap Command.ofEffect

def Redis.after (r : Redis) (cs : List Command) : Redis := cs.foldl JoinableIndex.runCommand r

@[simp] theorem commands_cons (e : Effect) (os : List Effect) :
    commands (e :: os) = Command.ofEffect e ++ commands os := rfl

@[simp] theorem commands_append (os ps : List Effect) :
    commands (os ++ ps) = commands os ++ commands ps :=
  List.flatMap_append

theorem Redis.after_append (r : Redis) (cs ds : List Command) :
    r.after (cs ++ ds) = (r.after cs).after ds :=
  List.foldl_append

theorem commands_aside {os : List Effect} (h : ∀ e ∈ os, e.Aside) : commands os = [] := by
  refine List.flatMap_eq_nil_iff.mpr fun e he => ?_
  have ha := h e he
  cases e with
  | syncOccupancy _ _ => exact ha.elim
  | checkAssigned _ _ => exact ha.elim
  | publishSessionLoad _ => exact ha.elim
  | _ => rfl

@[simp] theorem commands_send (env : Env) (room : Room) (playerId : Uuid)
    (message : ServerToClientMessage) : commands (room.send env playerId message) = [] := by
  unfold Room.send
  split
  · rfl
  · split_ifs <;> rfl

theorem commands_welcome (env : Env) (room : Room) (player : Player) :
    commands (welcome env room player) = [] := by
  rw [welcome, commands_append, commands_send]
  rfl

/-! ### What a room step reports -/

def projection (shard : ShardId) (room : Room) : RoomProjection where
  shard := shard
  capacity := room.capacity
  playerCount := room.size
  phase := room.phase

def syncCommands (shard : ShardId) (room : Room) : List Command :=
  [.recordRoom room.id (projection shard room), .indexRoom room.id room.isFull]

theorem ofEffect_syncOccupancy (env : Env) (room : Room) :
    Command.ofEffect (syncOccupancy env room) = syncCommands env.shard room := rfl

theorem commands_openEffects (env : Env) (room : Room) (drawer : Player) :
    commands (room.openEffects env drawer) = [] := by
  rw [Room.openEffects, commands_cons, commands_cons, commands_send]
  rfl

theorem commands_finishEffects (env : Env) (room : Room) (gameId : Uuid) :
    commands (room.finishEffects env gameId) = syncCommands env.shard room.finishGame := rfl

theorem projection_addStroke (shard : ShardId) (room : Room) (stroke : StrokeSegment) :
    projection shard (room.addStroke stroke) = projection shard room := by
  rw [Room.addStroke_eq]
  rfl

theorem projection_scoreGuess (shard : ShardId) (env : Env) (room : Room) (solver d : Uuid) :
    projection shard (room.scoreGuess env solver d) = projection shard room := by
  simp only [projection, Room.size_scoreGuess]
  rfl

theorem projection_closeRound (shard : ShardId) (room : Room) :
    projection shard room.closeRound = projection shard room := rfl

/-- A room step issues no command, and then it reports nothing new unless somebody left, or it
reports the state it leads to. -/
theorem transition_commands {env : Env} {room t : Room} {input : RoomInput} {os : List Effect}
    (h : Transition env room input t os) :
    commands os = [] ∧ ((∀ id, input ≠ .leave id) →
        projection env.shard t = projection env.shard room) ∨
      commands os = syncCommands env.shard t := by
  cases h with
  | aside _ ho => exact .inl ⟨commands_aside ho, fun _ => rfl⟩
  | draw sanitized _ _ => exact .inl ⟨rfl, fun _ => projection_addStroke _ _ _⟩
  | drawClear _ _ => exact .inl ⟨rfl, fun _ => rfl⟩
  | join _ =>
    right
    rw [commands_cons, commands_welcome, List.append_nil]
    rfl
  | @start drawer _ _ _ _ =>
    right
    rw [commands_cons, commands_cons, commands_openEffects, List.append_nil]
    rfl
  | guess _ _ _ _ _ => exact .inl ⟨rfl, fun _ => projection_scoreGuess _ _ _ _ _⟩
  | @lastGuess solver _ d _ _ _ _ _ _ =>
    refine .inl ⟨rfl, fun _ => ?_⟩
    rw [projection_closeRound, projection_scoreGuess]
  | timeUp _ _ => exact .inl ⟨rfl, fun _ => rfl⟩
  | nextRound _ _ _ _ => exact .inl ⟨commands_openEffects _ _ _, fun _ => rfl⟩
  | gameOver _ _ _ _ => exact .inr (commands_finishEffects _ _ _)
  | leave _ => exact .inl ⟨rfl, fun hl => absurd rfl (hl _)⟩
  | leaveGame _ _ _ ho =>
    right
    rw [commands_append, commands_append, commands_aside ho, commands_finishEffects]
    rfl
  | leaveRound _ _ ho =>
    left
    rw [commands_append, commands_append, commands_aside ho]
    exact ⟨rfl, fun hl => absurd rfl (hl _)⟩
  | leaveSolved _ _ _ => exact .inl ⟨rfl, fun hl => absurd rfl (hl _)⟩

/-! ### A copy that is up to date -/

structure RoomShown (shard : ShardId) (room : Room) (r : Redis) : Prop where
  hash : r.room room.id = hashOf (projection shard room)
  joinable : room.id ∈ r.joinable ↔ room.isFull = false

def Shown (shard : ShardId) (rooms : Table Room.id) (r : Redis) : Prop :=
  ∀ room ∈ rooms.rows, RoomShown shard room r

structure Mirrored (s : Server) (r : Redis) : Prop where
  rooms : Shown s.self.shardId s.rooms r
  load : r.session s.self.shardId = some s.sessionLoad

section
variable {shard : ShardId} {room t : Room} {rooms : Table Room.id} {r : Redis}

theorem roomShown_sync (shard : ShardId) (room : Room) (r : Redis) :
    RoomShown shard room (r.after (syncCommands shard room)) where
  hash := by
    show ((r.recordRoom room.id (projection shard room)).indexRoom room.id room.isFull).room
      room.id = _
    rw [Redis.indexRoom, Redis.recordRoom, Redis.room_setRoom, if_pos rfl]
  joinable := by
    show room.id ∈ ((r.recordRoom room.id (projection shard room)).indexRoom room.id
      room.isFull).joinable ↔ _
    cases hf : room.isFull <;> simp [Redis.indexRoom]

theorem RoomShown.sync (h : RoomShown shard room r) (hne : room.id ≠ t.id) :
    RoomShown shard room (r.after (syncCommands shard t)) where
  hash := by
    show ((r.recordRoom t.id (projection shard t)).indexRoom t.id t.isFull).room room.id = _
    rw [Redis.indexRoom, Redis.recordRoom, Redis.room_setRoom, if_neg hne]
    exact h.hash
  joinable := by
    show room.id ∈ ((r.recordRoom t.id (projection shard t)).indexRoom t.id t.isFull).joinable ↔ _
    rw [← h.joinable]
    cases hf : t.isFull
    · simp [Redis.indexRoom, hne, Redis.recordRoom, Redis.setRoom]
    · simp [Redis.indexRoom, hne, Redis.recordRoom, Redis.setRoom]

theorem RoomShown.congr (h : RoomShown shard room r) (hid : t.id = room.id)
    (hp : projection shard t = projection shard room) : RoomShown shard t r := by
  have hfull : t.isFull = room.isFull := by
    simp only [projection, RoomProjection.mk.injEq] at hp
    rw [Room.isFull, Room.isFull, hp.2.1, hp.2.2.1]
  refine ⟨?_, ?_⟩
  · rw [hid, hp]
    exact h.hash
  · rw [hid, hfull]
    exact h.joinable

theorem Shown.sync (h : Shown shard rooms r) (t : Room) :
    Shown shard (rooms.set t) (r.after (syncCommands shard t)) := by
  intro room hroom
  rcases mem_rows_set.mp hroom with rfl | ⟨hroom, hne⟩
  · exact roomShown_sync shard room r
  · exact (h room hroom).sync hne

theorem Shown.replace (h : Shown shard rooms r) (hroom : rooms.get? room.id = some room)
    (hid : t.id = room.id) (hp : projection shard t = projection shard room) :
    Shown shard (rooms.set t) r := by
  intro u hu
  rcases mem_rows_set.mp hu with rfl | ⟨hu, -⟩
  · exact (h room (get?_eq_some.mp hroom).1).congr hid hp
  · exact h u hu

theorem Shown.sync_held (h : Shown shard rooms r) (hroom : room ∈ rooms.rows) :
    Shown shard rooms (r.after (syncCommands shard room)) := by
  have hset := h.sync room
  rwa [set_self (get?_of_mem hroom)] at hset

theorem Shown.erase (h : Shown shard rooms r) (id : RoomId) : Shown shard (rooms.erase id) r :=
  fun room hroom => h room (List.mem_of_mem_filter hroom)

/-- The commands of a room that leaves the process do not touch the others. -/
theorem Shown.erase_sync (h : Shown shard rooms r) (t : Room) :
    Shown shard (rooms.erase t.id) (r.after (syncCommands shard t)) := by
  intro room hroom
  obtain ⟨hroom, hne⟩ := List.mem_filter.mp hroom
  exact (h room hroom).sync (by simpa using hne)

end

section
variable {s t : Server} {r : Redis}

theorem Mirrored.congr (h : Mirrored s r) (hself : t.self = s.self) (hrooms : t.rooms = s.rooms) :
    Mirrored t r := by
  refine ⟨?_, ?_⟩
  · rw [hself, hrooms]
    exact h.rooms
  · have hload : t.sessionLoad = s.sessionLoad := by
      simp only [Server.sessionLoad, Server.roomCount, Server.totalConnections, hself, hrooms]
    rw [hself, hload]
    exact h.load

/-- The report of the load brings a copy of the rooms up to date. -/
theorem Shown.report (h : Shown s.self.shardId s.rooms r) :
    Mirrored s (r.after (commands s.report)) where
  rooms room hroom := ⟨(h room hroom).hash, (h room hroom).joinable⟩
  load := by
    show Function.update r.session s.sessionLoad.shard (some s.sessionLoad) s.self.shardId = _
    exact Function.update_self ..

theorem session_sync (shard : ShardId) (room : Room) :
    (r.after (syncCommands shard room)).session = r.session := rfl

theorem sessionLoad_setRoom {room u : Room} (hroom : s.rooms.get? room.id = some room)
    (hid : u.id = room.id) (hsize : u.size = room.size) :
    (s.setRoom u).sessionLoad = s.sessionLoad := by
  have hmem := (get?_eq_some.mp hroom).1
  have hkeys : (s.rooms.set u).keys = s.rooms.keys := map_rows_set Room.id hmem hid hid
  have hcount : (s.rooms.set u).size = s.rooms.size := by
    rw [← length_keys, ← length_keys, hkeys]
  have hsizes : (s.rooms.set u).rows.map Room.size = s.rooms.rows.map Room.size :=
    map_rows_set Room.size hmem hid hsize
  simp only [Server.sessionLoad, Server.roomCount, Server.totalConnections, Server.setRoom, hcount,
    hsizes]

end

/-! ### Every handler keeps the copy up to date -/

section
variable {s t : Server} {env : Env} {os : List Effect} {r : Redis}

theorem enter_mirrored {v : Server} {call : JoinCall} {identity : Option Identity}
    {roomId : RoomId} {room : Room} (h : Mirrored s r) (hself : v.self = s.self)
    (hset : ∀ u : Room, u.id = room.id → v.rooms.set u = s.rooms.set u)
    (hfull : room.isFull = true → v.rooms = s.rooms)
    (hs : v.enter (s.see env) call identity roomId room = .ok (t, os)) :
    Mirrored t (r.after (commands os)) := by
  unfold Server.enter at hs
  split_ifs at hs with hf
  · cases hs
    exact h.congr hself (hfull hf)
  · obtain ⟨nickname, -, hs⟩ := bind_eq_ok.mp hs
    cases hs
    rw [commands_append, commands_welcome, List.append_nil, commands_cons, ofEffect_syncOccupancy,
      Redis.after_append]
    refine Shown.report ?_
    have hshown := h.rooms.sync (seatPlayer room
      (joiningPlayer (s.see env) call.socket identity nickname))
    rw [← hset _ (seatPlayer_id _ _), ← hself] at hshown
    rw [show (s.see env).shard = v.self.shardId by rw [hself]; rfl]
    exact hshown

theorem afterAssignment_mirrored {call : JoinCall} {identity : Option Identity}
    {roomId : RoomId} {answer : Bool} (h : Mirrored s r)
    (hs : s.afterAssignment env call identity roomId answer = .ok (t, os)) :
    Mirrored t (r.after (commands os)) := by
  unfold Server.afterAssignment at hs
  split_ifs at hs with hanswer hopen
  · cases hs
    exact h.congr rfl rfl
  · cases hs
    exact h.congr rfl rfl
  · unfold Server.getOrCreate at hs
    split at hs
    · exact enter_mirrored h rfl (fun _ _ => rfl) (fun _ => rfl) hs
    · dsimp only at hs
      refine enter_mirrored (v := s.setRoom (newRoom roomId DEFAULT_ROOM_CAPACITY)) h rfl
        (fun u hu => ?_) (fun hf => ?_) hs
      · exact set_set hu.symm
      · simp [newRoom, Room.isFull, Room.size, DEFAULT_ROOM_CAPACITY] at hf

theorem close_mirrored {c : Connection} (h : Mirrored s r)
    (hrun : ∀ room ∈ s.rooms.rows, room.Coherent) (hs : s.close env c = (t, os)) :
    Mirrored t (r.after (commands os)) := by
  have hclosed : Mirrored (s.markClosed c.socket) r := h.congr rfl rfl
  unfold Server.close Server.handleClose at hs
  split at hs
  · split_ifs at hs with hnil
    · cases hs
      exact hclosed
    · rename_i roomId playerId _ _
      cases hroom : (s.markClosed c.socket).rooms.get? roomId with
      | none =>
        rw [hroom] at hs
        cases hs
        exact hclosed
      | some room =>
        obtain rfl : room.id = roomId := (get?_eq_some.mp hroom).2
        rw [hroom] at hs
        cases hl : leaveRoom ((s.markClosed c.socket).see env) room playerId with
        | mk left ls =>
          have hstep := leaveRoom_cases (hrun room (get?_eq_some.mp hroom).1) hl
          have hid := (gameStep_room hstep.gameStep).1
          dsimp only at hs
          rw [hl] at hs
          unfold Server.removeIfEmpty at hs
          dsimp only at hs
          split_ifs at hs with hsize
          · cases hs
            rw [commands_append, commands_cons]
            show Mirrored _ (r.after (commands ls ++ commands _))
            rw [Redis.after_append]
            refine Shown.report ?_
            show Shown s.self.shardId (s.rooms.erase left.id) (r.after (commands ls))
            rcases transition_commands hstep with ⟨hnone, -⟩ | hsync
            · rw [hnone]
              exact h.rooms.erase _
            · rw [hsync]
              exact h.rooms.erase_sync left
          · cases hs
            rw [commands_append, commands_cons, Redis.after_append, Redis.after_append]
            refine Shown.report ?_
            show Shown s.self.shardId (s.rooms.set left)
              ((r.after (commands ls)).after (syncCommands s.self.shardId left))
            rcases transition_commands hstep with ⟨hnone, -⟩ | hsync
            · rw [hnone]
              exact h.rooms.sync left
            · rw [hsync]
              have hset := (h.rooms.sync left).sync left
              rwa [set_set rfl] at hset
  · cases hs
    exact hclosed

theorem heartbeat_mirrored (h : Mirrored s r) (env : Env) :
    Mirrored s (r.after (commands (s.heartbeat env))) := by
  have hrooms : ∀ (rows : List Room) (q : Redis), (∀ room ∈ rows, room ∈ s.rooms.rows) →
      Shown s.self.shardId s.rooms q →
      Shown s.self.shardId s.rooms (q.after (commands (rows.map (syncOccupancy (s.see env))))) := by
    intro rows
    induction rows with
    | nil => exact fun q _ hq => hq
    | cons room rows ih =>
      intro q hrows hq
      rw [List.map_cons, commands_cons, Redis.after_append]
      refine ih _ (fun u hu => hrows u (List.mem_cons_of_mem _ hu)) ?_
      exact hq.sync_held (hrows room List.mem_cons_self)
  rw [Server.heartbeat, commands_append, Redis.after_append]
  exact Shown.report (hrooms s.rooms.rows r (fun _ hroom => hroom) h.rooms)

variable [Runtime]

theorem play_mirrored {room u : Room} {inside : RoomInput} (h : Mirrored s r)
    (hc : room.Coherent) (hroom : s.rooms.get? room.id = some room) (hi : inside.Inside)
    (hs : roomStep (s.see env) room inside = some (u, os)) :
    Mirrored (s.setRoom u) (r.after (commands os)) := by
  have hstep := roomStep_transition hc hs
  have hid := (gameStep_room hstep.gameStep).1
  have hsize : u.size = room.size := by
    rw [← Room.length_seats, gameStep_seats hstep.gameStep hi, Room.length_seats]
  have hload := sessionLoad_setRoom hroom hid hsize
  rcases transition_commands hstep with ⟨hnone, hsame⟩ | hsync
  · rw [hnone]
    have hstay : ∀ id, inside ≠ .leave id := by
      rintro id rfl
      exact hi
    exact ⟨h.rooms.replace hroom hid (hsame hstay), h.load.trans (congrArg some hload.symm)⟩
  · rw [hsync]
    refine ⟨h.rooms.sync u, ?_⟩
    rw [session_sync, hload]
    exact h.load

theorem afterIdentity_mirrored {call : JoinCall} (h : Mirrored s r)
    (hs : s.afterIdentity env call = .ok (t, os)) : Mirrored t (r.after (commands os)) := by
  obtain ⟨identity, -, hs⟩ := bind_eq_ok.mp hs
  split_ifs at hs with hopen
  · cases hs
    exact h.congr rfl rfl
  · obtain ⟨text, -, hs⟩ := bind_eq_ok.mp hs
    dsimp only at hs
    split at hs
    · exact enter_mirrored h rfl (fun _ _ => rfl) (fun _ => rfl) hs
    · cases hs
      exact h.congr rfl rfl

theorem resume_mirrored {socket : SocketId} (h : Mirrored s r)
    (hs : s.resume env socket = some (t, os)) : Mirrored t (r.after (commands os)) := by
  obtain ⟨w, -, hs⟩ := Option.bind_eq_some_iff.mp hs
  obtain ⟨x, hx, hs⟩ := Option.bind_eq_some_iff.mp hs
  have hok := toOption_eq_some hs
  have hwithout : Mirrored (s.without socket) r := h.congr rfl rfl
  cases w with
  | identity call =>
    obtain rfl := Option.some.inj hx
    exact afterIdentity_mirrored hwithout hok
  | assignment call identity roomId answer =>
    cases answer with
    | none => cases hx
    | some answer =>
      obtain rfl := Option.some.inj hx
      exact afterAssignment_mirrored hwithout hok

theorem message_mirrored {c : Connection} {raw : Option Json} (h : Mirrored s r)
    (hrun : ∀ room ∈ s.rooms.rows, room.Coherent)
    (hs : s.handleMessage env c raw = .ok (t, os)) : Mirrored t (r.after (commands os)) := by
  cases raw with
  | none =>
    cases hs
    exact h
  | some message =>
    obtain ⟨type, -, hs⟩ := bind_eq_ok.mp hs
    split_ifs at hs with hjoin
    · cases hs
      unfold Server.startJoin
      split_ifs
      · exact h
      · exact h.congr rfl rfl
    · rcases handleMember_eq s env c message with ⟨room, id, hm, he⟩ | ⟨-, he⟩
      · obtain ⟨x, hx, hok⟩ := bind_eq_ok.mp (he.symm.trans hs)
        cases hok
        rcases memberMessage_cases hx with ⟨hsame, hos⟩ | ⟨inside, hi, hstep⟩
        · rw [hsame, hos, Server.setRoom, set_self hm.held]
          exact h
        · exact play_mirrored h (hrun room (get?_eq_some.mp hm.held).1) hm.held hi hstep
      · cases he.symm.trans hs
        exact h

theorem handle_mirrored {input : ServerInput} (h : Mirrored s r)
    (hrun : ∀ room ∈ s.rooms.rows, room.Coherent) (hs : s.handle env input = some (t, os)) :
    Mirrored t (r.after (commands os)) := by
  cases input with
  | connect socket identity =>
    obtain ⟨u, hu, he⟩ := Option.map_eq_some_iff.mp hs
    unfold Server.connect at hu
    split_ifs at hu
    cases hu
    cases he
    exact h.congr rfl rfl
  | message socket raw =>
    obtain ⟨c, -, hm⟩ := Option.bind_eq_some_iff.mp hs
    exact message_mirrored h hrun (toOption_eq_some hm)
  | resume socket => exact resume_mirrored h hs
  | settle socket roomId answer =>
    cases hs
    exact h.congr rfl rfl
  | leaveOpen socket =>
    cases hs
    exact h.congr rfl rfl
  | close socket =>
    obtain ⟨c, -, hm⟩ := Option.map_eq_some_iff.mp hs
    exact close_mirrored h hrun hm
  | timer roomId id =>
    obtain ⟨room, hroom, hm⟩ := Option.bind_eq_some_iff.mp hs
    obtain ⟨x, hx, he⟩ := Option.map_eq_some_iff.mp hm
    cases he
    obtain rfl := (get?_eq_some.mp hroom).2
    have hinside : (RoomInput.timer id).Inside := trivial
    exact play_mirrored h (hrun room (get?_eq_some.mp hroom).1) hroom hinside hx
  | heartbeat =>
    cases hs
    exact heartbeat_mirrored h env

end

/-! ### Runs -/

/-- Nobody records a room under the empty code, so that its check fails. -/
def EmptyCodeUnassigned (_ : Server) (i : Env × ServerInput) : Prop :=
  match i.2 with
  | .settle _ roomId answer => roomId = [] → answer = false
  | _ => True

instance (s : Server) (i : Env × ServerInput) : Decidable (EmptyCodeUnassigned s i) := by
  unfold EmptyCodeUnassigned
  split <;> infer_instance

section
variable [Runtime] {self : ShardIdentity}

theorem emptyCode_unclaimed {s : Server}
    (hr : Machine.Reachable ((serverSystem self).restrict EmptyCodeUnassigned) s) :
    ¬ Server.Claims s [] := by
  refine hr.invariant_of (J := fun s => ∀ room ∈ s.rooms.rows, RoomRun s.issued room)
    (I := fun s => ¬ Server.Claims s []) (fun s hr => server_room_reachable hr.of_restrict) ?_ ?_
  · intro s h hc
    obtain rfl := h
    rcases hc with hk | ⟨w, hw, -⟩
    · exact List.not_mem_nil hk
    · exact List.not_mem_nil hw
  · intro s i t os hrun h hs hc
    obtain ⟨hcheck, hs⟩ := hs
    obtain ⟨env, input⟩ := i
    cases input with
    | settle socket roomId answer =>
      obtain ⟨rfl, -⟩ := step_settle hs
      have hsettled : Server.Claims (s.settle socket roomId answer) [] := hc
      rcases settle_claims hsettled with hc | ⟨hyes, hcode⟩
      · exact h hc
      · exact absurd (hyes.symm.trans (hcheck hcode.symm)) (by simp)
    | _ =>
      obtain ⟨-, u, hstep, rfl⟩ := server_step hs
      exact h (serverStep_claims hrun rfl hstep hc)

theorem emptyCode_refused {is : List (Env × ServerInput)} {s : Server} {os : List Effect}
    (hr : Machine.Run ((serverSystem self).restrict EmptyCodeUnassigned) is s os) :
    Machine.Run ((serverSystem self).restrict EmptyCodeRefused) is s os := by
  refine hr.restrict_mono fun u i hu _ => ?_
  intro hadmits
  unfold AdmitsEmptyCode at hadmits
  split at hadmits
  · obtain ⟨-, w, hw, -, hg⟩ := hadmits
    exact emptyCode_unclaimed hu (.inr ⟨w, hw, hg⟩)
  · exact hadmits

/-- What the commands of a run, the report at its start included, make of Redis. -/
def redisAfter (self : ShardIdentity) (os : List Effect) : Redis :=
  Redis.empty.after (commands (.publishSessionLoad (newServer self).sessionLoad :: os))

theorem server_mirrored {is : List (Env × ServerInput)} {s : Server} {os : List Effect}
    (hr : Machine.Run (serverSystem self) is s os) : Mirrored s (redisAfter self os) := by
  induction hr with
  | nil h =>
    obtain rfl := h
    refine ⟨fun room hroom => absurd hroom List.not_mem_nil, ?_⟩
    exact Function.update_self ..
  | @snoc is s t os ps i hr hs ih =>
    simp only [serverSystem, Machine.ofFunction, Server.step] at hs
    split_ifs at hs with hu
    obtain ⟨x, hx, he⟩ := Option.map_eq_some_iff.mp hs
    cases he
    have hstep := handle_mirrored ih (server_room_coherent ⟨_, _, hr⟩) hx
    rw [redisAfter, ← List.cons_append, commands_append, Redis.after_append]
    exact hstep.congr rfl rfl

theorem server_self {s : Server} (hr : Machine.Reachable (serverSystem self) s) :
    s.self = self := by
  refine hr.invariant (I := fun s => s.self = self) ?_ ?_
  · intro s h
    obtain rfl := h
    rfl
  · intro s i t os h hs
    obtain ⟨-, u, hstep, rfl⟩ := server_step hs
    exact (serverStep_self hstep).trans h

/-- After every event of a process, the commands it has issued give Redis the present state of
every room it holds, its index and the present load. -/
theorem projections_current (self : ShardIdentity) (is : List (Env × ServerInput)) (s : Server)
    (os : List Effect) (hr : Machine.Run (serverSystem self) is s os) :
    (∀ room ∈ s.rooms.rows,
      (redisAfter self os).room room.id =
        hashOf ⟨self.shardId, room.capacity, room.size, room.phase⟩ ∧
      (room.id ∈ (redisAfter self os).joinable ↔ room.isFull = false)) ∧
    (redisAfter self os).session self.shardId =
      some ⟨self.shardId, self.host, self.port, s.rooms.size, s.totalConnections⟩ ∧
    (Machine.Run ((serverSystem self).restrict EmptyCodeUnassigned) is s os →
      s.totalConnections = s.joined.length) := by
  have hmirrored := server_mirrored hr
  obtain rfl := server_self ⟨_, _, hr⟩
  refine ⟨fun room hroom => ?_, hmirrored.load, fun hchecked => ?_⟩
  · exact ⟨(hmirrored.rooms room hroom).hash, (hmirrored.rooms room hroom).joinable⟩
  · exact (server_tidy s.self s ⟨is, os, emptyCode_refused hchecked⟩).total

end

theorem gameOfTwo_projected : ∃ is s os,
    Machine.Run (@serverSystem plainRuntime plainShard) is s os ∧ s.rooms.size = 1 ∧
      (∀ room ∈ s.rooms.rows, (redisAfter plainShard os).room room.id =
        hashOf ⟨plainShard.shardId, room.capacity, room.size, room.phase⟩ ∧
        (room.id ∈ (redisAfter plainShard os).joinable ↔ room.isFull = false)) ∧
      s.totalConnections = s.joined.length :=
  have h := @projections_current plainRuntime plainShard
    (numbered (gameOfTwo none none (joinFrame "AB3DE"))) _ _
    (Machine.exec_get_run (by decide +kernel))
  ⟨_, _, _, Machine.exec_get_run (by decide +kernel), by decide +kernel, h.1,
    h.2.2 (Machine.exec_restrict_run (by decide +kernel))⟩

end GachaMind
