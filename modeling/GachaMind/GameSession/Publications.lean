import GachaMind.GameSession.Results
import GachaMind.GameSession.ServerRooms

/-!
# The events of a process

Every event that a process publishes comes from a step of one of its rooms, which is the last
step of that game. No two events of a process are of the same game, also when they come from
different rooms.
-/

namespace GachaMind.GameSession
open GachaMind.Js GachaMind.Shared KeyedTable

/-! ### Steps of rooms -/

/-- What an event does to the rooms, and what is published: a step of one room, or nothing. -/
inductive RoomsStep [Runtime] (s : Server) (env : Env) (input : ServerInput) :
    Table Room.id → List GameFinishedEvent → Prop
  | still : RoomsStep s env input s.rooms []
  | room {u : Server} {room t : Room} {inside : RoomInput} {ls : List Effect}
      (hroom : s.rooms.get? room.id = some room ∨
        s.rooms.get? room.id = none ∧ room = newRoom room.id DEFAULT_ROOM_CAPACITY)
      (hs : roomStep (u.see env) room inside = some (t, ls))
      (htimer : publishedEvents ls ≠ [] → ∀ n, inside = .timer n → input = .timer room.id n) :
      RoomsStep s env input (s.rooms.set t) (publishedEvents ls)
  | last {u : Server} {room t : Room} {id : Uuid} {ls : List Effect}
      (hroom : s.rooms.get? room.id = some room)
      (hs : roomStep (u.see env) room (.leave id) = some (t, ls)) :
      RoomsStep s env input (s.rooms.erase room.id) (publishedEvents ls)

theorem publishedEvents_nil_of_marks {os : List Effect} (h : marks os = []) :
    publishedEvents os = [] := by
  rw [publishedEvents_eq, h]
  rfl

theorem marks_report (s : Server) : marks s.report = [] := rfl

theorem publishedEvents_departure {e : Effect} {u : Server} (he : marks [e] = []) :
    publishedEvents (e :: u.report) = [] := by
  refine publishedEvents_nil_of_marks ?_
  rw [← List.singleton_append, marks_append, he, marks_report]
  rfl

section
variable {s t : Server} {env : Env} {os : List Effect}

theorem enter_published {u : Server} {call : JoinCall} {identity : Option Identity}
    {roomId : RoomId} {room : Room} (h : u.enter env call identity roomId room = .ok (t, os)) :
    publishedEvents os = [] := by
  unfold Server.enter at h
  split_ifs at h with hf
  · cases h
    rfl
  · obtain ⟨nickname, -, h⟩ := bind_eq_ok.mp h
    cases h
    refine publishedEvents_nil_of_marks ?_
    simp [marks_report]

theorem afterIdentity_published [Runtime] {call : JoinCall}
    (h : s.afterIdentity env call = .ok (t, os)) : publishedEvents os = [] := by
  obtain ⟨identity, -, h⟩ := bind_eq_ok.mp h
  split_ifs at h with hopen
  · cases h
    rfl
  · obtain ⟨text, -, h⟩ := bind_eq_ok.mp h
    dsimp only at h
    split at h
    · exact enter_published h
    · cases h
      rfl

theorem afterAssignment_published {call : JoinCall} {identity : Option Identity}
    {roomId : RoomId} {answer : Bool}
    (h : s.afterAssignment env call identity roomId answer = .ok (t, os)) :
    publishedEvents os = [] := by
  unfold Server.afterAssignment at h
  split_ifs at h with hanswer hopen
  · cases h
    rfl
  · cases h
    rfl
  · exact enter_published h

theorem gameStep_quiet {room u : Room} {inside : RoomInput} {ms : List GameMark}
    (hs : GameStep env room inside u ms) (hl : ∀ id, inside ≠ .leave id)
    (ht : ∀ n, inside ≠ .timer n) : ms.filterMap GameMark.event? = [] := by
  cases hs with
  | gameOver _ _ _ => exact absurd rfl (ht _)
  | leaveGame _ _ _ => exact absurd rfl (hl _)
  | _ => rfl

variable [Runtime]

theorem resume_published {socket : SocketId} (h : s.resume env socket = some (t, os)) :
    publishedEvents os = [] := by
  obtain ⟨w, -, h⟩ := Option.bind_eq_some_iff.mp h
  obtain ⟨x, hx, h⟩ := Option.bind_eq_some_iff.mp h
  have hok := toOption_eq_some h
  cases w with
  | identity call =>
    obtain rfl := Option.some.inj hx
    exact afterIdentity_published hok
  | assignment call identity roomId answer =>
    cases answer with
    | none => cases hx
    | some answer =>
      obtain rfl := Option.some.inj hx
      exact afterAssignment_published hok

theorem join_published {room u : Room} {socket : SocketId} {identity : Option Identity}
    {nickname : JsString} {ls : List Effect}
    (hs : roomStep env room (.join socket identity nickname) = some (u, ls)) :
    publishedEvents ls = [] := by
  simp only [roomStep, joinRoom] at hs
  split_ifs at hs with hfull
  · cases hs
    rfl
  · cases hs
    exact publishedEvents_nil_of_marks (by simp)

theorem resume_rooms {socket : SocketId} (h : s.resume env socket = some (t, os)) :
    RoomsStep s env (.resume socket) t.rooms (publishedEvents os) := by
  rw [resume_published h]
  cases resume_cases h with
  | still _ => exact .still
  | play hroom _ hs =>
    have hquiet := resume_published h
    rw [← hquiet]
    exact .room (.inl hroom) hs fun hne => absurd hquiet hne
  | abandon _ => exact .still
  | refuse _ _ => exact .still
  | ask _ _ => exact .still
  | @seat w identity nickname room u hw _ hoffer hfull ht _ hos =>
    obtain ⟨ls, hs⟩ := roomStep_join (s.see env) w.call.socket identity nickname hfull
    rw [← ht] at hs
    have hquiet := join_published hs
    rw [← hquiet]
    exact .room (hoffer.imp_right fun h => ⟨h.1, h.2.1⟩) hs fun hne => absurd hquiet hne

theorem message_quiet {room u : Room} {inside : RoomInput} (hc : room.Coherent)
    (hs : roomStep env room inside = some (u, os)) (hl : ∀ id, inside ≠ .leave id)
    (ht : ∀ n, inside ≠ .timer n) : publishedEvents os = [] := by
  rw [publishedEvents_eq]
  exact gameStep_quiet (roomStep_cases hc hs) hl ht

theorem memberMessage_rooms {room u : Room} {playerId : Uuid} {message : Json}
    (hc : room.Coherent) (h : Server.memberMessage env room playerId message = .ok (u, os)) :
    publishedEvents os = [] ∧
      (u = room ∨ ∃ inside, roomStep env room inside = some (u, os)) := by
  have hquiet : ∀ inside, roomStep env room inside = some (u, os) →
      (∀ id, inside ≠ .leave id) → (∀ n, inside ≠ .timer n) →
      publishedEvents os = [] ∧ (u = room ∨ ∃ inside, roomStep env room inside = some (u, os)) :=
    fun inside hs hl ht => ⟨message_quiet hc hs hl ht, .inr ⟨inside, hs⟩⟩
  unfold Server.memberMessage at h
  dsimp only at h
  split_ifs at h
  · exact hquiet (.chat playerId (message.field (utf16 "text")))
      (by simp [roomStep, h, Except.toOption]) (fun _ he => by cases he) fun _ he => by cases he
  · exact hquiet (.draw playerId (message.field (utf16 "stroke")))
      (by simp [roomStep, h, Except.toOption]) (fun _ he => by cases he) fun _ he => by cases he
  · exact hquiet (.drawClear playerId) (by rw [roomStep, Except.ok.inj h])
      (fun _ he => by cases he) fun _ he => by cases he
  · exact hquiet .startGame (by rw [roomStep, Except.ok.inj h])
      (fun _ he => by cases he) fun _ he => by cases he
  · cases h
    exact ⟨rfl, .inl rfl⟩

theorem message_rooms {c : Connection} {raw : Option Json}
    (hrun : ∀ room ∈ s.rooms.rows, room.Coherent)
    (h : s.handleMessage env c raw = .ok (t, os)) :
    RoomsStep s env (.message c.socket raw) t.rooms (publishedEvents os) := by
  cases raw with
  | none =>
    cases h
    exact .still
  | some message =>
    obtain ⟨type, -, h⟩ := bind_eq_ok.mp h
    split_ifs at h with hjoin
    · cases h
      unfold Server.startJoin
      split_ifs <;> exact .still
    · rcases handleMember_eq s env c message with ⟨room, id, hm, he⟩ | ⟨-, he⟩
      · obtain ⟨r, hr, hok⟩ := bind_eq_ok.mp (he.symm.trans h)
        cases hok
        have hcoherent := hrun room (get?_eq_some.mp hm.held).1
        obtain ⟨hquiet, hsame | ⟨inside, hs⟩⟩ := memberMessage_rooms hcoherent hr
        · rw [hquiet, hsame, Server.setRoom, set_self hm.held]
          exact .still
        · exact .room (.inl hm.held) hs fun hne => absurd hquiet hne
      · cases he.symm.trans h
        exact .still

theorem close_rooms {c : Connection} (h : s.close env c = (t, os)) :
    RoomsStep s env (.close c.socket) t.rooms (publishedEvents os) := by
  unfold Server.close Server.handleClose at h
  split at h
  · rename_i roomId playerId hr hp
    split_ifs at h with hnil
    · cases h
      exact .still
    · cases hroom : (s.markClosed c.socket).rooms.get? roomId with
      | none =>
        rw [hroom] at h
        cases h
        exact .still
      | some room =>
        obtain rfl : room.id = roomId := (get?_eq_some.mp hroom).2
        rw [hroom] at h
        cases hl : leaveRoom ((s.markClosed c.socket).see env) room playerId with
        | mk left ls =>
          have hs : roomStep ((s.markClosed c.socket).see env) room (.leave playerId) =
              some (left, ls) := congrArg some hl
          have hid : left.id = room.id := by
            have := leaveRoom_id ((s.markClosed c.socket).see env) room playerId
            rwa [hl] at this
          dsimp only at h
          rw [hl] at h
          unfold Server.removeIfEmpty at h
          dsimp only at h
          split_ifs at h with hsize
          · cases h
            rw [publishedEvents_append, publishedEvents_departure rfl, List.append_nil, hid]
            exact .last hroom hs
          · cases h
            rw [publishedEvents_append, publishedEvents_departure rfl, List.append_nil]
            exact .room (.inl hroom) hs fun _ n hn => by cases hn
  · cases h
    exact .still

theorem handle_rooms {input : ServerInput} (hrun : ∀ room ∈ s.rooms.rows, room.Coherent)
    (h : s.handle env input = some (t, os)) :
    RoomsStep s env input t.rooms (publishedEvents os) := by
  cases input with
  | connect socket identity =>
    obtain ⟨u, hu, he⟩ := Option.map_eq_some_iff.mp h
    unfold Server.connect at hu
    split_ifs at hu with hs
    cases hu
    cases he
    exact .still
  | message socket raw =>
    obtain ⟨c, hc, hm⟩ := Option.bind_eq_some_iff.mp h
    obtain rfl := live_socket hc
    exact message_rooms hrun (toOption_eq_some hm)
  | resume socket => exact resume_rooms h
  | settle socket roomId answer =>
    cases h
    exact .still
  | leaveOpen socket =>
    cases h
    exact .still
  | close socket =>
    obtain ⟨c, hc, hm⟩ := Option.map_eq_some_iff.mp h
    obtain rfl := live_socket hc
    exact close_rooms hm
  | timer roomId id =>
    obtain ⟨room, hroom, hm⟩ := Option.bind_eq_some_iff.mp h
    obtain ⟨r, hr, he⟩ := Option.map_eq_some_iff.mp hm
    cases he
    obtain rfl := (get?_eq_some.mp hroom).2
    have hs : roomStep (s.see env) room (.timer id) = some (r.1, r.2) := hr
    exact .room (.inl hroom) hs fun _ n hn => by rw [RoomInput.timer.inj hn]
  | heartbeat =>
    cases h
    have hmarks : marks (s.heartbeat env) = [] := by
      refine List.flatMap_eq_nil_iff.mpr fun e he => ?_
      rcases List.mem_append.mp he with he | he
      · obtain ⟨room, -, rfl⟩ := List.mem_map.mp he
        rfl
      · exact List.flatMap_eq_nil_iff.mp (marks_report s) e he
    rw [publishedEvents_nil_of_marks hmarks]
    exact .still

end

/-! ### Games of different rooms -/

theorem ResultStep.playing {env : Env} {room t : Room} {ms : List GameMark}
    (h : ResultStep env room t ms) (hne : ms.filterMap GameMark.event? ≠ []) :
    room.phase = .playing := by
  cases h with
  | start total hp ht hr hg => exact absurd rfl hne
  | nextRound k hp ht hr hg => exact hp
  | finish event hp ht hg hg' hr he hs => exact hp
  | other hp hr hg hm => exact absurd (filterMap_event_of_unlogged t hm) hne

theorem ResultStep.size_pos {env : Env} {room t : Room} {ms : List GameMark}
    (h : ResultStep env room t ms) (hne : ms.filterMap GameMark.event? ≠ []) : 0 < t.size := by
  cases h with
  | start total hp ht hr hg => exact absurd rfl hne
  | nextRound k hp ht hr hg => exact absurd rfl hne
  | finish event hp ht hg hg' hr he hs => exact hs
  | other hp hr hg hm => exact absurd (filterMap_event_of_unlogged t hm) hne

/-- The games that run and those that are over are all different. -/
structure GamesApart (rows : List Room) (issued : List Uuid) (log : List GameFinishedEvent) :
    Prop where
  once : (log.map GameFinishedEvent.gameId).Nodup
  known : ∀ e ∈ log, e.gameId ∈ issued
  running : ∀ r ∈ rows, ∀ g, r.gameId = some g → g ∈ issued ∧ ∀ e ∈ log, e.gameId ≠ g
  apart : ∀ r ∈ rows, ∀ r' ∈ rows, ∀ g, r.gameId = some g → r'.gameId = some g → r.id = r'.id

theorem GamesApart.issue {rows : List Room} {issued : List Uuid} {log : List GameFinishedEvent}
    (h : GamesApart rows issued log) (id : Uuid) : GamesApart rows (id :: issued) log where
  once := h.once
  known e he := List.mem_cons_of_mem _ (h.known e he)
  running r hr g hg := ⟨List.mem_cons_of_mem _ (h.running r hr g hg).1, (h.running r hr g hg).2⟩
  apart := h.apart

section
variable {rows rows' : List Room} {issued : List Uuid} {log : List GameFinishedEvent}
  {room t : Room}

theorem GamesApart.held (h : GamesApart rows issued log)
    (hroom : room ∈ rows ∨ room.gameId = none) {g : Uuid} (hg : room.gameId = some g) :
    (g ∈ issued ∧ ∀ e ∈ log, e.gameId ≠ g) ∧
      ∀ r ∈ rows, r.id ≠ room.id → r.gameId ≠ some g := by
  have hmem : room ∈ rows := by
    rcases hroom with hroom | hnone
    · exact hroom
    · cases hnone.symm.trans hg
  exact ⟨h.running room hmem g hg, fun r hr hid hg' => hid (h.apart r hr room hmem g hg' hg)⟩

-- the rows but `t` stay as they were; what is left is to place the game of `t`
theorem GamesApart.place (h : GamesApart rows issued log)
    (hroom : room ∈ rows ∨ room.gameId = none)
    (hrows : ∀ r ∈ rows', r = t ∨ r ∈ rows ∧ r.id ≠ room.id) {id : Uuid}
    {events : List GameFinishedEvent}
    (honce : ((log ++ events).map GameFinishedEvent.gameId).Nodup)
    (hevents : ∀ e ∈ events, room.gameId = some e.gameId)
    (ht : ∀ g, t.gameId = some g → (g ∈ id :: issued ∧ ∀ e ∈ log ++ events, e.gameId ≠ g) ∧
      ∀ r ∈ rows, r.id ≠ room.id → r.gameId ≠ some g) :
    GamesApart rows' (id :: issued) (log ++ events) := by
  refine ⟨honce, fun e he => ?_, fun r hr g hg => ?_, fun r hr r' hr' g hg hg' => ?_⟩
  · rcases List.mem_append.mp he with he | he
    · exact List.mem_cons_of_mem _ (h.known e he)
    · exact List.mem_cons_of_mem _ (h.held hroom (hevents e he)).1.1
  · rcases hrows r hr with rfl | ⟨hold, hid⟩
    · exact (ht g hg).1
    · obtain ⟨hissued, hlog⟩ := h.running r hold g hg
      refine ⟨List.mem_cons_of_mem _ hissued, fun e he => ?_⟩
      rcases List.mem_append.mp he with he | he
      · exact hlog e he
      · rintro rfl
        exact (h.held hroom (hevents e he)).2 r hold hid hg
  · rcases hrows r hr with rfl | ⟨hold, hid⟩
    · rcases hrows r' hr' with rfl | ⟨hold', hid'⟩
      · rfl
      · exact absurd hg' ((ht g hg).2 r' hold' hid')
    · rcases hrows r' hr' with rfl | ⟨hold', hid'⟩
      · exact absurd hg ((ht g hg').2 r hold hid)
      · exact h.apart r hold r' hold' g hg hg'

theorem GamesApart.step {env : Env} {ms : List GameMark} (h : GamesApart rows issued log)
    (hu : env.uuid ∉ issued) (hroom : room ∈ rows ∨ room.gameId = none)
    (hs : ResultStep env room t ms) (hrows : ∀ r ∈ rows', r = t ∨ r ∈ rows ∧ r.id ≠ room.id) :
    GamesApart rows' (env.uuid :: issued) (log ++ ms.filterMap GameMark.event?) := by
  have honce : ((log ++ []).map GameFinishedEvent.gameId).Nodup := by
    rw [List.append_nil]
    exact h.once
  have hkept : t.gameId = room.gameId → GamesApart rows' (env.uuid :: issued) (log ++ []) := by
    intro hg
    refine h.place hroom hrows honce (fun e he => absurd he List.not_mem_nil) fun g ht => ?_
    obtain ⟨⟨hissued, hlog⟩, hothers⟩ := h.held hroom (hg.symm.trans ht)
    rw [List.append_nil]
    exact ⟨⟨List.mem_cons_of_mem _ hissued, hlog⟩, hothers⟩
  cases hs with
  | start total hp ht hr hg =>
    refine h.place hroom hrows honce (fun e he => absurd he List.not_mem_nil) fun g hgt => ?_
    obtain rfl := Option.some.inj (hg.symm.trans hgt)
    refine ⟨⟨List.mem_cons_self, fun e he hsame => ?_⟩, fun r hr _ hgr => ?_⟩
    · have hold : e ∈ log ++ [] := he
      rw [List.append_nil] at hold
      exact hu (hsame ▸ h.known e hold)
    · exact hu (h.running r hr _ hgr).1
  | nextRound k hp ht hr hg => exact hkept hg
  | finish event hp ht hg hg' hr he hs =>
    obtain ⟨⟨-, hlog⟩, -⟩ := h.held hroom hg
    have hevents : ∀ e ∈ [event], room.gameId = some e.gameId := by
      intro e he
      rw [List.mem_singleton.mp he]
      exact hg
    refine h.place hroom hrows ?_ hevents fun g hgt => ?_
    · rw [List.map_append, List.nodup_append]
      refine ⟨h.once, List.nodup_singleton _, fun a ha b hb => ?_⟩
      obtain ⟨e, he, rfl⟩ := List.mem_map.mp ha
      rw [List.mem_singleton.mp hb]
      exact hlog e he
    · cases hg'.symm.trans hgt
  | other hp hr hg hm =>
    rw [filterMap_event_of_unlogged t hm]
    exact hkept hg

end

section
variable [Runtime] {self : ShardIdentity}

theorem server_rooms {s t : Server} {i : Env × ServerInput} {os : List Effect}
    (hrun : ∀ room ∈ s.rooms.rows, RoomRun s.issued room)
    (hs : (serverSystem self).step s i t os) :
    i.1.uuid ∉ s.issued ∧ t.issued = i.1.uuid :: s.issued ∧
      RoomsStep s i.1 i.2 t.rooms (publishedEvents os) := by
  simp only [serverSystem, Machine.ofFunction, Server.step] at hs
  split_ifs at hs with hu
  obtain ⟨r, hr, he⟩ := Option.map_eq_some_iff.mp hs
  cases he
  have hrooms : RoomsStep s i.1 i.2 r.1.rooms (publishedEvents r.2) :=
    handle_rooms (fun room hroom => (hrun room hroom).coherent) hr
  exact ⟨hu, rfl, hrooms⟩

theorem gamesApart_step {s t : Server} {i : Env × ServerInput} {os : List Effect}
    {log : List GameFinishedEvent} (hrun : ∀ room ∈ s.rooms.rows, RoomRun s.issued room)
    (h : GamesApart s.rooms.rows s.issued log) (hs : (serverSystem self).step s i t os) :
    GamesApart t.rooms.rows t.issued (log ++ publishedEvents os) := by
  obtain ⟨hu, hissued, hrooms⟩ := server_rooms hrun hs
  rw [hissued]
  revert hrooms
  generalize publishedEvents os = events
  generalize t.rooms = rooms
  intro hrooms
  cases hrooms with
  | still => simpa using h.issue i.1.uuid
  | @room u room t inside ls hroom hstep _ =>
    have hrunr : RoomRun s.issued room := by
      rcases hroom with hheld | ⟨-, hnew⟩
      · exact hrun room (get?_eq_some.mp hheld).1
      · rw [hnew]
        exact newRoom_run _ _
    have hold : room ∈ s.rooms.rows ∨ room.gameId = none := by
      rcases hroom with hheld | ⟨-, hnew⟩
      · exact .inl (get?_eq_some.mp hheld).1
      · exact .inr (by rw [hnew]; rfl)
    have hgame := hrunr.gameStep hstep
    rw [publishedEvents_eq]
    show GamesApart _ ((u.see i.1).uuid :: s.issued) _
    refine h.step hu hold (gameStep_result hgame) fun r hr => ?_
    rw [← (gameStep_room hgame).1]
    exact mem_rows_set.mp hr
  | @last u room t id ls hroom hstep =>
    have hheld := (get?_eq_some.mp hroom).1
    have hgame := (hrun room hheld).gameStep hstep
    rw [publishedEvents_eq]
    show GamesApart _ ((u.see i.1).uuid :: s.issued) _
    refine h.step hu (.inl hheld) (gameStep_result hgame) fun r hr => ?_
    obtain ⟨hr, hid⟩ := List.mem_filter.mp hr
    exact .inr ⟨hr, of_decide_eq_true hid⟩

/-- An event is that of a room of the process, in the step that ended its game. -/
theorem server_published {s t : Server} {i : Env × ServerInput} {os : List Effect}
    (hrun : ∀ room ∈ s.rooms.rows, RoomRun s.issued room)
    (hs : (serverSystem self).step s i t os) {e : GameFinishedEvent}
    (he : e ∈ publishedEvents os) :
    ∃ (u : Server) (room r : Room) (inside : RoomInput) (ls : List Effect),
      room ∈ s.rooms.rows ∧ roomStep (u.see i.1) room inside = some (r, ls) ∧
      e ∈ publishedEvents ls ∧ ∀ n, inside = .timer n → i.2 = .timer room.id n := by
  obtain ⟨-, -, hrooms⟩ := server_rooms hrun hs
  revert hrooms he
  generalize publishedEvents os = events
  generalize t.rooms = rooms
  intro he hrooms
  cases hrooms with
  | still => cases he
  | @room u room r inside ls hroom hstep htimer =>
    have hne : publishedEvents ls ≠ [] := List.ne_nil_of_mem he
    rcases hroom with hheld | ⟨-, hnew⟩
    · exact ⟨u, room, r, inside, ls, (get?_eq_some.mp hheld).1, hstep, he, htimer hne⟩
    · have hcoherent : room.Coherent := hnew ▸ newRoom_coherent _ _
      have hwaiting : room.phase = .waiting := by rw [hnew]; rfl
      have hresult := gameStep_result (roomStep_cases hcoherent hstep)
      rw [publishedEvents_eq] at hne
      cases hwaiting.symm.trans (hresult.playing hne)
  | @last u room r id ls hroom hstep =>
    exact ⟨u, room, r, .leave id, ls, (get?_eq_some.mp hroom).1, hstep, he,
      fun n hn => by cases hn⟩

/-- No two events of a process are of one game. -/
theorem server_games_apart {is : List (Env × ServerInput)} {s : Server} {os : List Effect}
    (hr : Machine.Run (serverSystem self) is s os) :
    GamesApart s.rooms.rows s.issued (publishedEvents os) := by
  induction hr with
  | nil h =>
    obtain rfl := h
    exact ⟨List.nodup_nil, fun e he => absurd he List.not_mem_nil,
      fun r hr => absurd hr List.not_mem_nil, fun r hr => absurd hr List.not_mem_nil⟩
  | snoc hr hs ih =>
    rw [publishedEvents_append]
    exact gamesApart_step (server_room_reachable ⟨_, _, hr⟩) ih hs

end

end GachaMind.GameSession
