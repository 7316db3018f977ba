import GachaMind.GameSession.RoomFrame
import GachaMind.GameSession.Server

/-!
# Everything one event can do to the process

`ServerStep` lists the ways in which an event changes the rooms, the connections and the
waiting joins. A change of a room is a step of that room, or seats or removes a player.
-/

namespace GachaMind.GameSession
open GachaMind.Js GachaMind.Shared KeyedTable

/-- An effect that reports rooms the process holds, on its own shard, and nothing else to
Redis or matchmaking but its load. -/
def Effect.Known (s : Server) : Effect → Prop
  | .syncOccupancy id projection => id ∈ s.rooms.keys ∧ projection.shard = s.self.shardId
  | .checkAssigned _ _ => False
  | .notifyRoomClosed _ => False
  | _ => True

def AllKnown (s : Server) (os : List Effect) : Prop := ∀ e ∈ os, e.Known s

namespace Server

/-- The room that a join gets: one the process holds, or a new one that the check allowed. -/
def Offers (s : Server) (w : Waiting) (room : Room) : Prop :=
  s.rooms.get? room.id = some room ∨
    s.rooms.get? room.id = none ∧ room = newRoom room.id DEFAULT_ROOM_CAPACITY ∧
      w.granted = some room.id

/-- The connection has joined as a player of a room that the process holds. -/
structure Member (s : Server) (c : Connection) (room : Room) (id : Uuid) : Prop where
  code : c.joinedRoomId = some room.id
  named : room.id ≠ []
  player : c.playerId = some id
  held : s.rooms.get? room.id = some room

theorem Member.unique {s : Server} {c : Connection} {room r : Room} {id i : Uuid}
    (h : s.Member c room id) (h' : s.Member c r i) : r = room ∧ i = id := by
  have hheld := h'.held
  rw [Option.some.inj (h'.code.symm.trans h.code), h.held] at hheld
  exact ⟨(Option.some.inj hheld).symm, Option.some.inj (h'.player.symm.trans h.player)⟩

end Server

inductive ServerStep [Runtime] (s : Server) (env : Env) :
    ServerInput → Server → List Effect → Prop
  | still {input : ServerInput} {os : List Effect} (hos : AllKnown s os) :
      ServerStep s env input s os
  | connect {socket : SocketId} {identity : Except JsError (Option Identity)}
      (h : socket ∉ s.connections.keys) :
      ServerStep s env (.connect socket identity)
        { s with connections := s.connections.set { socket := socket, identity := identity } } []
  | leaveOpen (socket : SocketId) :
      ServerStep s env (.leaveOpen socket) (s.leaveOpen socket) []
  | settle (socket : SocketId) (roomId : RoomId) (answer : Bool) :
      ServerStep s env (.settle socket roomId answer) (s.settle socket roomId answer) []
  | startJoin {c : Connection} {raw roomId nickname : Option Json}
      (hc : s.live c.socket = some c) (hr : truthy c.joinedRoomId = false)
      (hj : c.joining = false) :
      ServerStep s env (.message c.socket raw)
        { s.setJoining c.socket true with
          waiting := s.waiting ++ [.identity ⟨c.socket, c.identity, roomId, nickname⟩] } []
  | play {input : ServerInput} {room t : Room} {inside : RoomInput} {os : List Effect}
      (hroom : s.rooms.get? room.id = some room) (hi : inside.Inside)
      (hs : roomStep (s.see env) room inside = some (t, os)) :
      ServerStep s env input (s.setRoom t) os
  | abandon {w : Waiting} (hw : w ∈ s.waiting) :
      ServerStep s env (.resume w.call.socket)
        ((s.without w.call.socket).setJoining w.call.socket false) []
  | refuse {w : Waiting} (hw : w ∈ s.waiting) (message : ServerToClientMessage) :
      ServerStep s env (.resume w.call.socket)
        (((s.without w.call.socket).setJoining w.call.socket false).leaveOpen w.call.socket)
        [.reply w.call.socket message, .closeSocket w.call.socket]
  | ask {call : JoinCall} {identity : Option Identity} {roomId : RoomId}
      (hw : .identity call ∈ s.waiting) (hnew : s.rooms.get? roomId = none) :
      ServerStep s env (.resume call.socket)
        { s.without call.socket with
          waiting := (s.without call.socket).waiting ++ [.assignment call identity roomId none] }
        [.checkAssigned call.socket roomId]
  | seat {w : Waiting} {identity : Option Identity} {nickname : JsString} {room t : Room}
      (hw : w ∈ s.waiting) (hopen : s.isOpen w.call.socket = true) (hroom : s.Offers w room)
      (hfull : room.isFull = false)
      (ht : t = seatPlayer room (joiningPlayer (s.see env) w.call.socket identity nickname))
      {os : List Effect} (hos : AllKnown (s.setRoom t) os) :
      ServerStep s env (.resume w.call.socket)
        (((s.without w.call.socket).setRoom t).setJoined w.call.socket room.id env.uuid) os
  | closeOut {c : Connection} (hc : s.live c.socket = some c)
      (hout : ∀ roomId playerId, c.joinedRoomId = some roomId → c.playerId = some playerId →
        roomId = [] ∨ s.rooms.get? roomId = none) :
      ServerStep s env (.close c.socket) (s.markClosed c.socket) []
  | closeMember {c : Connection} {room t : Room} {playerId : Uuid} {ls os : List Effect}
      (hc : s.live c.socket = some c) (hr : c.joinedRoomId = some room.id)
      (hp : c.playerId = some playerId) (hroom : s.rooms.get? room.id = some room)
      (hs : leaveRoom ((s.markClosed c.socket).see env) room playerId = (t, ls))
      (ht : t.size ≠ 0) (hos : AllKnown s os) :
      ServerStep s env (.close c.socket) ((s.markClosed c.socket).setRoom t) os
  | closeLast {c : Connection} {room t : Room} {playerId : Uuid} {ls os ps : List Effect}
      (hc : s.live c.socket = some c) (hr : c.joinedRoomId = some room.id)
      (hp : c.playerId = some playerId) (hroom : s.rooms.get? room.id = some room)
      (hs : leaveRoom ((s.markClosed c.socket).see env) room playerId = (t, ls))
      (ht : t.size = 0) (hos : AllKnown s os) (hps : AllKnown s ps) :
      ServerStep s env (.close c.socket)
        { s.markClosed c.socket with rooms := s.rooms.erase room.id }
        (os ++ .notifyRoomClosed room.id :: ps)

/-! ### Effects -/

theorem allKnown_nil (s : Server) : AllKnown s [] := fun _ h => absurd h List.not_mem_nil

theorem AllKnown.append {s : Server} {os ps : List Effect} (h : AllKnown s os)
    (h' : AllKnown s ps) : AllKnown s (os ++ ps) := by
  intro e he
  rcases List.mem_append.mp he with he | he
  · exact h e he
  · exact h' e he

theorem AllLocal.known {s : Server} {shard : ShardId} {roomId : RoomId} {os : List Effect}
    (h : AllLocal shard roomId os) (hr : roomId ∈ s.rooms.keys) (hs : shard = s.self.shardId) :
    AllKnown s os := by
  intro e he
  have hl := h e he
  cases e with
  | syncOccupancy id projection => exact ⟨hl.1 ▸ hr, hl.2.trans hs⟩
  | checkAssigned socket roomId => exact hl
  | notifyRoomClosed roomId => exact hl
  | _ => trivial

theorem report_known (s t : Server) : AllKnown s t.report := by
  intro e he
  simp only [Server.report, List.mem_cons, List.not_mem_nil, or_false] at he
  rcases he with rfl | rfl <;> trivial

/-! ### The handlers -/

section
variable [Runtime] {s t : Server} {env : Env} {os : List Effect}

theorem memberMessage_cases {room r : Room} {playerId : Uuid} {message : Json}
    (h : Server.memberMessage env room playerId message = .ok (r, os)) :
    (r = room ∧ os = []) ∨
      ∃ inside : RoomInput, inside.Inside ∧ roomStep env room inside = some (r, os) := by
  unfold Server.memberMessage at h
  dsimp only at h
  split_ifs at h
  · exact .inr ⟨.chat playerId (message.field (utf16 "text")), trivial, by
      simp [roomStep, h, Except.toOption]⟩
  · exact .inr ⟨.draw playerId (message.field (utf16 "stroke")), trivial, by
      simp [roomStep, h, Except.toOption]⟩
  · exact .inr ⟨.drawClear playerId, trivial, by rw [roomStep, Except.ok.inj h]⟩
  · exact .inr ⟨.startGame, trivial, by rw [roomStep, Except.ok.inj h]⟩
  · cases h
    exact .inl ⟨rfl, rfl⟩

theorem handleMember_eq (s : Server) (env : Env) (c : Connection) (message : Json) :
    (∃ room id, s.Member c room id ∧ s.handleMember env c message = (do
      let r ← Server.memberMessage (s.see env) room id message
      return (s.setRoom r.1, r.2))) ∨
    (∀ room id, ¬ s.Member c room id) ∧ s.handleMember env c message = .ok (s, []) := by
  cases hr : c.joinedRoomId with
  | none =>
    right
    refine ⟨fun room id hm => ?_, by simp only [Server.handleMember, hr]⟩
    cases hr.symm.trans hm.code
  | some roomId =>
    cases hp : c.playerId with
    | none =>
      right
      refine ⟨fun room id hm => ?_, by simp only [Server.handleMember, hr, hp]⟩
      cases hp.symm.trans hm.player
    | some id =>
      simp only [Server.handleMember, hr, hp]
      split_ifs with hnil
      · right
        refine ⟨fun room id hm => hm.named ?_, rfl⟩
        rw [← Option.some.inj (hr.symm.trans hm.code), hnil]
      · cases hroom : s.rooms.get? roomId with
        | none =>
          right
          refine ⟨fun room id hm => ?_, rfl⟩
          have hheld := hm.held
          rw [← Option.some.inj (hr.symm.trans hm.code), hroom] at hheld
          cases hheld
        | some room =>
          left
          obtain rfl : room.id = roomId := (get?_eq_some.mp hroom).2
          exact ⟨room, id, ⟨hr, hnil, hp, hroom⟩, rfl⟩

theorem handleMember_cases {c : Connection} {message : Json} {input : ServerInput}
    (h : s.handleMember env c message = .ok (t, os)) : ServerStep s env input t os := by
  rcases handleMember_eq s env c message with ⟨room, id, hm, he⟩ | ⟨-, he⟩
  · obtain ⟨r, hr, hok⟩ := bind_eq_ok.mp (he.symm.trans h)
    cases hok
    rcases memberMessage_cases hr with ⟨hsame, hos⟩ | ⟨inside, hi, hs⟩
    · rw [hsame, hos, Server.setRoom, set_self hm.held]
      exact .still (allKnown_nil s)
    · exact .play hm.held hi hs
  · cases he.symm.trans h
    exact .still (allKnown_nil s)

theorem handleMessage_cases {c : Connection} {raw : Option Json}
    (hc : s.live c.socket = some c) (h : s.handleMessage env c raw = .ok (t, os)) :
    ServerStep s env (.message c.socket raw) t os := by
  cases raw with
  | none =>
    cases h
    exact .still (allKnown_nil s)
  | some message =>
    simp only [Server.handleMessage, getProp] at h
    split_ifs at h with hnull
    · cases h
    change (if isString (message.field (utf16 "type")) (utf16 "join") = true then _ else _) = _ at h
    split_ifs at h with hjoin
    · cases h
      unfold Server.startJoin
      split_ifs with hfree
      · exact .still (allKnown_nil s)
      · rw [Bool.or_eq_true, not_or, Bool.not_eq_true, Bool.not_eq_true] at hfree
        exact .startJoin hc hfree.1 hfree.2
    · exact handleMember_cases h

theorem enter_cases {u : Server} {w : Waiting} {identity : Option Identity} {room : Room}
    (h : u.enter (s.see env) w.call identity room.id room = .ok (t, os))
    (hw : w ∈ s.waiting) (hopen : s.isOpen w.call.socket = true) (hroom : s.Offers w room)
    (hu : ∀ r : Room, r.id = room.id → u.setRoom r = (s.without w.call.socket).setRoom r)
    (hfull : room.isFull = true → u = s.without w.call.socket) :
    ServerStep s env (.resume w.call.socket) t os := by
  unfold Server.enter at h
  split_ifs at h with hf
  · cases h
    rw [hfull hf]
    exact .refuse hw _
  · cases hn : Server.joinNickname identity w.call.nickname with
    | error e =>
      rw [hn] at h
      cases h
    | ok nickname =>
      rw [hn] at h
      have hid : (seatPlayer room (joiningPlayer (s.see env) w.call.socket identity nickname)).id =
          room.id := seatPlayer_id _ _
      obtain ⟨rfl, rfl⟩ := Prod.mk.inj (Except.ok.inj h)
      rw [hu _ hid]
      refine .seat hw hopen hroom (by simpa using hf) rfl ?_
      have hkey : (seatPlayer room (joiningPlayer (s.see env) w.call.socket identity nickname)).id ∈
          (s.setRoom (seatPlayer room
            (joiningPlayer (s.see env) w.call.socket identity nickname))).rooms.keys :=
        mem_keys_set.mpr (.inl rfl)
      have hsync : AllLocal s.self.shardId _ (syncOccupancy (s.see env) (seatPlayer room
          (joiningPlayer (s.see env) w.call.socket identity nickname)) :: []) :=
        allLocal_cons.mpr ⟨⟨rfl, rfl⟩, allLocal_nil⟩
      exact ((hsync.known hkey rfl).append (report_known _ _)).append
        ((welcome_local _ _ _).known hkey rfl)

theorem afterIdentity_room {s : Server} (env : Env) {call : JoinCall} {identity : Option Identity}
    {text : JsString} (hi : call.identity = .ok identity) (ho : s.isOpen call.socket = true)
    (ht : asString call.roomId = .ok text) :
    s.afterIdentity env call =
      match s.rooms.get? (normalizeRoomCode text) with
      | some room => s.enter (s.see env) call identity (normalizeRoomCode text) room
      | none => .ok ({ s with waiting := s.waiting ++
            [.assignment call identity (normalizeRoomCode text) none] },
          [.checkAssigned call.socket (normalizeRoomCode text)]) := by
  simp only [Server.afterIdentity, hi, ho, ht]
  rfl

theorem afterIdentity_cases {call : JoinCall} (hw : .identity call ∈ s.waiting)
    (h : (s.without call.socket).afterIdentity env call = .ok (t, os)) :
    ServerStep s env (.resume call.socket) t os := by
  cases hi : call.identity with
  | error e =>
    simp only [Server.afterIdentity, hi] at h
    cases h
  | ok identity =>
    cases hopen : (s.without call.socket).isOpen call.socket with
    | false =>
      simp only [Server.afterIdentity, hi, hopen] at h
      cases h
      exact .abandon hw
    | true =>
      cases ht : asString call.roomId with
      | error e =>
        simp only [Server.afterIdentity, hi, hopen, ht] at h
        cases h
      | ok text =>
        rw [afterIdentity_room env hi hopen ht] at h
        cases hroom : s.rooms.get? (normalizeRoomCode text) with
        | none =>
          have hnone : (s.without call.socket).rooms.get? (normalizeRoomCode text) = none := hroom
          rw [hnone] at h
          cases h
          exact .ask hw hroom
        | some room =>
          have hsome : (s.without call.socket).rooms.get? (normalizeRoomCode text) = some room :=
            hroom
          rw [hsome] at h
          have hid := (get?_eq_some.mp hroom).2
          rw [← hid] at h hroom
          exact enter_cases h hw hopen (.inl hroom) (fun _ _ => rfl) fun _ => rfl

theorem afterAssignment_cases {call : JoinCall} {identity : Option Identity} {roomId : RoomId}
    {answer : Bool} (hw : .assignment call identity roomId (some answer) ∈ s.waiting)
    (h : (s.without call.socket).afterAssignment env call identity roomId answer = .ok (t, os)) :
    ServerStep s env (.resume call.socket) t os := by
  unfold Server.afterAssignment at h
  split_ifs at h with hanswer hopen
  · cases h
    exact .refuse hw _
  · cases h
    exact .abandon hw
  · have hopen' : (s.without call.socket).isOpen call.socket = true := by simpa using hopen
    have hyes : answer = true := by simpa using hanswer
    subst hyes
    unfold Server.getOrCreate at h
    cases hroom : s.rooms.get? roomId with
    | some room =>
      change (s.without call.socket).rooms.get? roomId = some room at hroom
      rw [hroom] at h
      have hid := (get?_eq_some.mp hroom).2
      rw [← hid] at h hroom
      exact enter_cases h hw hopen' (.inl hroom) (fun _ _ => rfl) fun _ => rfl
    | none =>
      change (s.without call.socket).rooms.get? roomId = none at hroom
      rw [hroom] at h
      have hnew : ((s.without call.socket).setRoom (newRoom roomId DEFAULT_ROOM_CAPACITY)).enter
          (s.see env) call identity (newRoom roomId DEFAULT_ROOM_CAPACITY).id
          (newRoom roomId DEFAULT_ROOM_CAPACITY) = .ok (t, os) := h
      have hoffer : s.Offers (.assignment call identity roomId (some true))
          (newRoom roomId DEFAULT_ROOM_CAPACITY) := .inr ⟨hroom, rfl, rfl⟩
      refine enter_cases hnew hw hopen' hoffer (fun r hr => ?_) (fun hf => ?_)
      · exact congrArg (fun rooms => { s.without call.socket with rooms := rooms })
          (set_set hr.symm)
      · simp [newRoom, Room.isFull, Room.size, DEFAULT_ROOM_CAPACITY] at hf

/-! ### The step function -/

theorem resume_cases {socket : SocketId} (h : s.resume env socket = some (t, os)) :
    ServerStep s env (.resume socket) t os := by
  obtain ⟨w, hw, h⟩ := Option.bind_eq_some_iff.mp h
  have hmem := List.mem_of_find?_eq_some hw
  obtain rfl : w.call.socket = socket := by simpa using List.find?_some hw
  obtain ⟨x, hx, h⟩ := Option.bind_eq_some_iff.mp h
  have hok := toOption_eq_some h
  cases w with
  | identity call =>
    obtain rfl := Option.some.inj hx
    exact afterIdentity_cases hmem hok
  | assignment call identity roomId answer =>
    cases answer with
    | none => cases hx
    | some answer =>
      obtain rfl := Option.some.inj hx
      exact afterAssignment_cases hmem hok

theorem close_cases {c : Connection} (hc : s.live c.socket = some c)
    (h : s.close env c = (t, os)) : ServerStep s env (.close c.socket) t os := by
  unfold Server.close Server.handleClose at h
  split at h
  · rename_i roomId playerId hr hp
    split_ifs at h with hnil
    · cases h
      refine .closeOut hc fun r p hr' _ => .inl ?_
      rw [← hnil]
      exact Option.some.inj (hr'.symm.trans hr)
    · cases hroom : (s.markClosed c.socket).rooms.get? roomId with
      | none =>
        rw [hroom] at h
        cases h
        refine .closeOut hc fun r p hr' _ => .inr ?_
        rw [Option.some.inj (hr'.symm.trans hr)]
        exact hroom
      | some room =>
        obtain rfl : room.id = roomId := (get?_eq_some.mp hroom).2
        rw [hroom] at h
        cases hl : leaveRoom ((s.markClosed c.socket).see env) room playerId with
        | mk left ls =>
          have hkey : room.id ∈ s.rooms.keys := mem_keys_of_get? hroom
          have hls : AllKnown s ls := by
            have hlocal := leaveRoom_local ((s.markClosed c.socket).see env) room playerId
            rw [hl] at hlocal
            exact hlocal.known hkey rfl
          have hid : left.id = room.id := by
            have := leaveRoom_id ((s.markClosed c.socket).see env) room playerId
            rwa [hl] at this
          dsimp only at h
          rw [hl] at h
          unfold Server.removeIfEmpty at h
          dsimp only at h
          split_ifs at h with hsize
          · cases h
            rw [hid]
            exact .closeLast hc hr hp hroom hl hsize hls (report_known _ _)
          · cases h
            have hsync : AllLocal s.self.shardId room.id
                [syncOccupancy (((s.markClosed c.socket).setRoom left).see env) left] :=
              allLocal_cons.mpr ⟨⟨hid, rfl⟩, allLocal_nil⟩
            exact .closeMember hc hr hp hroom hl hsize
              (hls.append ((hsync.known hkey rfl).append (report_known _ _)))
  · rename_i hno
    cases h
    exact .closeOut hc fun r p hr hp => absurd hp (hno r p hr)

omit [Runtime] in
theorem live_socket {socket : SocketId} {c : Connection} (h : s.live socket = some c) :
    c.socket = socket := by
  obtain ⟨hc, -⟩ := Option.filter_eq_some_iff.mp h
  exact (get?_eq_some.mp hc).2

theorem handle_cases {input : ServerInput} (h : s.handle env input = some (t, os)) :
    ServerStep s env input t os := by
  cases input with
  | connect socket identity =>
    obtain ⟨u, hu, he⟩ := Option.map_eq_some_iff.mp h
    unfold Server.connect at hu
    split_ifs at hu with hs
    cases hu
    cases he
    exact .connect hs
  | message socket raw =>
    obtain ⟨c, hc, hm⟩ := Option.bind_eq_some_iff.mp h
    obtain rfl := live_socket hc
    exact handleMessage_cases hc (toOption_eq_some hm)
  | resume socket => exact resume_cases h
  | settle socket roomId answer =>
    cases h
    exact .settle socket roomId answer
  | leaveOpen socket =>
    cases h
    exact .leaveOpen socket
  | close socket =>
    obtain ⟨c, hc, hm⟩ := Option.map_eq_some_iff.mp h
    obtain rfl := live_socket hc
    exact close_cases hc hm
  | timer roomId id =>
    obtain ⟨room, hroom, hm⟩ := Option.bind_eq_some_iff.mp h
    obtain ⟨r, hr, he⟩ := Option.map_eq_some_iff.mp hm
    cases he
    obtain rfl := (get?_eq_some.mp hroom).2
    have hinside : (RoomInput.timer id).Inside := trivial
    exact .play hroom hinside hr
  | heartbeat =>
    cases h
    refine .still fun e he => ?_
    rcases List.mem_append.mp he with he | he
    · obtain ⟨room, hroom, rfl⟩ := List.mem_map.mp he
      exact ⟨key_mem_keys hroom, rfl⟩
    · exact report_known s s e he

end

end GachaMind.GameSession
