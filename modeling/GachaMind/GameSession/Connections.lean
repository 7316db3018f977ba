import GachaMind.GameSession.ServerRooms

/-!
# Connections and players

The connections that have joined and not closed correspond to the players that the
rooms hold. A join that waits belongs to a connection that has joined nothing yet and
is the only one of its connection, so that nothing else can seat the connection while
`handleJoin` is suspended. All of this rests on a joined room having a code that is not
empty: the handlers take the empty code for no room at all.
-/

namespace GachaMind.GameSession
open GachaMind.Js GachaMind.Shared KeyedTable

/-! ### Seats and owners -/

def Connection.owns (c : Connection) : Option (RoomId × Uuid) :=
  if c.closed then none else c.joinedRoomId.bind fun roomId => c.playerId.map fun id => (roomId, id)

namespace Server

def seatsOf (s : Server) (roomId : RoomId) : List (Uuid × SocketId) :=
  ((s.rooms.get? roomId).map Room.seats).getD []

def owner (s : Server) (socket : SocketId) : Option (RoomId × Uuid) :=
  (s.connections.get? socket).bind Connection.owns

theorem seatsOf_setRoom (s : Server) (room : Room) (roomId : RoomId) :
    (s.setRoom room).seatsOf roomId =
      if roomId = room.id then room.seats else s.seatsOf roomId := by
  simp only [seatsOf, setRoom, get?_set]
  split_ifs <;> rfl

theorem seatsOf_of_room {s : Server} {room : Room} (h : s.rooms.get? room.id = some room) :
    s.seatsOf room.id = room.seats := by
  rw [seatsOf, h]
  rfl

theorem get?_modifyConnection (s : Server) (socket k : SocketId) (f : Connection → Connection)
    (hf : ∀ c, (f c).socket = c.socket) :
    (s.modifyConnection socket f hf).connections.get? k =
      if k = socket then (s.connections.get? k).map f else s.connections.get? k :=
  get?_modify s.connections socket k f hf

theorem owner_modifyConnection {s : Server} {socket : SocketId} {f : Connection → Connection}
    {hf : ∀ c, (f c).socket = c.socket}
    (h : ∀ c, s.connections.get? socket = some c → (f c).owns = c.owns) (k : SocketId) :
    (s.modifyConnection socket f hf).owner k = s.owner k := by
  rw [owner, get?_modifyConnection, owner]
  split_ifs with hk
  · subst hk
    cases hc : s.connections.get? k with
    | none => rfl
    | some c => exact h c hc
  · rfl

end Server

/-! ### The invariant -/

structure Connection.Valid (c : Connection) : Prop where
  both : c.joinedRoomId = none ↔ c.playerId = none
  code : c.joinedRoomId ≠ some []
  closed : c.closed = true → c.isOpen = false

def Server.Awaits (s : Server) (w : Waiting) : Prop :=
  ∃ c, s.connections.get? w.call.socket = some c ∧ c.joining = true ∧ c.joinedRoomId = none

structure Server.Inv (s : Server) : Prop where
  seats : ∀ roomId id socket,
    (id, socket) ∈ s.seatsOf roomId ↔ s.owner socket = some (roomId, id)
  inhabited : ∀ room ∈ s.rooms.rows, 0 < room.size ∧ room.size ≤ room.capacity
  codes : ∀ room ∈ s.rooms.rows, room.id ≠ []
  valid : ∀ c ∈ s.connections.rows, c.Valid
  awaits : ∀ w ∈ s.waiting, s.Awaits w
  once : (s.waiting.map fun w => w.call.socket).Nodup

/-- The event admits a join whose code is empty. -/
def AdmitsEmptyCode (s : Server) : ServerInput → Prop
  | .resume socket => s.isOpen socket = true ∧
      ∃ w ∈ s.waiting, w.call.socket = socket ∧ w.granted = some []
  | _ => False

instance (s : Server) : ∀ input, Decidable (AdmitsEmptyCode s input)
  | .resume _ => inferInstanceAs (Decidable (_ ∧ _))
  | .connect _ _ | .message _ _ | .settle _ _ _ | .leaveOpen _ | .close _ | .timer _ _
  | .heartbeat => inferInstanceAs (Decidable False)

namespace Server.Inv
variable {s : Server}

theorem valid_get? (h : s.Inv) {socket : SocketId} {c : Connection}
    (hc : s.connections.get? socket = some c) : c.Valid :=
  h.valid c (get?_eq_some.mp hc).1

theorem modifyConnection (h : s.Inv) {socket : SocketId} {f : Connection → Connection}
    {hf : ∀ c, (f c).socket = c.socket}
    (howns : ∀ c, s.connections.get? socket = some c → (f c).owns = c.owns)
    (hvalid : ∀ c, c.Valid → (f c).Valid)
    (hawait : ∀ w ∈ s.waiting, w.call.socket = socket → ∀ c, s.connections.get? socket = some c →
      c.joining = true → c.joinedRoomId = none → (f c).joining = true ∧ (f c).joinedRoomId = none) :
    (s.modifyConnection socket f hf).Inv where
  seats roomId id k := by
    rw [Server.owner_modifyConnection howns]
    exact h.seats roomId id k
  inhabited := h.inhabited
  codes := h.codes
  valid c hc := by
    obtain ⟨d, hd, rfl⟩ := List.mem_map.mp hc
    split_ifs
    · exact hvalid d (h.valid d hd)
    · exact h.valid d hd
  awaits w hw := by
    obtain ⟨c, hc, hj, hr⟩ := h.awaits w hw
    by_cases hk : w.call.socket = socket
    · refine ⟨f c, ?_, hawait w hw hk c (hk ▸ hc) hj hr⟩
      rw [Server.get?_modifyConnection, if_pos hk, hc]
      rfl
    · refine ⟨c, ?_, hj, hr⟩
      rw [Server.get?_modifyConnection, if_neg hk, hc]
  once := h.once

theorem leaveOpen (h : s.Inv) (socket : SocketId) : (s.leaveOpen socket).Inv :=
  h.modifyConnection (fun _ _ => rfl) (fun _ hc => ⟨hc.both, hc.code, fun _ => rfl⟩)
    fun _ _ _ _ _ hj hr => ⟨hj, hr⟩

theorem mem_without (h : s.Inv) {socket : SocketId} {w : Waiting} :
    w ∈ (s.without socket).waiting ↔ w ∈ s.waiting ∧ w.call.socket ≠ socket :=
  mem_eraseP_key h.once

theorem without (h : s.Inv) (socket : SocketId) : (s.without socket).Inv where
  seats := h.seats
  inhabited := h.inhabited
  codes := h.codes
  valid := h.valid
  awaits w hw := h.awaits w (h.mem_without.mp hw).1
  once := h.once.sublist (List.eraseP_sublist.map _)

theorem stopJoining (h : s.Inv) (socket : SocketId) :
    ((s.without socket).setJoining socket false).Inv :=
  (h.without socket).modifyConnection (fun _ _ => rfl)
    (fun _ hc => ⟨hc.both, hc.code, hc.closed⟩)
    fun _ hw hk => absurd hk (h.mem_without.mp hw).2

theorem settle (h : s.Inv) (socket : SocketId) (roomId : RoomId) (answer : Bool) :
    (s.settle socket roomId answer).Inv := by
  have hcall : ∀ w : Waiting,
      (if w.asks socket roomId then w.answered answer else w).call = w.call := by
    intro w
    split_ifs
    · exact w.call_answered answer
    · rfl
  refine ⟨h.seats, h.inhabited, h.codes, h.valid, fun w hw => ?_, ?_⟩
  · obtain ⟨v, hv, rfl⟩ := List.mem_map.mp hw
    have hawaits := h.awaits v hv
    rwa [Server.Awaits, hcall]
  · simpa only [Server.settle, List.map_map, Function.comp_def, hcall] using h.once

theorem connect (h : s.Inv) {socket : SocketId} (identity : Except JsError (Option Identity))
    (hs : socket ∉ s.connections.keys) :
    ({ s with connections := s.connections.set { socket := socket, identity := identity } } :
      Server).Inv := by
  have hnone : s.connections.get? socket = none := get?_eq_none.mpr hs
  refine ⟨fun roomId id k => (h.seats roomId id k).trans ?_, h.inhabited, h.codes, ?_, ?_, h.once⟩
  · simp only [Server.owner, get?_set]
    split_ifs with hk
    · rw [hk, hnone]
      rfl
    · rfl
  · intro c hc
    rcases mem_rows_set.mp hc with rfl | ⟨hc, -⟩
    · exact ⟨by simp, by simp, by simp⟩
    · exact h.valid c hc
  · intro w hw
    obtain ⟨c, hc, hj, hr⟩ := h.awaits w hw
    refine ⟨c, ?_, hj, hr⟩
    have hne : w.call.socket ≠ socket := fun he => by
      rw [he, hnone] at hc
      cases hc
    simp only [get?_set, if_neg hne, hc]

theorem get?_live {c : Connection} (hc : s.live c.socket = some c) :
    s.connections.get? c.socket = some c ∧ c.closed = false := by
  obtain ⟨hget, hclosed⟩ := Option.filter_eq_some_iff.mp hc
  exact ⟨hget, by simpa using hclosed⟩

theorem startJoin (h : s.Inv) {c : Connection} (hc : s.live c.socket = some c)
    (hr : truthy c.joinedRoomId = false) (hj : c.joining = false) (roomId nickname : Option Json) :
    ({ s.setJoining c.socket true with
        waiting := s.waiting ++ [.identity ⟨c.socket, c.identity, roomId, nickname⟩] } :
      Server).Inv := by
  obtain ⟨hget, -⟩ := get?_live hc
  have hidle : ∀ w ∈ s.waiting, w.call.socket ≠ c.socket := by
    intro w hw he
    obtain ⟨d, hd, hjoining, -⟩ := h.awaits w hw
    rw [he, hget] at hd
    rw [Option.some.inj hd, hjoining] at hj
    cases hj
  have hnone : c.joinedRoomId = none := by
    have hcode := (h.valid_get? hget).code
    cases hcr : c.joinedRoomId with
    | none => rfl
    | some code =>
      rw [hcr] at hr hcode
      have hnil : code = [] := by simpa [truthy] using hr
      exact absurd (by rw [hnil]) hcode
  have hset : (s.setJoining c.socket true).Inv :=
    h.modifyConnection (fun _ _ => rfl) (fun _ hv => ⟨hv.both, hv.code, hv.closed⟩)
      fun w hw he => absurd he (hidle w hw)
  refine ⟨hset.seats, hset.inhabited, hset.codes, hset.valid, fun w hw => ?_, ?_⟩
  · rcases List.mem_append.mp hw with hw | hw
    · exact hset.awaits w hw
    · obtain rfl := List.mem_singleton.mp hw
      refine ⟨{ c with joining := true }, ?_, rfl, hnone⟩
      show (s.setJoining c.socket true).connections.get? c.socket = _
      rw [Server.setJoining, Server.get?_modifyConnection, if_pos rfl, hget]
      rfl
  · rw [List.map_append, List.nodup_append]
    refine ⟨h.once, List.nodup_singleton _, ?_⟩
    intro a ha b hb he
    obtain ⟨w, hw, rfl⟩ := List.mem_map.mp ha
    exact hidle w hw (he.trans (List.mem_singleton.mp hb))

theorem ask (h : s.Inv) {call : JoinCall} (hw : .identity call ∈ s.waiting)
    (identity : Option Identity) (roomId : RoomId) :
    ({ s.without call.socket with
        waiting := (s.without call.socket).waiting ++ [.assignment call identity roomId none] } :
      Server).Inv := by
  have hrest := h.without call.socket
  refine ⟨h.seats, h.inhabited, h.codes, h.valid, fun w hm => ?_, ?_⟩
  · rcases List.mem_append.mp hm with hm | hm
    · exact hrest.awaits w hm
    · obtain rfl := List.mem_singleton.mp hm
      have hawait : s.Awaits (.identity call) := h.awaits _ hw
      exact hawait
  · rw [List.map_append, List.nodup_append]
    refine ⟨hrest.once, List.nodup_singleton _, ?_⟩
    intro a ha b hb he
    obtain ⟨w, hm, rfl⟩ := List.mem_map.mp ha
    exact (h.mem_without.mp hm).2 (he.trans (List.mem_singleton.mp hb))

theorem play (h : s.Inv) {room t : Room} (hroom : s.rooms.get? room.id = some room)
    (hid : t.id = room.id) (hcap : t.capacity = room.capacity) (hseats : t.seats = room.seats) :
    (s.setRoom t).Inv where
  seats roomId id socket := by
    rw [Server.seatsOf_setRoom, hid, hseats]
    refine Iff.trans ?_ (h.seats roomId id socket)
    split_ifs with hk
    · rw [hk, Server.seatsOf_of_room hroom]
    · rfl
  inhabited r hr := by
    rcases rows_setRoom hr with rfl | hr
    · have hsize : r.size = room.size := by
        rw [← Room.length_seats, hseats, Room.length_seats]
      rw [hsize, hcap]
      exact h.inhabited room (get?_eq_some.mp hroom).1
    · exact h.inhabited r hr
  codes r hr := by
    rcases rows_setRoom hr with rfl | hr
    · rw [hid]
      exact h.codes room (get?_eq_some.mp hroom).1
    · exact h.codes r hr
  valid := h.valid
  awaits := h.awaits
  once := h.once

theorem get?_setJoined (s : Server) (socket k : SocketId) (roomId : RoomId) (id : Uuid) :
    (s.setJoined socket roomId id).connections.get? k = if k = socket then
      (s.connections.get? k).map (fun c => { c with
        joinedRoomId := some roomId, playerId := some id, joining := false })
      else s.connections.get? k :=
  Server.get?_modifyConnection ..

theorem owner_setJoined {c : Connection} {socket : SocketId}
    (hc : s.connections.get? socket = some c) (hlive : c.closed = false) (roomId : RoomId)
    (id : Uuid) (k : SocketId) : (s.setJoined socket roomId id).owner k =
      if k = socket then some (roomId, id) else s.owner k := by
  rw [Server.owner, get?_setJoined]
  split_ifs with hk
  · simp [hk, hc, Connection.owns, hlive]
  · rfl

theorem seat (h : s.Inv) {w : Waiting} {room t : Room} {id : Uuid} (hw : w ∈ s.waiting)
    (hopen : s.isOpen w.call.socket = true) (hcode : room.id ≠ [])
    (hroom : s.seatsOf room.id = room.seats) (hfull : room.isFull = false)
    (htid : t.id = room.id) (hcap : t.capacity = room.capacity)
    (hseats : t.seats = room.seats ++ [(id, w.call.socket)]) :
    (((s.without w.call.socket).setRoom t).setJoined w.call.socket room.id id).Inv := by
  obtain ⟨c, hc, -, hnone⟩ := h.awaits w hw
  have hvalid := h.valid_get? hc
  have hlive : c.closed = false := by
    have hco : c.isOpen = true := by simpa [Server.isOpen, hc] using hopen
    cases hcl : c.closed with
    | false => rfl
    | true =>
      rw [hvalid.closed hcl] at hco
      cases hco
  have hbefore : s.owner w.call.socket = none := by
    simp [Server.owner, hc, Connection.owns, hnone]
  have howner : ∀ k, (((s.without w.call.socket).setRoom t).setJoined w.call.socket room.id
      id).owner k = if k = w.call.socket then some (room.id, id) else s.owner k :=
    owner_setJoined (s := (s.without w.call.socket).setRoom t) hc hlive room.id id
  refine ⟨fun roomId pid k => ?_, ?_, ?_, ?_, ?_, (h.without w.call.socket).once⟩
  · have hnobody : ∀ p, (p, w.call.socket) ∉ s.seatsOf roomId := fun p hp => by
      rw [h.seats, hbefore] at hp
      cases hp
    have hold := h.seats roomId pid k
    rw [howner]
    show (pid, k) ∈ (s.setRoom t).seatsOf roomId ↔ _
    rw [Server.seatsOf_setRoom, htid, hseats]
    by_cases hr : roomId = room.id <;> by_cases hk : k = w.call.socket
    · subst hr
      subst hk
      rw [if_pos rfl, if_pos rfl, List.mem_append, ← hroom, List.mem_singleton]
      simp [hnobody pid, eq_comm]
    · subst hr
      rw [if_pos rfl, if_neg hk, List.mem_append, ← hroom, ← hold, List.mem_singleton]
      simp [hk]
    · subst hk
      rw [if_neg hr, if_pos rfl]
      simp [hnobody pid, Ne.symm hr]
    · rw [if_neg hr, if_neg hk]
      exact hold
  · intro r hr
    rcases rows_setRoom hr with rfl | hr
    · have hsize : r.size = room.size + 1 := by
        rw [← Room.length_seats, hseats, List.length_append, Room.length_seats]
        rfl
      have hlt : room.size < room.capacity := by simpa [Room.isFull] using hfull
      omega
    · exact h.inhabited r hr
  · intro r hr
    rcases rows_setRoom hr with rfl | hr
    · rw [htid]
      exact hcode
    · exact h.codes r hr
  · intro d hd
    obtain ⟨e, he, rfl⟩ := List.mem_map.mp hd
    split_ifs
    · exact ⟨by simp, by simpa using hcode, (h.valid e he).closed⟩
    · exact h.valid e he
  · intro v hv
    obtain ⟨hv, hne⟩ := h.mem_without.mp hv
    obtain ⟨d, hd, hj, hr⟩ := h.awaits v hv
    exact ⟨d, by rw [get?_setJoined, if_neg hne]; exact hd, hj, hr⟩

theorem socket_unique {roomId : RoomId} {id : Uuid} {k l : SocketId}
    (hk : (id, k) ∈ s.seatsOf roomId) (hl : (id, l) ∈ s.seatsOf roomId) : k = l := by
  unfold Server.seatsOf at hk hl
  cases hroom : s.rooms.get? roomId with
  | none => simp [hroom] at hk
  | some room =>
    rw [hroom] at hk hl
    have hnd : (room.seats.map Prod.fst).Nodup := by
      rw [Room.map_fst_seats]
      exact keys_nodup _
    exact congrArg Prod.snd (List.inj_on_of_nodup_map hnd hk hl rfl)

theorem owner_markClosed (s : Server) (socket k : SocketId) :
    (s.markClosed socket).owner k = if k = socket then none else s.owner k := by
  rw [Server.markClosed, Server.owner, Server.get?_modifyConnection]
  split_ifs with hk
  · cases s.connections.get? k with
    | none => rfl
    | some c => simp [Connection.owns]
  · rfl

theorem closeOut (h : s.Inv) {c : Connection} (hc : s.live c.socket = some c)
    (hout : ∀ roomId playerId, c.joinedRoomId = some roomId → c.playerId = some playerId →
      roomId = [] ∨ s.rooms.get? roomId = none) : (s.markClosed c.socket).Inv := by
  obtain ⟨hget, hopen⟩ := get?_live hc
  have howns : c.owns = none := by
    cases ho : c.owns with
    | none => rfl
    | some seat =>
      obtain ⟨roomId, id⟩ := seat
      have howner : s.owner c.socket = some (roomId, id) := by rw [Server.owner, hget]; exact ho
      have hseat := (h.seats roomId id c.socket).mpr howner
      simp only [Connection.owns, hopen, Bool.false_eq_true, if_false, Option.bind_eq_some_iff,
        Option.map_eq_some_iff, Prod.mk.injEq] at ho
      obtain ⟨r, hr, p, hp, rfl, rfl⟩ := ho
      rcases hout r p hr hp with hnil | hnone
      · exact absurd (hnil ▸ hr) (h.valid_get? hget).code
      · simp [Server.seatsOf, hnone] at hseat
  refine h.modifyConnection (fun d hd => ?_) (fun _ hv => ⟨hv.both, hv.code, fun _ => rfl⟩)
    fun _ _ _ _ _ hj hr => ⟨hj, hr⟩
  obtain rfl : c = d := Option.some.inj (hget.symm.trans hd)
  rw [howns]
  rfl

/-- The close of a joined connection: its player leaves the seats, and the process may be any
`t` that agrees on the rest. -/
theorem close (h : s.Inv) {c : Connection} {roomId : RoomId} {id : Uuid} {t : Server}
    (hc : s.live c.socket = some c) (hr : c.joinedRoomId = some roomId)
    (hp : c.playerId = some id)
    (hconn : t.connections = (s.markClosed c.socket).connections) (hwait : t.waiting = s.waiting)
    (hseats : ∀ r, t.seatsOf r =
      if r = roomId then (s.seatsOf r).filter (fun seat => seat.1 ≠ id) else s.seatsOf r)
    (hin : ∀ room ∈ t.rooms.rows, 0 < room.size ∧ room.size ≤ room.capacity)
    (hcodes : ∀ room ∈ t.rooms.rows, room.id ≠ []) : t.Inv := by
  obtain ⟨hget, hopen⟩ := get?_live hc
  have howner : s.owner c.socket = some (roomId, id) := by
    simp [Server.owner, hget, Connection.owns, hopen, hr, hp]
  have hafter : ∀ k, t.owner k = if k = c.socket then none else s.owner k := by
    intro k
    rw [← owner_markClosed, Server.owner, hconn]
    rfl
  refine ⟨fun r p k => ?_, hin, hcodes, fun d hd => ?_, fun w hw => ?_, hwait ▸ h.once⟩
  · have hold := h.seats r p k
    rw [hafter, hseats]
    by_cases hk : k = c.socket
    · subst hk
      rw [if_pos rfl]
      constructor
      · intro hm
        have hmem : (p, c.socket) ∈ s.seatsOf r ∧ (r = roomId → p ≠ id) := by
          split_ifs at hm with he
          · exact ⟨(List.mem_filter.mp hm).1, fun _ => by simpa using (List.mem_filter.mp hm).2⟩
          · exact ⟨hm, fun hr => absurd hr he⟩
        have hsame := howner.symm.trans (hold.mp hmem.1)
        obtain ⟨rfl, rfl⟩ := Prod.mk.inj (Option.some.inj hsame)
        exact absurd rfl (hmem.2 rfl)
      · intro hm
        cases hm
    · rw [if_neg hk]
      split_ifs with he
      · rw [List.mem_filter, hold]
        refine and_iff_left_of_imp fun ho => ?_
        rw [decide_eq_true_eq]
        intro hs
        obtain rfl := hs
        subst he
        exact hk (socket_unique ((h.seats _ _ _).mpr ho) ((h.seats _ _ _).mpr howner))
      · exact hold
  · rw [hconn] at hd
    obtain ⟨e, he, rfl⟩ := List.mem_map.mp hd
    have hv := h.valid e he
    split_ifs
    · exact ⟨hv.both, hv.code, fun _ => rfl⟩
    · exact hv
  · rw [hwait] at hw
    obtain ⟨d, hd, hj, hrn⟩ := h.awaits w hw
    have hne : w.call.socket ≠ c.socket := fun he => by
      rw [he, hget] at hd
      rw [← Option.some.inj hd, hr] at hrn
      cases hrn
    refine ⟨d, ?_, hj, hrn⟩
    rw [hconn, Server.markClosed, Server.get?_modifyConnection, if_neg hne, hd]

end Server.Inv

/-! ### Steps -/

theorem serverStep_inv [Runtime] {s t : Server} {env : Env} {input : ServerInput}
    {os : List Effect} {issued : List Uuid} (h : s.Inv)
    (hrun : ∀ room ∈ s.rooms.rows, RoomRun issued room) (hu : env.uuid ∉ issued)
    (he : ¬ AdmitsEmptyCode s input) (hs : ServerStep s env input t os) : t.Inv := by
  cases hs with
  | still _ => exact h
  | connect hsocket => exact h.connect _ hsocket
  | leaveOpen socket => exact h.leaveOpen socket
  | settle socket roomId answer => exact h.settle socket roomId answer
  | startJoin hc hr hj => exact h.startJoin hc hr hj _ _
  | play hroom hi hstep =>
    have hgame := (hrun _ (get?_eq_some.mp hroom).1).gameStep hstep
    obtain ⟨hid, hcap⟩ := gameStep_room hgame
    exact h.play hroom hid hcap (gameStep_seats hgame hi)
  | abandon _ => exact h.stopJoining _
  | refuse _ _ => exact (h.stopJoining _).leaveOpen _
  | ask hw _ => exact h.ask hw _ _
  | @seat w identity nickname room _ hw hopen hroom hfull ht _ _ =>
    subst ht
    have hseated : s.seatsOf room.id = room.seats ∧ room.id ≠ [] ∧
        env.uuid ∉ room.players.keys := by
      rcases hroom with hroom | ⟨hnone, hnew, hgranted⟩
      · have hmem := (get?_eq_some.mp hroom).1
        exact ⟨Server.seatsOf_of_room hroom, h.codes room hmem,
          fun hk => hu ((hrun room hmem).keys_issued _ hk)⟩
      · have hempty : room.players = Table.empty := by rw [hnew]; rfl
        exact ⟨by simp [Server.seatsOf, hnone, Room.seats, hempty],
          fun hcode => he ⟨hopen, w, hw, rfl, hcode ▸ hgranted⟩, by simp [hempty]⟩
    exact h.seat hw hopen hseated.2.1 hseated.1 hfull (seatPlayer_id _ _)
      (by rw [Room.seatPlayer_eq]) (seats_seatPlayer hseated.2.2)
  | closeOut hc hout => exact h.closeOut hc hout
  | @closeMember c room t playerId ls _ hc hr hp hroom hl hsize _ =>
    have hmem := (get?_eq_some.mp hroom).1
    have hstep : roomStep ((s.markClosed c.socket).see env) room (.leave playerId) = some (t, ls) :=
      congrArg some hl
    have hgame := (hrun room hmem).gameStep hstep
    obtain ⟨hid, hcap⟩ := gameStep_room hgame
    have hseats := gameStep_leave_seats hgame
    refine h.close hc hr hp rfl rfl (fun r => ?_) (fun r hr => ?_) fun r hr => ?_
    · rw [Server.seatsOf_setRoom, hid, hseats]
      split_ifs with hk
      · rw [hk, Server.seatsOf_of_room hroom]
      · rfl
    · rcases rows_setRoom hr with rfl | hr
      · refine ⟨Nat.pos_of_ne_zero hsize, ?_⟩
        rw [hcap, ← Room.length_seats, hseats]
        refine (List.length_filter_le _ _).trans ?_
        rw [Room.length_seats]
        exact (h.inhabited room hmem).2
      · exact h.inhabited r hr
    · rcases rows_setRoom hr with rfl | hr
      · rw [hid]
        exact h.codes room hmem
      · exact h.codes r hr
  | @closeLast c room t playerId ls _ _ hc hr hp hroom hl hsize _ _ =>
    have hstep : roomStep ((s.markClosed c.socket).see env) room (.leave playerId) = some (t, ls) :=
      congrArg some hl
    have hseats := gameStep_leave_seats ((hrun room (get?_eq_some.mp hroom).1).gameStep hstep)
    rw [← Room.length_seats, List.length_eq_zero_iff, hseats] at hsize
    refine h.close hc hr hp rfl rfl (fun r => ?_) (fun r hr => ?_) fun r hr => ?_
    · simp only [Server.seatsOf, get?_erase]
      split_ifs with hk
      · rw [hk, hroom]
        exact hsize.symm
      · rfl
    · exact h.inhabited r (List.mem_of_mem_filter hr)
    · exact h.codes r (List.mem_of_mem_filter hr)

theorem Server.Inv.issue {s : Server} (h : s.Inv) (issued : List Uuid) :
    ({ s with issued := issued } : Server).Inv :=
  ⟨h.seats, h.inhabited, h.codes, h.valid, h.awaits, h.once⟩

theorem newServer_inv (self : ShardIdentity) : (newServer self).Inv where
  seats _ _ _ := by simp [Server.seatsOf, Server.owner, newServer, Table.get?]
  inhabited _ hr := absurd hr List.not_mem_nil
  codes _ hr := absurd hr List.not_mem_nil
  valid _ hc := absurd hc List.not_mem_nil
  awaits _ hw := absurd hw List.not_mem_nil
  once := List.nodup_nil

/-! ### What it says of the lists of players and connections -/

namespace Server

def players (s : Server) : List (RoomId × Uuid × SocketId) :=
  s.rooms.rows.flatMap fun room => room.seats.map fun seat => (room.id, seat)

/-- The joined connections whose close has not been handled. -/
def joined (s : Server) : List (RoomId × Uuid × SocketId) :=
  s.connections.rows.filterMap fun c => c.owns.map fun o => (o.1, o.2, c.socket)

/-- Connections and players correspond, and the rooms are neither empty nor overfull. -/
structure Tidy (s : Server) : Prop where
  one_to_one : s.players.Perm s.joined
  single : (s.players.map fun p => p.2.2).Nodup
  inhabited : ∀ room ∈ s.rooms.rows, 1 ≤ room.size ∧ room.size ≤ room.capacity
  total : s.totalConnections = s.joined.length
  gone : ∀ c ∈ s.connections.rows, c.closed = true →
    ∀ room ∈ s.rooms.rows, ∀ p ∈ room.players.rows, p.socket ≠ c.socket

theorem mem_players {s : Server} {roomId : RoomId} {id : Uuid} {socket : SocketId} :
    (roomId, id, socket) ∈ s.players ↔ (id, socket) ∈ s.seatsOf roomId := by
  simp only [players, List.mem_flatMap, List.mem_map, Prod.mk.injEq]
  constructor
  · intro hs
    obtain ⟨room, hroom, seat, hseat, rfl, rfl⟩ := hs
    rwa [seatsOf_of_room (get?_of_mem hroom)]
  · intro h
    unfold seatsOf at h
    cases hroom : s.rooms.get? roomId with
    | none => simp [hroom] at h
    | some room =>
      obtain ⟨hmem, hid⟩ := get?_eq_some.mp hroom
      rw [hroom] at h
      exact ⟨room, hmem, _, h, hid, rfl⟩

theorem mem_joined {s : Server} {roomId : RoomId} {id : Uuid} {socket : SocketId} :
    (roomId, id, socket) ∈ s.joined ↔ s.owner socket = some (roomId, id) := by
  simp only [joined, List.mem_filterMap, Option.map_eq_some_iff, Prod.mk.injEq, owner,
    Option.bind_eq_some_iff]
  constructor
  · intro h
    obtain ⟨c, hc, o, ho, rfl, rfl, rfl⟩ := h
    exact ⟨c, get?_of_mem hc, ho⟩
  · intro h
    obtain ⟨c, hc, ho⟩ := h
    obtain ⟨hmem, rfl⟩ := get?_eq_some.mp hc
    exact ⟨c, hmem, _, ho, rfl, rfl, rfl⟩

theorem players_nodup (s : Server) : s.players.Nodup := by
  refine List.nodup_flatMap.mpr ⟨fun room _ => ?_, ?_⟩
  · have hnd : (room.seats.map Prod.fst).Nodup := by
      rw [Room.map_fst_seats]
      exact keys_nodup _
    exact (List.Nodup.of_map _ hnd).map fun a b hab => (Prod.mk.inj hab).2
  · refine (List.pairwise_map.mp s.rooms.nodup).imp fun hne => ?_
    intro p hp hq
    obtain ⟨_, -, rfl⟩ := List.mem_map.mp hp
    obtain ⟨_, -, heq⟩ := List.mem_map.mp hq
    exact hne (Prod.mk.inj heq).1.symm

theorem joined_sockets_nodup (s : Server) : (s.joined.map fun p => p.2.2).Nodup := by
  have hsub : (s.joined.map fun p => p.2.2).Sublist s.connections.keys := by
    unfold joined Table.keys
    induction s.connections.rows with
    | nil => exact .slnil
    | cons c rows ih =>
      cases ho : c.owns with
      | none => simpa [ho] using ih.cons c.socket
      | some o => simpa [ho] using ih.cons_cons c.socket
  exact (keys_nodup _).sublist hsub

theorem length_players (s : Server) : s.players.length = s.totalConnections := by
  simp [players, totalConnections, List.length_flatMap, Room.length_seats]

theorem Inv.tidy {s : Server} (h : s.Inv) : s.Tidy := by
  have hperm : s.players.Perm s.joined := by
    refine (List.perm_ext_iff_of_nodup s.players_nodup
      (List.Nodup.of_map _ s.joined_sockets_nodup)).mpr fun ⟨roomId, id, socket⟩ => ?_
    rw [mem_players, mem_joined]
    exact h.seats roomId id socket
  refine ⟨hperm, (hperm.map _).nodup_iff.mpr s.joined_sockets_nodup, h.inhabited,
    s.length_players.symm.trans hperm.length_eq, ?_⟩
  intro c hc hclosed room hroom p hp he
  have hseat : (p.id, p.socket) ∈ s.seatsOf room.id := by
    rw [seatsOf_of_room (get?_of_mem hroom)]
    exact List.mem_map_of_mem hp
  rw [h.seats, he, owner, get?_of_mem hc] at hseat
  simp [Connection.owns, hclosed] at hseat

end Server

section
variable [Runtime] {self : ShardIdentity}

abbrev EmptyCodeRefused (s : Server) (i : Env × ServerInput) : Prop := ¬ AdmitsEmptyCode s i.2

theorem server_inv {s : Server}
    (hr : Machine.Reachable ((serverSystem self).restrict EmptyCodeRefused) s) : s.Inv := by
  refine hr.invariant_of (J := fun s => ∀ room ∈ s.rooms.rows, RoomRun s.issued room)
    (fun s hr => server_room_reachable hr.of_restrict) ?_ ?_
  · intro s h
    obtain rfl := h
    exact newServer_inv self
  · intro s i t os hrun h hstep
    obtain ⟨he, hs⟩ := hstep
    obtain ⟨hu, u, hstep, rfl⟩ := server_step hs
    exact (serverStep_inv h hrun hu he hstep).issue _

/-- As long as no join of the empty code is admitted, connections and players correspond. -/
theorem server_tidy (self : ShardIdentity) (s : Server)
    (hr : Machine.Reachable ((serverSystem self).restrict EmptyCodeRefused) s) : s.Tidy :=
  (server_inv hr).tidy

end

theorem joinClose_tidy : ∃ s os,
    Machine.Run ((@serverSystem plainRuntime ⟨utf16 "4001", utf16 "localhost", 4001⟩).restrict
      EmptyCodeRefused)
      (numbered (joinEvents 0 "AB3DE" ++ [.connect 1 (.ok none), .message 1 (joinFrame "AB3DE"),
        .resume 1, .close 0])) s os ∧ s.joined.length = 1 ∧ s.Tidy :=
  ⟨_, _, Machine.exec_restrict_run (by decide +kernel), by decide +kernel,
    @server_tidy plainRuntime _ _ ⟨_, _, Machine.exec_restrict_run (by decide +kernel)⟩⟩

/-- A player of the room with the empty code stays when the connection closes. -/
theorem emptyCode_ghost : ∃ s os,
    Machine.Run (@serverSystem plainRuntime ⟨utf16 "4001", utf16 "localhost", 4001⟩)
      (numbered (joinEvents 0 "-" ++ [.close 0])) s os ∧
    s.totalConnections = 1 ∧ s.joined = [] ∧ ¬ s.Tidy :=
  ⟨_, _, Machine.exec_get_run (by decide +kernel), by decide +kernel, by decide +kernel,
    fun h => absurd h.total (by decide +kernel)⟩

end GachaMind.GameSession
