import GachaMind.GameSession.Messages
import GachaMind.GameSession.ServerRooms

/-!
# One frame

A client may send any JSON value, or none at all. `frameSegments` runs everything that
one frame sets off: `handleMessage`, and for a join the parts of `handleJoin` after its
two awaits, each in the state of its moment. `Harmless` says that nothing throws and that
a frame of no message type changes no room; `FrameSafe` says for which frames and states
this is so.
-/

namespace GachaMind.GameSession
open GachaMind.Js GachaMind.Shared KeyedTable

/-! ### What one frame sets off -/

structure Moment where
  server : Server
  env : Env

/-- One part of a handler: the process before it and what became of it. -/
abbrev Segment := Server × Except JsError (Server × List Effect)

/-- The joins that a part of a handler leaves waiting. -/
def Segment.waits (q : Segment) : List Waiting :=
  match q.2 with
  | .ok (t, _) => t.waiting.drop q.1.waiting.length
  | .error _ => []

section
variable [Runtime]

/-- A waiting join goes on, after its check, if it waits for one, has given `answer`. -/
def Moment.goOn (m : Moment) (answer : Bool) (w : Waiting) : List Segment :=
  let s := m.server.without w.call.socket
  ((s.goOn m.env (w.answered answer)).map fun r => (s, r)).toList

/-- All that a frame of connection `c` sets off: it arrives at `m₁`, the identity of `c` is known
at `m₂` and the answer of `isRoomAssignedHere` at `m₃`. -/
def frameSegments (m₁ m₂ m₃ : Moment) (c : Connection) (raw : Option Json) (answer : Bool) :
    List Segment :=
  let first : Segment := (m₁.server, m₁.server.handleMessage m₁.env c raw)
  let second := first.waits.flatMap (m₂.goOn answer)
  let third := (second.flatMap Segment.waits).flatMap (m₃.goOn answer)
  first :: second ++ third

end

/-- The part of a handler ended without an exception and, if the frame is of no message type,
with the rooms as they were. -/
def Segment.Harmless (raw : Option Json) (q : Segment) : Prop :=
  ∃ t os, q.2 = .ok (t, os) ∧ (¬ WellFormed raw → t.rooms = q.1.rooms)

/-! ### The frames that do no harm -/

/-- `handleJoin` would seat the player, if the nickname is a string. -/
def FindsSeat (m₂ m₃ : Moment) (socket : SocketId) (roomId : RoomId) (answer : Bool) : Prop :=
  match m₂.server.rooms.get? roomId with
  | some room => room.isFull = false
  | none => answer = true ∧ m₃.server.isOpen socket = true ∧
      ∀ room, m₃.server.rooms.get? roomId = some room → room.isFull = false

/-- A join that starts has a string for every value that `handleJoin` gets to read. -/
def JoinSafe [Runtime] (m₂ m₃ : Moment) (c : Connection) (v : Json) (answer : Bool) : Prop :=
  (∃ identity, c.identity = .ok identity) ∧
    (m₂.server.isOpen c.socket = true → ∃ text, v.field (utf16 "roomId") = some (.str text) ∧
      (FindsSeat m₂ m₃ c.socket (normalizeRoomCode text) answer →
        isText (v.field (utf16 "nickname")) = true))

/-- The text of a member's chat is a string. A stroke that the drawer's room would keep is a
stroke, or can be converted and finds the buffer full. -/
def MemberSafe (m₁ : Moment) (c : Connection) (v : Json) : Prop :=
  ∀ room id, c.joinedRoomId = some room.id → room.id ≠ [] → c.playerId = some id →
    m₁.server.rooms.get? room.id = some room →
    (isString (v.field (utf16 "type")) (utf16 "chat") = true → id ∈ room.players.keys →
      isText (v.field (utf16 "text")) = true) ∧
    (isString (v.field (utf16 "type")) (utf16 "draw") = true → room.phase = .playing →
      room.drawerId = some id → strokePoints (v.field (utf16 "stroke")) ≠ [] →
      isStroke (v.field (utf16 "stroke")) = true ∨
        (printable (strokeColor (v.field (utf16 "stroke"))) = true ∧
          (strokeField (v.field (utf16 "stroke")) "width").all printable = true ∧
          MAX_BUFFERED_STROKES ≤ room.strokes.length))

def FrameSafe [Runtime] (m₁ m₂ m₃ : Moment) (c : Connection) (raw : Option Json)
    (answer : Bool) : Prop :=
  ∀ v, raw = some v → v.isNull = false ∧
    if isString (v.field (utf16 "type")) (utf16 "join") = true then
      truthy c.joinedRoomId = false → c.joining = false → JoinSafe m₂ m₃ c v answer
    else MemberSafe m₁ c v

/-! ### Parts of a handler -/

theorem harmless_ok {raw : Option Json} {s t : Server} {os : List Effect} :
    Segment.Harmless raw (s, .ok (t, os)) ↔ (¬ WellFormed raw → t.rooms = s.rooms) := by
  constructor
  · intro h
    obtain ⟨u, ps, he, hu⟩ := h
    cases he
    exact hu
  · exact fun h => ⟨t, os, rfl, h⟩

theorem harmless_of_rooms {raw : Option Json} {s t : Server} {os : List Effect}
    (h : t.rooms = s.rooms) : Segment.Harmless raw (s, .ok (t, os)) :=
  harmless_ok.mpr fun _ => h

theorem not_harmless_error {raw : Option Json} {s : Server} {e : JsError} :
    ¬ Segment.Harmless raw (s, .error e) := by
  intro h
  obtain ⟨t, os, he, -⟩ := h
  cases he

theorem setRoom_self {s : Server} {room : Room} (h : s.rooms.get? room.id = some room) :
    (s.setRoom room).rooms = s.rooms :=
  set_self h

theorem addStroke_rooms {s : Server} {room : Room} (hroom : s.rooms.get? room.id = some room)
    (stroke : StrokeSegment) : (s.setRoom (room.addStroke stroke)).rooms = s.rooms ↔
      MAX_BUFFERED_STROKES ≤ room.strokes.length := by
  unfold Room.addStroke
  split_ifs with hfull
  · exact iff_of_true (setRoom_self hroom) hfull
  · refine iff_of_false (fun h => ?_) hfull
    have hget : (s.setRoom { room with strokes := room.strokes ++ [stroke] }).rooms.get? room.id =
        some { room with strokes := room.strokes ++ [stroke] } := by
      rw [Server.setRoom, get?_set, if_pos rfl]
    rw [h, hroom] at hget
    have hlen := congrArg (fun r => r.strokes.length) (Option.some.inj hget)
    simp at hlen

section Member
variable [Runtime] {s : Server} {env : Env} {room : Room} {id : Uuid} {v : Json}

def memberSegment (s : Server) (env : Env) (room : Room) (id : Uuid) (v : Json) : Segment :=
  (s, do
    let r ← Server.memberMessage env room id v
    return (s.setRoom r.1, r.2))

theorem chat_harmless_iff (hroom : s.rooms.get? room.id = some room)
    (hchat : isString (v.field (utf16 "type")) (utf16 "chat") = true) :
    (memberSegment s env room id v).Harmless (some v) ↔
      (id ∈ room.players.keys → isText (v.field (utf16 "text")) = true) := by
  have hjoin := isString_other hchat (show utf16 "chat" ≠ utf16 "join" by decide)
  have hwf : WellFormed (some v) ↔ isText (v.field (utf16 "text")) = true := by
    rw [wellFormed_some, isClientMessage]
    simp only [hjoin, hchat, if_true, Bool.false_eq_true, if_false]
  simp only [memberSegment, Server.memberMessage, hchat, if_true, handleChat]
  cases hp : room.players.get? id with
  | none =>
    refine iff_of_true (harmless_of_rooms (setRoom_self hroom)) fun hk => ?_
    exact absurd hk (get?_eq_none.mp hp)
  | some player =>
    have hk := mem_keys_of_get? hp
    by_cases ht : isText (v.field (utf16 "text")) = true
    · obtain ⟨text, htext⟩ := isText_iff.mp ht
      rw [htext]
      exact iff_of_true (harmless_ok.mpr fun hno => absurd (hwf.mpr ht) hno) fun _ => ht
    · rw [asString_error ht]
      exact iff_of_false not_harmless_error fun h => ht (h hk)

theorem draw_harmless_iff (hroom : s.rooms.get? room.id = some room)
    (hdraw : isString (v.field (utf16 "type")) (utf16 "draw") = true) :
    (memberSegment s env room id v).Harmless (some v) ↔
      (room.phase = .playing → room.drawerId = some id →
        strokePoints (v.field (utf16 "stroke")) ≠ [] →
        isStroke (v.field (utf16 "stroke")) = true ∨
          (printable (strokeColor (v.field (utf16 "stroke"))) = true ∧
            (strokeField (v.field (utf16 "stroke")) "width").all printable = true ∧
            MAX_BUFFERED_STROKES ≤ room.strokes.length)) := by
  have hjoin := isString_other hdraw (show utf16 "draw" ≠ utf16 "join" by decide)
  have hchat := isString_other hdraw (show utf16 "draw" ≠ utf16 "chat" by decide)
  have hwf : WellFormed (some v) ↔ isStroke (v.field (utf16 "stroke")) = true := by
    rw [wellFormed_some, isClientMessage]
    simp only [hjoin, hchat, hdraw, if_true, Bool.false_eq_true, if_false]
  simp only [memberSegment, Server.memberMessage, hchat, hdraw, if_true, Bool.false_eq_true,
    if_false, handleDraw]
  split_ifs with hguard hnil
  · refine iff_of_true (harmless_of_rooms (setRoom_self hroom)) fun hp hd => ?_
    exact absurd hguard (by simp [hp, hd])
  · exact iff_of_true (harmless_of_rooms (setRoom_self hroom)) fun _ _ hne => absurd hnil hne
  · have hin : room.phase = .playing ∧ room.drawerId = some id := by simpa using hguard
    simp only [hin.1, hin.2, ne_eq, hnil, not_false_eq_true, forall_const]
    cases hs : sanitizeStroke (v.field (utf16 "stroke")) with
    | error e =>
      have hno : ¬ (printable (strokeColor (v.field (utf16 "stroke"))) = true ∧
          (strokeField (v.field (utf16 "stroke")) "width").all printable = true) := by
        rw [← sanitizeStroke_ok_iff, hs]
        simp
      refine iff_of_false not_harmless_error fun h => hno ?_
      rcases h with h | h
      · exact stroke_printable h
      · exact ⟨h.1, h.2.1⟩
    | ok stroke =>
      have hyes := (sanitizeStroke_ok_iff _).mp ⟨stroke, hs⟩
      have hrooms := addStroke_rooms hroom stroke
      refine harmless_ok.trans ?_
      rw [hwf, hrooms]
      simp only [hyes.1, hyes.2, true_and]
      tauto

theorem other_harmless (hroom : s.rooms.get? room.id = some room)
    (hjoin : isString (v.field (utf16 "type")) (utf16 "join") = false)
    (hchat : isString (v.field (utf16 "type")) (utf16 "chat") = false)
    (hdraw : isString (v.field (utf16 "type")) (utf16 "draw") = false) :
    (memberSegment s env room id v).Harmless (some v) := by
  have hwf : WellFormed (some v) ↔ isString (v.field (utf16 "type")) (utf16 "draw-clear") = true ∨
      isString (v.field (utf16 "type")) (utf16 "start-game") = true := by
    rw [wellFormed_some, isClientMessage]
    simp only [hjoin, hchat, hdraw, Bool.false_eq_true, if_false, Bool.or_eq_true]
  simp only [memberSegment, Server.memberMessage, hchat, hdraw, Bool.false_eq_true, if_false]
  split_ifs with hclear hstart
  · exact harmless_ok.mpr fun hno => absurd (hwf.mpr (.inl hclear)) hno
  · exact harmless_ok.mpr fun hno => absurd (hwf.mpr (.inr hstart)) hno
  · exact harmless_of_rooms (setRoom_self hroom)

theorem memberSegment_harmless_iff (hroom : s.rooms.get? room.id = some room)
    (hjoin : isString (v.field (utf16 "type")) (utf16 "join") = false) :
    (memberSegment s env room id v).Harmless (some v) ↔
      (isString (v.field (utf16 "type")) (utf16 "chat") = true → id ∈ room.players.keys →
        isText (v.field (utf16 "text")) = true) ∧
      (isString (v.field (utf16 "type")) (utf16 "draw") = true → room.phase = .playing →
        room.drawerId = some id → strokePoints (v.field (utf16 "stroke")) ≠ [] →
        isStroke (v.field (utf16 "stroke")) = true ∨
          (printable (strokeColor (v.field (utf16 "stroke"))) = true ∧
            (strokeField (v.field (utf16 "stroke")) "width").all printable = true ∧
            MAX_BUFFERED_STROKES ≤ room.strokes.length)) := by
  cases hchat : isString (v.field (utf16 "type")) (utf16 "chat") with
  | true =>
    have hdraw := isString_other hchat (show utf16 "chat" ≠ utf16 "draw" by decide)
    rw [chat_harmless_iff hroom hchat, hdraw]
    simp
  | false =>
    cases hdraw : isString (v.field (utf16 "type")) (utf16 "draw") with
    | true =>
      rw [draw_harmless_iff hroom hdraw]
      simp
    | false => exact iff_of_true (other_harmless hroom hjoin hchat hdraw) (by simp)

end Member

/-! ### Joins -/

theorem enter_ok (u : Server) (env : Env) {call : JoinCall} {identity : Option Identity}
    (roomId : RoomId) {room : Room} {nickname : JsString} (hf : room.isFull = false)
    (hn : Server.joinNickname identity call.nickname = .ok nickname) :
    ∃ t os, u.enter env call identity roomId room = .ok (t, os) ∧ t.waiting = u.waiting ∧
      t.rooms =
        u.rooms.set (seatPlayer room (joiningPlayer env call.socket identity nickname)) := by
  simp only [Server.enter, hf, Bool.false_eq_true, if_false, hn]
  exact ⟨_, _, rfl, rfl, rfl⟩

theorem enter_harmless_iff {base u : Server} {env : Env} {call : JoinCall}
    {identity : Option Identity} {roomId : RoomId} {room : Room} {v : Json}
    (hfull : room.isFull = true → u.rooms = base.rooms)
    (hbase : ∀ r, base.rooms.get? room.id = some r → r = room)
    (hfresh : env.uuid ∉ room.players.keys)
    (hwf : WellFormed (some v) ↔ isText call.nickname = true) :
    Segment.Harmless (some v) (base, u.enter env call identity roomId room) ↔
      (room.isFull = false → isText call.nickname = true) := by
  cases hf : room.isFull with
  | true =>
    simp only [Server.enter, hf, if_true]
    exact iff_of_true (harmless_of_rooms (hfull hf)) fun h => by cases h
  | false =>
    simp only [forall_const]
    by_cases ht : isText call.nickname = true
    · obtain ⟨text, htext⟩ := isText_iff.mp ht
      have hn : ∃ nickname, Server.joinNickname identity call.nickname = .ok nickname := by
        cases identity with
        | none => exact ⟨text, htext⟩
        | some who => exact ⟨_, rfl⟩
      obtain ⟨nickname, hn⟩ := hn
      obtain ⟨t, os, henter, -, -⟩ := enter_ok u env roomId hf hn
      rw [henter]
      exact iff_of_true (harmless_ok.mpr fun hno => absurd (hwf.mpr ht) hno) ht
    · refine iff_of_false (fun h => ?_) ht
      cases identity with
      | none =>
        simp only [Server.enter, hf, Bool.false_eq_true, if_false, Server.joinNickname,
          asString_error ht] at h
        exact not_harmless_error h
      | some who =>
        have hn : Server.joinNickname (some who) call.nickname = .ok who.nickname := rfl
        obtain ⟨t, os, henter, -, hrooms⟩ := enter_ok u env roomId hf hn
        rw [henter] at h
        have hsame := harmless_ok.mp h fun hyes => ht (hwf.mp hyes)
        have hid := seatPlayer_id room (joiningPlayer env call.socket (some who) who.nickname)
        have hget : t.rooms.get? room.id =
            some (seatPlayer room (joiningPlayer env call.socket (some who) who.nickname)) := by
          rw [hrooms, get?_set, if_pos hid.symm]
        rw [hsame] at hget
        have hsize := congrArg Room.size (hbase _ hget)
        rw [Room.size_seatPlayer hfresh] at hsize
        omega

theorem waits_nil {s t : Server} {os : List Effect} (h : t.waiting = s.waiting) :
    Segment.waits (s, .ok (t, os)) = [] := by
  simp [Segment.waits, h]

theorem waits_append {s t : Server} {os : List Effect} {w : Waiting}
    (h : t.waiting = s.waiting ++ [w]) : Segment.waits (s, .ok (t, os)) = [w] := by
  simp [Segment.waits, h]

theorem enter_waits {base u : Server} {env : Env} {call : JoinCall} {identity : Option Identity}
    {roomId : RoomId} {room : Room} (hu : u.waiting = base.waiting) :
    Segment.waits (base, u.enter env call identity roomId room) = [] := by
  cases hf : room.isFull with
  | true =>
    simp only [Server.enter, hf, if_true]
    exact waits_nil hu
  | false =>
    cases hn : Server.joinNickname identity call.nickname with
    | error e =>
      simp only [Server.enter, hf, Bool.false_eq_true, if_false, hn]
      rfl
    | ok nickname =>
      obtain ⟨t, os, henter, hwait, -⟩ := enter_ok u env roomId hf hn
      rw [henter]
      exact waits_nil (hwait.trans hu)

section Parts
variable {v : Json}

theorem wellFormed_join (call : JoinCall)
    (hjoin : isString (v.field (utf16 "type")) (utf16 "join") = true)
    (hcall : call.nickname = v.field (utf16 "nickname"))
    (htext : isText (v.field (utf16 "roomId")) = true) :
    WellFormed (some v) ↔ isText call.nickname = true := by
  rw [wellFormed_some, isClientMessage, hcall]
  simp only [hjoin, if_true, htext, Bool.true_and]

theorem afterAssignment_harmless_iff {s : Server} {env : Env} {call : JoinCall}
    {identity : Option Identity} {roomId : RoomId} {answer : Bool}
    (hfresh : ∀ room ∈ s.rooms.rows, env.uuid ∉ room.players.keys)
    (hwf : WellFormed (some v) ↔ isText call.nickname = true) :
    Segment.Harmless (some v) (s, s.afterAssignment env call identity roomId answer) ↔
      (answer = true ∧ s.isOpen call.socket = true ∧
        (∀ room, s.rooms.get? roomId = some room → room.isFull = false) →
        isText call.nickname = true) := by
  unfold Server.afterAssignment
  cases answer with
  | false => exact iff_of_true (harmless_of_rooms rfl) fun h => absurd h.1 (by decide)
  | true =>
    cases hopen : s.isOpen call.socket with
    | false => exact iff_of_true (harmless_of_rooms rfl) fun h => absurd h.2.1 (by decide)
    | true =>
      simp only [Bool.not_true, Bool.false_eq_true, if_false, true_and]
      unfold Server.getOrCreate
      cases hroom : s.rooms.get? roomId with
      | some room =>
        obtain ⟨hmem, hid⟩ := get?_eq_some.mp hroom
        have hbase : ∀ r, s.rooms.get? room.id = some r → r = room := by
          intro r hr
          rw [hid, hroom] at hr
          exact (Option.some.inj hr).symm
        have henter : Segment.Harmless (some v) (s, s.enter (s.see env) call identity roomId room) ↔
            (room.isFull = false → isText call.nickname = true) :=
          enter_harmless_iff (fun _ => rfl) hbase (hfresh room hmem) hwf
        refine henter.trans ?_
        simp
      | none =>
        have hnot : (newRoom roomId DEFAULT_ROOM_CAPACITY).isFull = false := rfl
        have hbase : ∀ r, s.rooms.get? (newRoom roomId DEFAULT_ROOM_CAPACITY).id = some r →
            r = newRoom roomId DEFAULT_ROOM_CAPACITY := by
          intro r hr
          rw [show (newRoom roomId DEFAULT_ROOM_CAPACITY).id = roomId from rfl, hroom] at hr
          cases hr
        have hempty : (s.see env).uuid ∉
            (newRoom roomId DEFAULT_ROOM_CAPACITY).players.keys := List.not_mem_nil
        have hfull : (newRoom roomId DEFAULT_ROOM_CAPACITY).isFull = true →
            (s.setRoom (newRoom roomId DEFAULT_ROOM_CAPACITY)).rooms = s.rooms := by
          rw [hnot]
          exact fun h => by cases h
        refine (enter_harmless_iff hfull hbase hempty hwf).trans ?_
        simp [hnot]

theorem ends_iff {raw : Option Json} {q : Segment} {f : Waiting → List Segment}
    (h : q.waits = []) : (∀ p ∈ [q] ++ ([q].flatMap Segment.waits).flatMap f, p.Harmless raw) ↔
      q.Harmless raw := by
  simp [h]

theorem goesOn_iff {raw : Option Json} {q r : Segment} {f : Waiting → List Segment} {w : Waiting}
    (h : q.waits = [w]) (hf : f w = [r]) (hq : q.Harmless raw) :
    (∀ p ∈ [q] ++ ([q].flatMap Segment.waits).flatMap f, p.Harmless raw) ↔ r.Harmless raw := by
  simp [h, hf, hq]

variable [Runtime]

theorem seek_harmless_iff {m₂ m₃ : Moment} {call : JoinCall} {identity : Option Identity}
    {text : JsString} {answer : Bool} (hi : call.identity = .ok identity)
    (ho : m₂.server.isOpen call.socket = true) (ht : asString call.roomId = .ok text)
    (hwf : WellFormed (some v) ↔ isText call.nickname = true)
    (hfresh₂ : ∀ room ∈ m₂.server.rooms.rows, m₂.env.uuid ∉ room.players.keys)
    (hfresh₃ : ∀ room ∈ m₃.server.rooms.rows, m₃.env.uuid ∉ room.players.keys) :
    (∀ q ∈ m₂.goOn answer (.identity call) ++
        ((m₂.goOn answer (.identity call)).flatMap Segment.waits).flatMap (m₃.goOn answer),
      q.Harmless (some v)) ↔
    (FindsSeat m₂ m₃ call.socket (normalizeRoomCode text) answer →
      isText call.nickname = true) := by
  obtain ⟨s, hs⟩ : ∃ s, s = m₂.server.without call.socket := ⟨_, rfl⟩
  have hrooms : s.rooms = m₂.server.rooms := by rw [hs]; rfl
  have hopen : s.isOpen call.socket = true := by rw [hs]; exact ho
  have hsecond : m₂.goOn answer (.identity call) = [(s, s.afterIdentity m₂.env call)] := by
    rw [hs]
    rfl
  have hpart := afterIdentity_room m₂.env hi hopen ht
  rw [hsecond, FindsSeat, ← hrooms]
  cases hroom : s.rooms.get? (normalizeRoomCode text) with
  | some room =>
    rw [hroom] at hpart
    obtain ⟨hmem, hid⟩ := get?_eq_some.mp hroom
    have hbase : ∀ r, s.rooms.get? room.id = some r → r = room := by
      intro r hr
      rw [hid, hroom] at hr
      exact (Option.some.inj hr).symm
    have hwaits : Segment.waits (s, s.afterIdentity m₂.env call) = [] := by
      rw [hpart]
      exact enter_waits rfl
    have henter : Segment.Harmless (some v)
        (s, s.enter (s.see m₂.env) call identity (normalizeRoomCode text) room) ↔
          (room.isFull = false → isText call.nickname = true) :=
      enter_harmless_iff (fun _ => rfl) hbase (hfresh₂ room (hrooms ▸ hmem)) hwf
    rw [ends_iff hwaits, hpart, henter]
  | none =>
    rw [hroom] at hpart
    have hwaits : Segment.waits (s, s.afterIdentity m₂.env call) =
        [.assignment call identity (normalizeRoomCode text) none] := by
      rw [hpart]
      exact waits_append rfl
    have hthird : m₃.goOn answer (.assignment call identity (normalizeRoomCode text) none) =
        [(m₃.server.without call.socket, (m₃.server.without call.socket).afterAssignment m₃.env
          call identity (normalizeRoomCode text) answer)] := by
      simp [Moment.goOn, Waiting.answered, Waiting.call, Server.goOn]
    have hask : Segment.Harmless (some v) (s, s.afterIdentity m₂.env call) := by
      rw [hpart]
      exact harmless_of_rooms rfl
    have hfresh : ∀ room ∈ (m₃.server.without call.socket).rooms.rows,
        m₃.env.uuid ∉ room.players.keys := hfresh₃
    rw [goesOn_iff hwaits hthird hask, afterAssignment_harmless_iff hfresh hwf]
    rfl

theorem join_harmless_iff (m₂ m₃ : Moment) (call : JoinCall) (answer : Bool)
    (hjoin : isString (v.field (utf16 "type")) (utf16 "join") = true)
    (hroomId : call.roomId = v.field (utf16 "roomId"))
    (hnickname : call.nickname = v.field (utf16 "nickname"))
    (hfresh₂ : ∀ room ∈ m₂.server.rooms.rows, m₂.env.uuid ∉ room.players.keys)
    (hfresh₃ : ∀ room ∈ m₃.server.rooms.rows, m₃.env.uuid ∉ room.players.keys) :
    (∀ q ∈ m₂.goOn answer (.identity call) ++
        ((m₂.goOn answer (.identity call)).flatMap Segment.waits).flatMap (m₃.goOn answer),
      q.Harmless (some v)) ↔
    (∃ identity, call.identity = .ok identity) ∧
      (m₂.server.isOpen call.socket = true → ∃ text, v.field (utf16 "roomId") = some (.str text) ∧
        (FindsSeat m₂ m₃ call.socket (normalizeRoomCode text) answer →
          isText (v.field (utf16 "nickname")) = true)) := by
  -- the three ways in which the part after the identity ends the join at once
  have hends : ∀ r : Except JsError (Server × List Effect),
      (m₂.server.without call.socket).afterIdentity m₂.env call = r →
      Segment.waits (m₂.server.without call.socket, r) = [] →
      ((∀ q ∈ m₂.goOn answer (.identity call) ++
          ((m₂.goOn answer (.identity call)).flatMap Segment.waits).flatMap (m₃.goOn answer),
        q.Harmless (some v)) ↔ Segment.Harmless (some v) (m₂.server.without call.socket, r)) := by
    intro r hr hwaits
    subst hr
    exact ends_iff hwaits
  cases hi : call.identity with
  | error e =>
    have hpart : (m₂.server.without call.socket).afterIdentity m₂.env call = .error e := by
      simp only [Server.afterIdentity, hi]
      rfl
    rw [hends _ hpart rfl]
    exact iff_of_false not_harmless_error fun h => by simpa using h.1
  | ok identity =>
    have hidentity : ∃ who, (Except.ok identity : Except JsError _) = .ok who := ⟨identity, rfl⟩
    refine Iff.trans ?_ (and_iff_right hidentity).symm
    cases ho : m₂.server.isOpen call.socket with
    | false =>
      have hpart : (m₂.server.without call.socket).afterIdentity m₂.env call =
          .ok ((m₂.server.without call.socket).setJoining call.socket false, []) := by
        have hclosed : (m₂.server.without call.socket).isOpen call.socket = false := ho
        simp only [Server.afterIdentity, hi, hclosed]
        rfl
      rw [hends _ hpart (waits_nil rfl)]
      exact iff_of_true (harmless_of_rooms rfl) fun h => by cases h
    | true =>
      by_cases ht : isText call.roomId = true
      · obtain ⟨text, htext⟩ := isText_iff.mp ht
        have hfield : v.field (utf16 "roomId") = some (.str text) := by
          rw [← hroomId]
          exact asString_ok.mp htext
        have hwf := wellFormed_join call hjoin hnickname (hroomId ▸ ht)
        rw [seek_harmless_iff hi ho htext hwf hfresh₂ hfresh₃, hfield, hnickname]
        simp
      · have hpart : (m₂.server.without call.socket).afterIdentity m₂.env call =
            .error .typeError := by
          have hopen : (m₂.server.without call.socket).isOpen call.socket = true := ho
          simp only [Server.afterIdentity, hi, hopen, asString_error ht]
          rfl
        rw [hends _ hpart rfl]
        refine iff_of_false not_harmless_error fun h => ?_
        obtain ⟨text, htext, -⟩ := h rfl
        exact ht (by rw [hroomId, htext]; rfl)

theorem handleMember_waits (s : Server) (env : Env) (c : Connection) (v : Json) :
    Segment.waits (s, s.handleMember env c v) = [] := by
  rcases handleMember_eq s env c v with ⟨room, id, -, he⟩ | ⟨-, he⟩
  · rw [he]
    cases Server.memberMessage (s.see env) room id v with
    | error e => rfl
    | ok r => exact waits_nil rfl
  · rw [he]
    exact waits_nil rfl

theorem handleMember_harmless_iff {m : Moment} {c : Connection}
    (hjoin : isString (v.field (utf16 "type")) (utf16 "join") = false) :
    Segment.Harmless (some v) (m.server, m.server.handleMember m.env c v) ↔ MemberSafe m c v := by
  unfold MemberSafe
  rcases handleMember_eq m.server m.env c v with ⟨room, id, hm, he⟩ | ⟨hno, he⟩
  · have hpart : (m.server, m.server.handleMember m.env c v) =
        memberSegment m.server (m.server.see m.env) room id v := by
      rw [he, memberSegment]
    rw [hpart, memberSegment_harmless_iff hm.held hjoin]
    constructor
    · intro h r i hr hnamed hi hheld
      obtain ⟨rfl, rfl⟩ := hm.unique ⟨hr, hnamed, hi, hheld⟩
      exact h
    · intro h
      exact h room id hm.code hm.named hm.player hm.held
  · rw [he]
    refine iff_of_true (harmless_of_rooms rfl) fun room id hr hnamed hi hheld => ?_
    exact absurd ⟨hr, hnamed, hi, hheld⟩ (hno room id)

end Parts

/-! ### One frame -/

section
variable [Runtime]

theorem uuid_fresh {self : ShardIdentity} {m : Moment}
    (hr : Machine.Reachable (serverSystem self) m.server) (hu : m.env.uuid ∉ m.server.issued) :
    ∀ room ∈ m.server.rooms.rows, m.env.uuid ∉ room.players.keys :=
  fun room hroom hk => hu ((server_room_reachable hr room hroom).keys_issued _ hk)

theorem handleMessage_some (s : Server) (env : Env) (c : Connection) {v : Json}
    (h : v.isNull = false) : s.handleMessage env c (some v) =
      if isString (v.field (utf16 "type")) (utf16 "join") = true then
        .ok (s.startJoin c (v.field (utf16 "roomId")) (v.field (utf16 "nickname")), [])
      else s.handleMember env c v := by
  simp only [Server.handleMessage, getProp, h, Bool.false_eq_true, if_false]
  rfl

theorem frameSegments_single {m₁ : Moment} {c : Connection} {raw : Option Json}
    (h : Segment.waits (m₁.server, m₁.server.handleMessage m₁.env c raw) = []) (m₂ m₃ : Moment)
    (answer : Bool) : frameSegments m₁ m₂ m₃ c raw answer =
      [(m₁.server, m₁.server.handleMessage m₁.env c raw)] := by
  simp [frameSegments, h]

theorem frameSegments_join {m₁ : Moment} {c : Connection} {raw : Option Json} {w : Waiting}
    (h : Segment.waits (m₁.server, m₁.server.handleMessage m₁.env c raw) = [w])
    (m₂ m₃ : Moment) (answer : Bool) : frameSegments m₁ m₂ m₃ c raw answer =
      (m₁.server, m₁.server.handleMessage m₁.env c raw) :: (m₂.goOn answer w ++
        ((m₂.goOn answer w).flatMap Segment.waits).flatMap (m₃.goOn answer)) := by
  simp [frameSegments, h]

/-- A frame does no harm exactly when `FrameSafe` holds of it and of the states it meets. -/
theorem frame_harmless_iff (self : ShardIdentity) (m₁ m₂ m₃ : Moment) (c : Connection)
    (raw : Option Json) (answer : Bool)
    (hr₂ : Machine.Reachable (serverSystem self) m₂.server)
    (hu₂ : m₂.env.uuid ∉ m₂.server.issued)
    (hr₃ : Machine.Reachable (serverSystem self) m₃.server)
    (hu₃ : m₃.env.uuid ∉ m₃.server.issued) :
    (∀ q ∈ frameSegments m₁ m₂ m₃ c raw answer, q.Harmless raw) ↔
      FrameSafe m₁ m₂ m₃ c raw answer := by
  cases raw with
  | none =>
    rw [frameSegments_single (waits_nil rfl), List.forall_mem_singleton]
    exact iff_of_true (harmless_of_rooms rfl) fun _ he => by cases he
  | some v =>
    simp only [FrameSafe, Option.some.injEq, forall_eq']
    cases hnull : v.isNull with
    | true =>
      have hv : v = .null := by
        cases v <;> simp [Json.isNull] at hnull ⊢
      subst hv
      rw [frameSegments_single rfl, List.forall_mem_singleton]
      exact iff_of_false not_harmless_error fun h => by simpa using h.1
    | false =>
      refine Iff.trans ?_ (and_iff_right rfl).symm
      have hmessage := handleMessage_some m₁.server m₁.env c hnull
      cases hjoin : isString (v.field (utf16 "type")) (utf16 "join") with
      | false =>
        rw [hjoin, if_neg (by decide)] at hmessage
        have hwaits := handleMember_waits m₁.server m₁.env c v
        rw [← hmessage] at hwaits
        rw [frameSegments_single hwaits, List.forall_mem_singleton, hmessage,
          if_neg (by decide)]
        exact handleMember_harmless_iff hjoin
      | true =>
        rw [hjoin, if_pos rfl] at hmessage
        rw [if_pos rfl]
        by_cases hidle : truthy c.joinedRoomId = false ∧ c.joining = false
        · have hwaits : Segment.waits (m₁.server, m₁.server.handleMessage m₁.env c (some v)) =
              [.identity ⟨c.socket, c.identity, v.field (utf16 "roomId"),
                v.field (utf16 "nickname")⟩] := by
            rw [hmessage]
            refine waits_append ?_
            simp [Server.startJoin, hidle.1, hidle.2]
          have hfirst : Segment.Harmless (some v)
              (m₁.server, m₁.server.handleMessage m₁.env c (some v)) := by
            rw [hmessage]
            refine harmless_of_rooms ?_
            simp only [Server.startJoin, hidle.1, hidle.2]
            rfl
          rw [frameSegments_join hwaits, List.forall_mem_cons, and_iff_right hfirst]
          have hrest := join_harmless_iff m₂ m₃
            ⟨c.socket, c.identity, v.field (utf16 "roomId"), v.field (utf16 "nickname")⟩ answer
            hjoin rfl rfl (uuid_fresh hr₂ hu₂) (uuid_fresh hr₃ hu₃)
          rw [hrest]
          exact ⟨fun h _ _ => h, fun h => h hidle.1 hidle.2⟩
        · have hstay : m₁.server.startJoin c (v.field (utf16 "roomId"))
              (v.field (utf16 "nickname")) = m₁.server := by
            rw [Server.startJoin, if_pos]
            cases hr : truthy c.joinedRoomId <;> simp_all
          rw [hstay] at hmessage
          have hwaits : Segment.waits (m₁.server, m₁.server.handleMessage m₁.env c (some v)) =
              [] := by
            rw [hmessage]
            exact waits_nil rfl
          rw [frameSegments_single hwaits, List.forall_mem_singleton, hmessage]
          exact iff_of_true (harmless_of_rooms rfl) fun hr hj => absurd ⟨hr, hj⟩ hidle

end

theorem joinFrame_harmless : ∃ s os c,
    Machine.Run (@serverSystem plainRuntime ⟨utf16 "4001", utf16 "localhost", 4001⟩)
      (numbered [.connect 0 (.ok none)]) s os ∧ s.live 0 = some c ∧
    ∀ q ∈ @frameSegments plainRuntime ⟨s, plainEnv 1⟩ ⟨s, plainEnv 2⟩ ⟨s, plainEnv 3⟩ c
      (joinFrame "AB3DE") true, q.Harmless (joinFrame "AB3DE") := by
  have hrun : Machine.Run (@serverSystem plainRuntime ⟨utf16 "4001", utf16 "localhost", 4001⟩)
      (numbered [.connect 0 (.ok none)]) _ _ := Machine.exec_get_run (by decide +kernel)
  refine ⟨_, _, _, hrun, rfl, ?_⟩
  refine (@frame_harmless_iff plainRuntime _ _ _ _ _ _ _ ⟨_, _, hrun⟩ (by decide +kernel)
    ⟨_, _, hrun⟩ (by decide +kernel)).mpr fun v hv => ?_
  obtain rfl := Option.some.inj hv
  refine ⟨rfl, ?_⟩
  rw [if_pos (by decide)]
  exact fun _ _ => ⟨⟨none, rfl⟩, fun _ => ⟨utf16 "AB3DE", rfl, fun _ => rfl⟩⟩

/-- The frame `null` of a player throws, whatever the handler reads. -/
theorem nullFrame_throws : ∃ s os c,
    Machine.Run (@serverSystem plainRuntime ⟨utf16 "4001", utf16 "localhost", 4001⟩)
      (numbered (joinEvents 0 "AB3DE")) s os ∧ s.live 0 = some c ∧ s.totalConnections = 1 ∧
    ∀ m₂ m₃ : Moment, ∀ env : Env, ∀ answer : Bool,
      @Server.handleMessage plainRuntime s env c (some .null) = .error .typeError ∧
      ¬ ∀ q ∈ @frameSegments plainRuntime ⟨s, env⟩ m₂ m₃ c (some .null) answer,
        q.Harmless (some .null) := by
  refine ⟨_, _, _, Machine.exec_get_run (by decide +kernel), rfl, by decide +kernel, ?_⟩
  intro m₂ m₃ env answer
  refine ⟨rfl, fun h => ?_⟩
  exact not_harmless_error (h _ List.mem_cons_self)

end GachaMind.GameSession
