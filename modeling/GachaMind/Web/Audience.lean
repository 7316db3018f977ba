import GachaMind.Lib.Replica
import GachaMind.GameSession.RoomFrame
import GachaMind.Web.RoomSocket

/-!
# What a player hears of a step

`received` picks the messages for one player out of the effects of a step. `Heard` lists them
for a player who is there before and after, beside what the step did to the room;
`transition_heard` shows that nothing else can reach an open socket.
-/

namespace GachaMind.Web
open GachaMind.Js GachaMind.Shared GachaMind.GameSession KeyedTable

/-! ### The messages for one player -/

def heard (id : Uuid) : Effect → Option ServerToClientMessage
  | .broadcast message recipients => if id ∈ recipients then some message else none
  | .send recipient message => if recipient = id then some message else none
  | _ => none

def received (id : Uuid) (os : List Effect) : List ServerToClientMessage :=
  os.filterMap (heard id)

theorem received_append (id : Uuid) (os ps : List Effect) :
    received id (os ++ ps) = received id os ++ received id ps :=
  List.filterMap_append

/-- The player sits in the room with an open socket. -/
def Online (env : Env) (room : Room) (id : Uuid) : Prop :=
  ∃ seat ∈ room.seats, seat.1 = id ∧ env.isOpen seat.2 = true

theorem Online.of_seats {env : Env} {room t : Room} {id : Uuid} (h : Online env t id)
    (he : room.seats = t.seats) : Online env room id := by
  rw [Online, he]
  exact h

theorem Online.player {env : Env} {room : Room} {id : Uuid} (h : Online env room id) :
    ∃ p ∈ room.players.rows, p.id = id ∧ env.isOpen p.socket = true := by
  obtain ⟨seat, hs, hid, ho⟩ := h
  obtain ⟨p, hp, rfl⟩ := List.mem_map.mp hs
  exact ⟨p, hp, hid, ho⟩

theorem Online.present {env : Env} {room : Room} {id : Uuid} (h : Online env room id) :
    id ∈ room.players.keys := by
  obtain ⟨p, hp, hid, -⟩ := h.player
  exact hid ▸ key_mem_keys hp

theorem heard_broadcast {env : Env} {room : Room} {id : Uuid} (h : Online env room id)
    (message : ServerToClientMessage) (exclude : Option Uuid) :
    heard id (room.broadcast env message exclude) =
      if some id = exclude then none else some message := by
  obtain ⟨p, hp, rfl, ho⟩ := h.player
  have hmem : p.id ∈ (room.players.rows.filter fun q =>
      some q.id ≠ exclude ∧ env.isOpen q.socket).map Player.id ↔ some p.id ≠ exclude := by
    constructor
    · intro hm
      obtain ⟨q, hq, hid⟩ := List.mem_map.mp hm
      rw [← hid]
      exact (of_decide_eq_true (List.mem_filter.mp hq).2).1
    · intro hne
      exact List.mem_map_of_mem (List.mem_filter.mpr ⟨hp, by simp [hne, ho]⟩)
  rw [Room.broadcast, heard]
  by_cases he : some p.id = exclude
  · rw [if_pos he, if_neg fun hm => hmem.mp hm he]
  · rw [if_neg he, if_pos (hmem.mpr he)]

theorem heard_broadcast_all {env : Env} {room : Room} {id : Uuid} (h : Online env room id)
    (message : ServerToClientMessage) : heard id (room.broadcast env message) = some message := by
  rw [heard_broadcast h, if_neg (by simp)]

theorem received_send {env : Env} {room : Room} {id : Uuid} (h : Online env room id)
    (recipient : Uuid) (message : ServerToClientMessage) :
    received id (room.send env recipient message) = if recipient = id then [message] else [] := by
  obtain ⟨p, hp, hid, ho⟩ := h.player
  unfold Room.send
  by_cases hr : recipient = id
  · rw [if_pos hr, hr, ← hid, get?_of_mem hp]
    simp [ho, received, heard]
  · rw [if_neg hr]
    split
    · rfl
    · split_ifs <;> simp [received, heard, hr]

theorem heard_aside {e : Effect} (h : e.Aside) {id : Uuid} {m : ServerToClientMessage}
    (hm : heard id e = some m) : IsAside m := by
  cases e with
  | broadcast message recipients =>
    simp only [heard, Option.ite_none_right_eq_some, Option.some.injEq] at hm
    obtain ⟨-, rfl⟩ := hm
    cases message <;> exact h
  | send _ _ => exact h.elim
  | _ => cases hm

theorem received_aside {os : List Effect} (h : ∀ e ∈ os, e.Aside) (id : Uuid) :
    ∀ m ∈ received id os, IsAside m := by
  intro m hm
  obtain ⟨e, he, hem⟩ := List.mem_filterMap.mp hm
  exact heard_aside (h e he) hem

/-! ### What a step tells a player who stays -/

/-- The opening of a round as `id` hears of it. -/
def toldTo (env : Env) (room : Room) (drawer : Player) (id : Uuid) : RoundStartedMessage :=
  if drawer.id = id then
    { room.startedMessage env drawer with word := some (pickWord env room.usedWords) }
  else room.startedMessage env drawer

theorem toldTo_word (env : Env) (room : Room) (drawer : Player) (id : Uuid) :
    ∃ word, toldTo env room drawer id = { room.startedMessage env drawer with word := word } := by
  unfold toldTo
  split_ifs
  · exact ⟨_, rfl⟩
  · exact ⟨none, rfl⟩

/-- The marks that reach the players: all but the event that is published. -/
def isTold : GameMark → Bool
  | .published _ => false
  | _ => true

/-- A step of the room, what it tells a player who is there before and after, and what it tells
all of them of the game. -/
inductive Heard (env : Env) (room : Room) (id : Uuid) :
    RoomInput → Room → List ServerToClientMessage → List GameMark → Prop
  | aside {input : RoomInput} {ms : List ServerToClientMessage} (h : ∀ m ∈ ms, IsAside m) :
      Heard env room id input room ms []
  | draw {d : Uuid} {raw : Option Json} (stroke : StrokeSegment) (hd : room.drawerId = some d) :
      Heard env room id (.draw d raw) (room.addStroke stroke)
        (if d = id then [] else [.draw stroke]) []
  | drawClear {d : Uuid} (hd : room.drawerId = some d) :
      Heard env room id (.drawClear d) room.clearStrokes
        (if d = id then [] else [.drawClear]) []
  | join {socket : SocketId} {identity : Option Identity} {nickname : JsString} {player : Player}
      {ms : List ServerToClientMessage} (hu : player.id = env.uuid)
      (hf : player.id ∉ room.players.keys) (h0 : player.score = 0) (h : ∀ m ∈ ms, IsAside m) :
      Heard env room id (.join socket identity nickname) (seatPlayer room player)
        (.playerJoined room.id ⟨player.id, player.nickname, 0⟩ (seatPlayer room player).size :: ms)
        []
  | start {drawer : Player} (hp : room.phase ≠ .playing)
      (hs : MIN_PLAYERS_TO_START ≤ room.size) :
      Heard env room id .startGame ((room.beginGame env).openRound env drawer)
        [.gameStarted (room.beginGame env).totalRounds, .drawClear,
         .roundStarted (toldTo env (room.beginGame env) drawer id)]
        [.gameStarted (room.beginGame env).totalRounds, .roundStarted 1]
  | answer {solver : Player} {text : Option Json} {d : Uuid} {w : JsString}
      (hr : room.InRound d w) (hp : solver ∈ room.players.rows) :
      Heard env room id (.chat solver.id text) (room.scoreGuess env solver.id d)
        [.correctAnswer solver.id solver.nickname (room.scoreGuess env solver.id d).summaries]
        [.correctAnswer solver.id]
  | lastAnswer {solver : Player} {text : Option Json} {d : Uuid} {w : JsString}
      (hr : room.InRound d w) (hp : solver ∈ room.players.rows) :
      Heard env room id (.chat solver.id text) (room.scoreGuess env solver.id d).closeRound
        [.correctAnswer solver.id solver.nickname (room.scoreGuess env solver.id d).summaries,
         .roundEnded room.round w (room.scoreGuess env solver.id d).summaries]
        [.correctAnswer solver.id, .roundEnded room.round w]
  | close {n : ℕ} {d : Uuid} {w : JsString} (hr : room.InRound d w) :
      Heard env room id (.timer n) (room.timerFired n).closeRound
        [.roundEnded room.round w room.summaries] [.roundEnded room.round w]
  | next {n : ℕ} {drawer : Player} (hi : room.InIntermission) :
      Heard env room id (.timer n) ((room.timerFired n).openRound env drawer)
        [.drawClear, .roundStarted (toldTo env (room.timerFired n) drawer id)]
        [.roundStarted (room.round + 1)]
  | finish {n : ℕ} (hi : room.InIntermission) :
      Heard env room id (.timer n) (room.timerFired n).finishGame [.gameEnded room.summaries]
        [.gameEnded room.summaries]
  | leave {left : Uuid} {nickname : JsString} {count : ℕ} {ms : List ServerToClientMessage}
      (h : ∀ m ∈ ms, IsAside m) :
      Heard env room id (.leave left) (room.removePlayer left)
        (.playerLeft room.id left nickname count :: ms) []
  | leaveGame {left : Uuid} {nickname : JsString} {count : ℕ} {ms : List ServerToClientMessage}
      (hp : room.Playing) (h : ∀ m ∈ ms, IsAside m) :
      Heard env room id (.leave left) (room.removePlayer left).finishGame
        (.playerLeft room.id left nickname count :: ms ++
          [.gameEnded (room.removePlayer left).summaries])
        [.gameEnded (room.removePlayer left).summaries]
  | leaveRound {left : Uuid} {nickname : JsString} {count : ℕ} {ms : List ServerToClientMessage}
      (hp : room.Playing) (h : ∀ m ∈ ms, IsAside m) :
      Heard env room id (.leave left) (room.removePlayer left).closeRound
        (.playerLeft room.id left nickname count :: ms ++
          [.roundEnded room.round (room.word.getD []) (room.removePlayer left).summaries])
        [.roundEnded room.round (room.word.getD [])]

section
variable {env : Env} {room t : Room} {id : Uuid} {os : List Effect}

theorem received_cons_broadcast (h : Online env room id) (message : ServerToClientMessage) :
    received id (room.broadcast env message :: os) = message :: received id os :=
  List.filterMap_cons_some (heard_broadcast_all h message)

theorem received_cons_except (h : Online env room id) (message : ServerToClientMessage)
    (d : Uuid) : received id (room.broadcast env message (some d) :: os) =
      (if d = id then [] else [message]) ++ received id os := by
  have hb := heard_broadcast h message (some d)
  by_cases hd : d = id
  · rw [if_pos (by rw [hd])] at hb
    rw [received, List.filterMap_cons_none hb, if_pos hd]
    rfl
  · rw [if_neg fun he => hd (Option.some.inj he).symm] at hb
    rw [received, List.filterMap_cons_some hb, if_neg hd]
    rfl

theorem received_openEffects (h : Online env room id) (drawer : Player) :
    received id (room.openEffects env drawer) =
      [.drawClear, .roundStarted (toldTo env room drawer id)] := by
  rw [Room.openEffects, received_cons_broadcast h, received_cons_except h, received_send h, toldTo]
  by_cases hd : drawer.id = id <;> simp [hd]

theorem received_leaveEffects {left : Uuid} (h : Online env (room.removePlayer left) id) :
    ∃ nickname count ms, (∀ m ∈ ms, IsAside m) ∧
      received id (room.leaveEffects env left) = .playerLeft room.id left nickname count :: ms := by
  refine ⟨_, _, _, ?_, received_cons_broadcast h _⟩
  refine received_aside (fun e he => ?_) id
  rw [List.mem_singleton.mp he]
  exact notice_aside ..

theorem received_departure {left : Uuid} (h : Online env (room.removePlayer left) id)
    {notices : List Effect} (ho : ∀ e ∈ notices, e.Aside) (ps : List Effect) :
    ∃ nickname count ms, (∀ m ∈ ms, IsAside m) ∧
      received id (room.leaveEffects env left ++ notices ++ ps) =
        .playerLeft room.id left nickname count :: ms ++ received id ps := by
  obtain ⟨nickname, count, ms, hms, hl⟩ := received_leaveEffects h
  refine ⟨nickname, count, ms ++ received id notices, fun m hm => ?_, ?_⟩
  · rcases List.mem_append.mp hm with hm | hm
    · exact hms m hm
    · exact received_aside ho id m hm
  · rw [received_append, received_append, hl, List.cons_append, List.cons_append]

theorem received_welcome (h : Online env room id) {player : Player} (hne : player.id ≠ id) :
    ∃ ms, (∀ m ∈ ms, IsAside m) ∧ received id (welcome env room player) =
      .playerJoined room.id ⟨player.id, player.nickname, 0⟩ room.size :: ms := by
  refine ⟨received id [room.notice env .notice (player.nickname ++ utf16 "님이 입장했습니다.")],
    received_aside (fun e he => ?_) id, ?_⟩
  · rw [List.mem_singleton.mp he]
    exact notice_aside ..
  · rw [welcome, received_append, received_send h, if_neg hne, List.nil_append,
      received_cons_except h, if_neg hne]
    rfl

theorem addStroke_seats (room : Room) (stroke : StrokeSegment) :
    (room.addStroke stroke).seats = room.seats := by
  rw [Room.addStroke_eq]
  rfl

theorem transition_heard {input : RoomInput} (hs : Transition env room input t os)
    (hf : env.uuid ∉ room.players.keys) (hon : Online env t id) (hid : id ∈ room.players.keys) :
    Heard env room id input t (received id os) ((marks os).filter isTold) := by
  cases hs with
  | aside h ho =>
    rw [marks_aside ho]
    exact .aside (received_aside ho id)
  | draw sanitized _ hd =>
    rw [received_cons_except hon, received, List.filterMap_nil, List.append_nil]
    exact .draw sanitized hd
  | drawClear _ hd =>
    rw [received_cons_except hon, received, List.filterMap_nil, List.append_nil]
    exact .drawClear hd
  | @join socket identity nickname _ =>
    have hother : env.uuid ≠ id := fun he => hf (he ▸ hid)
    have hne : (joiningPlayer env socket identity nickname).id ≠ id := hother
    obtain ⟨ms, hms, hw⟩ := received_welcome hon hne
    rw [received, List.filterMap_cons_none rfl]
    rw [received] at hw
    rw [hw, seatPlayer_id, marks_cons, marks_welcome]
    exact .join rfl hf rfl hms
  | @start drawer hp hs _ _ =>
    have hbegun : Online env (room.beginGame env) id := hon.of_seats rfl
    rw [received_cons_broadcast hbegun, received, List.filterMap_cons_none rfl]
    have ho := received_openEffects hbegun drawer
    rw [received] at ho
    rw [ho, marks_cons, marks_cons, Room.marks_openEffects]
    exact .start hp hs
  | guess hr hp _ _ _ =>
    rw [Room.answerEffects, received_cons_broadcast hon]
    exact .answer hr hp
  | @lastGuess solver _ d w hr hp _ _ _ =>
    have hscored : Online env (room.scoreGuess env solver.id d) id := hon.of_seats rfl
    rw [received_append, Room.answerEffects, received_cons_broadcast hscored, Room.closeEffects,
      received_cons_broadcast hscored]
    have hw : (room.scoreGuess env solver.id d).word = some w := hr.word
    rw [hw]
    exact .lastAnswer hr hp
  | @timeUp n d w hr _ =>
    have hfired : Online env (room.timerFired n) id := hon.of_seats rfl
    rw [Room.closeEffects, received_cons_broadcast hfired]
    have hw : (room.timerFired n).word = some w := hr.word
    rw [hw]
    exact .close hr
  | @nextRound n drawer hi _ _ _ =>
    have hfired : Online env (room.timerFired n) id := hon.of_seats rfl
    rw [received_openEffects hfired, Room.marks_openEffects]
    exact .next hi
  | @gameOver n _ hi _ _ _ =>
    have hfired : Online env (room.timerFired n) id := hon.of_seats rfl
    rw [Room.finishEffects, received_cons_broadcast hfired]
    exact .finish hi
  | leave _ =>
    obtain ⟨nickname, count, ms, hms, hl⟩ := received_leaveEffects hon
    rw [hl]
    exact .leave hms
  | @leaveGame left _ notices hp _ _ ho =>
    have hleft : Online env (room.removePlayer left) id := hon.of_seats rfl
    obtain ⟨nickname, count, ms, hms, hl⟩ := received_departure hleft ho _
    rw [hl, Room.finishEffects, received_cons_broadcast hleft, marks_append, marks_append,
      marks_aside ho]
    exact .leaveGame hp hms
  | @leaveRound left _ _ notices hr _ ho =>
    have hleft : Online env (room.removePlayer left) id := hon.of_seats rfl
    obtain ⟨nickname, count, ms, hms, hl⟩ := received_departure hleft ho _
    rw [hl, Room.closeEffects, received_cons_broadcast hleft, marks_append, marks_append,
      marks_aside ho]
    exact .leaveRound hr.toPlaying hms
  | @leaveSolved left hi _ _ =>
    have hleft : Online env (room.removePlayer left) id := hon.of_seats rfl
    have hnone : ∀ e ∈ ([] : List Effect), e.Aside := by simp
    obtain ⟨nickname, count, ms, hms, hl⟩ :=
      received_departure hleft hnone ((room.removePlayer left).closeEffects env)
    rw [List.append_nil] at hl
    rw [hl, Room.closeEffects, received_cons_broadcast hleft]
    exact .leaveRound hi.toPlaying hms

/-! ### What a newcomer hears -/

/-- The state that `handleJoin` sends to the player it seats. -/
def snapshot (env : Env) (room : Room) (player : Player) : RoomStateMessage :=
  { roomId := room.id
    you := ⟨player.id, player.nickname, 0⟩
    players := room.summaries
    capacity := room.capacity
    phase := room.phase
    round := room.round
    totalRounds := room.totalRounds
    drawerId := room.drawerId
    remainingMs := room.remainingMs (env.now .snapshot)
    wordLength := room.word.map List.length
    strokes := room.strokes }

theorem received_own_welcome (h : Online env room id) {player : Player} (he : player.id = id) :
    ∃ ms, (∀ m ∈ ms, IsAside m) ∧
      received id (welcome env room player) = .roomState (snapshot env room player) :: ms := by
  refine ⟨received id [room.notice env .notice (player.nickname ++ utf16 "님이 입장했습니다.")],
    received_aside (fun e he => ?_) id, ?_⟩
  · rw [List.mem_singleton.mp he]
    exact notice_aside ..
  · rw [welcome, received_append, received_send h, if_pos he, received_cons_except h, if_pos he]
    rfl

theorem transition_joined {input : RoomInput} (hs : Transition env room input t os)
    (hon : Online env t id) (hnew : id ∉ room.players.keys) :
    ∃ player, player.id = id ∧ player.id = env.uuid ∧ player.score = 0 ∧
      t = seatPlayer room player ∧
      ∃ ms, (∀ m ∈ ms, IsAside m) ∧
        received id os = .roomState (snapshot env t player) :: ms := by
  have hjoin := gameStep_newcomer hs.gameStep hon.present
  rcases hjoin with hid | ⟨hid, socket, identity, nickname, rfl, hfull⟩
  · exact absurd hid hnew
  · cases hs with
    | aside h ho => exact absurd hon.present hnew
    | join _ =>
      obtain ⟨ms, hms, hw⟩ := received_own_welcome hon
        (show (joiningPlayer env socket identity nickname).id = id from hid.symm)
      refine ⟨joiningPlayer env socket identity nickname, hid.symm, rfl, rfl, rfl, ms, hms, ?_⟩
      rw [received, List.filterMap_cons_none rfl]
      rw [received] at hw
      rw [hw]

end

end GachaMind.Web
