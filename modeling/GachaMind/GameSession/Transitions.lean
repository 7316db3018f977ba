import GachaMind.GameSession.Coherence

/-!
# Everything one step can do

`Transition` lists the ways in which one input changes a coherent room, each with the
effects it issues; `roomStep_transition` shows that there are no others.
-/

namespace GachaMind.GameSession
open GachaMind.Js GachaMind.Shared KeyedTable

/-! ### The effects of the moves -/

/-- Chat, notices and refusals: effects that carry nothing of the game. -/
def Effect.Aside : Effect → Prop
  | .broadcast (.chat _ _ _ _) _ => True
  | .broadcast (.system _ _) _ => True
  | .reply _ _ => True
  | .closeSocket _ => True
  | _ => False

theorem notice_aside (env : Env) (room : Room) (site : ClockSite) (text : JsString) :
    (room.notice env site text).Aside := trivial

namespace Room

/-- What the players are told of the round that `openRound` opens, the drawer apart. -/
def startedMessage (env : Env) (room : Room) (drawer : Player) : RoundStartedMessage :=
  { round := room.round + 1
    totalRounds := room.totalRounds
    drawerId := drawer.id
    drawerNickname := drawer.nickname
    remainingMs := ((room.openRound env drawer).remainingMs (env.now .roundRemaining)).getD
      ROUND_DURATION_MS
    wordLength := (pickWord env room.usedWords).length
    word := none }

def openEffects (env : Env) (room : Room) (drawer : Player) : List Effect :=
  room.broadcast env .drawClear
    :: room.broadcast env (.roundStarted (room.startedMessage env drawer)) (some drawer.id)
    :: room.send env drawer.id (.roundStarted
        { room.startedMessage env drawer with word := some (pickWord env room.usedWords) })

def closeEffects (env : Env) (room : Room) : List Effect :=
  [room.broadcast env (.roundEnded room.round (room.word.getD []) room.summaries)]

def finishEffects (env : Env) (room : Room) (gameId : Uuid) : List Effect :=
  [room.broadcast env (.gameEnded room.summaries), syncOccupancy env room.finishGame,
   .publishGameEvent (room.resultEvent env gameId)]

/-- The announcements of a departure, made to those who stay. -/
def leaveEffects (env : Env) (room : Room) (id : Uuid) : List Effect :=
  [(room.removePlayer id).broadcast env
      (.playerLeft room.id id (leaverNickname room id) (room.removePlayer id).size),
   (room.removePlayer id).notice env .notice (leaverNickname room id ++ utf16 "님이 퇴장했습니다.")]

def answerEffects (env : Env) (room : Room) (solver : Player) (d : Uuid) : List Effect :=
  [(room.scoreGuess env solver.id d).broadcast env
    (.correctAnswer solver.id solver.nickname (room.scoreGuess env solver.id d).summaries)]

end Room

/-! ### The transitions -/

/-- One input, handled on a coherent room. -/
inductive Transition (env : Env) (room : Room) : RoomInput → Room → List Effect → Prop
  /-- Chat, refused joins and starts, and strokes of anyone but the drawer. -/
  | aside {input : RoomInput} {os : List Effect} (h : ∀ id, input ≠ .leave id)
      (ho : ∀ e ∈ os, e.Aside) : Transition env room input room os
  | draw {id : Uuid} {stroke : Option Json} (sanitized : StrokeSegment)
      (hp : room.phase = .playing) (hd : room.drawerId = some id) :
      Transition env room (.draw id stroke) (room.addStroke sanitized)
        [(room.addStroke sanitized).broadcast env (.draw sanitized) (some id)]
  | drawClear {id : Uuid} (hp : room.phase = .playing) (hd : room.drawerId = some id) :
      Transition env room (.drawClear id) room.clearStrokes
        [room.clearStrokes.broadcast env .drawClear (some id)]
  | join {socket : SocketId} {identity : Option Identity} {nickname : JsString}
      (h : room.isFull = false) :
      Transition env room (.join socket identity nickname)
        (seatPlayer room (joiningPlayer env socket identity nickname))
        (syncOccupancy env (seatPlayer room (joiningPlayer env socket identity nickname))
          :: welcome env (seatPlayer room (joiningPlayer env socket identity nickname))
            (joiningPlayer env socket identity nickname))
  | start {drawer : Player} (hp : room.phase ≠ .playing)
      (hs : MIN_PLAYERS_TO_START ≤ room.size)
      (hq : (room.beginGame env).drawerQueue.head? = some drawer.id)
      (hd : drawer ∈ (room.beginGame env).players.rows) :
      Transition env room .startGame ((room.beginGame env).openRound env drawer)
        ((room.beginGame env).broadcast env (.gameStarted (room.beginGame env).totalRounds)
          :: syncOccupancy env (room.beginGame env)
          :: (room.beginGame env).openEffects env drawer)
  | guess {solver : Player} {text : Option Json} {d : Uuid} {w : JsString}
      (hr : room.InRound d w) (hp : solver ∈ room.players.rows) (hd : solver.id ≠ d)
      (hs : solver.id ∉ room.solvedPlayerIds)
      (hc : (room.scoreGuess env solver.id d).unsolvedGuesserCount ≠ 0) :
      Transition env room (.chat solver.id text) (room.scoreGuess env solver.id d)
        (room.answerEffects env solver d)
  | lastGuess {solver : Player} {text : Option Json} {d : Uuid} {w : JsString}
      (hr : room.InRound d w) (hp : solver ∈ room.players.rows) (hd : solver.id ≠ d)
      (hs : solver.id ∉ room.solvedPlayerIds)
      (hc : (room.scoreGuess env solver.id d).unsolvedGuesserCount = 0) :
      Transition env room (.chat solver.id text) (room.scoreGuess env solver.id d).closeRound
        (room.answerEffects env solver d ++ (room.scoreGuess env solver.id d).closeEffects env)
  | timeUp {id : ℕ} {d : Uuid} {w : JsString} (hr : room.InRound d w)
      (ht : room.roundTimer = some id) :
      Transition env room (.timer id) (room.timerFired id).closeRound
        ((room.timerFired id).closeEffects env)
  | nextRound {id : ℕ} {drawer : Player} (hi : room.InIntermission)
      (ht : room.roundTimer = some id)
      (hq : room.drawerQueue.head? = some drawer.id) (hd : drawer ∈ room.players.rows) :
      Transition env room (.timer id) ((room.timerFired id).openRound env drawer)
        ((room.timerFired id).openEffects env drawer)
  | gameOver {id : ℕ} {g : Uuid} (hi : room.InIntermission) (ht : room.roundTimer = some id)
      (hq : room.drawerQueue = []) (hg : room.gameId = some g) :
      Transition env room (.timer id) (room.timerFired id).finishGame
        ((room.timerFired id).finishEffects env g)
  | leave {id : Uuid} (h : room.phase = .playing →
        MIN_PLAYERS_TO_START ≤ (room.removePlayer id).size ∧ room.drawerId ≠ some id ∧
        (room.removePlayer id).unsolvedGuesserCount ≠ 0) :
      Transition env room (.leave id) (room.removePlayer id) (room.leaveEffects env id)
  | leaveGame {id g : Uuid} {notices : List Effect} (hp : room.Playing)
      (hs : (room.removePlayer id).size < MIN_PLAYERS_TO_START) (hg : room.gameId = some g)
      (ho : ∀ e ∈ notices, e.Aside) :
      Transition env room (.leave id) (room.removePlayer id).finishGame
        (room.leaveEffects env id ++ notices ++ (room.removePlayer id).finishEffects env g)
  | leaveRound {id d : Uuid} {w : JsString} {notices : List Effect} (hr : room.InRound d w)
      (hs : MIN_PLAYERS_TO_START ≤ (room.removePlayer id).size) (ho : ∀ e ∈ notices, e.Aside) :
      Transition env room (.leave id) (room.removePlayer id).closeRound
        (room.leaveEffects env id ++ notices ++ (room.removePlayer id).closeEffects env)
  /-- A departure in an intermission that leaves only players who had solved the round. -/
  | leaveSolved {id : Uuid} (hi : room.InIntermission)
      (hs : MIN_PLAYERS_TO_START ≤ (room.removePlayer id).size)
      (hc : (room.removePlayer id).unsolvedGuesserCount = 0) :
      Transition env room (.leave id) (room.removePlayer id).closeRound
        (room.leaveEffects env id ++ (room.removePlayer id).closeEffects env)

/-! ### The functions of the game on coherent rooms -/

theorem size_ne_zero_of_enough {room : Room} (h : MIN_PLAYERS_TO_START ≤ room.size) :
    room.size ≠ 0 := by
  have hm : 0 < MIN_PLAYERS_TO_START := by decide
  exact (hm.trans_le h).ne'

theorem Room.Playing.endRound_eq (env : Env) {room : Room} (h : room.Playing) :
    endRound env room = (room.closeRound, room.closeEffects env) :=
  endRound_playing env room h.phase (size_ne_zero_of_enough h.enough)

theorem startRound_head (env : Env) (room : Room) (drawer : Player)
    (hq : room.drawerQueue.head? = some drawer.id) (hd : drawer ∈ room.players.rows) :
    startRound env room = (room.openRound env drawer, room.openEffects env drawer) := by
  have hget : room.players.get? drawer.id = some drawer := get?_of_mem hd
  simp only [startRound, Room.clearRoundTimer, hq, Option.bind_some, hget]
  rfl

theorem startGame_enough (env : Env) (room : Room) (drawer : Player) (hp : room.phase ≠ .playing)
    (hs : MIN_PLAYERS_TO_START ≤ room.size)
    (hq : (room.beginGame env).drawerQueue.head? = some drawer.id)
    (hd : drawer ∈ (room.beginGame env).players.rows) :
    startGame env room = ((room.beginGame env).openRound env drawer,
      (room.beginGame env).broadcast env (.gameStarted (room.beginGame env).totalRounds)
        :: syncOccupancy env (room.beginGame env)
        :: (room.beginGame env).openEffects env drawer) := by
  simp only [startGame, if_neg hp, if_neg (not_lt.mpr hs)]
  change ((startRound env (room.beginGame env)).1, _ :: _ ::
    (startRound env (room.beginGame env)).2) = _
  rw [startRound_head env (room.beginGame env) drawer hq hd]
  rfl

theorem intermissionOver_next (env : Env) (room : Room) (drawer : Player) (h : room.Playing)
    (hq : room.drawerQueue.head? = some drawer.id) (hd : drawer ∈ room.players.rows) :
    intermissionOver env room = (room.openRound env drawer, room.openEffects env drawer) := by
  have hguard : ¬ (room.size < MIN_PLAYERS_TO_START ∨ room.drawerQueue = []) := by
    rintro (hs | hnil)
    · exact absurd hs (not_lt.mpr h.enough)
    · rw [hnil] at hq
      cases hq
  simp only [intermissionOver, h.phase, ne_eq, not_true_eq_false, ite_false, if_neg hguard]
  exact startRound_head env room drawer hq hd

theorem Transition.unchanged {env : Env} {room : Room} {input : RoomInput}
    (h : ∀ id, input ≠ .leave id) : Transition env room input room [] :=
  .aside h (by simp)

theorem startGame_cases {env : Env} {room t : Room} {os : List Effect} (h : room.Base)
    (hs : startGame env room = (t, os)) : Transition env room .startGame t os := by
  by_cases hp : room.phase = .playing
  · rw [startGame, if_pos hp] at hs
    cases hs
    exact .unchanged fun _ he => by cases he
  by_cases hn : room.size < MIN_PLAYERS_TO_START
  · rw [startGame, if_neg hp, if_pos hn] at hs
    cases hs
    refine .aside (fun _ he => by cases he) fun e he => ?_
    rw [List.mem_singleton.mp he]
    exact notice_aside ..
  · have hsize : MIN_PLAYERS_TO_START ≤ room.size := not_lt.mp hn
    have hq : (room.beginGame env).drawerQueue ≠ [] := by
      rw [← List.length_pos_iff, Room.beginGame_queue_length]
      exact Room.beginGame_totalRounds_pos env hsize
    obtain ⟨drawer, hd, hhead⟩ := Room.exists_drawer (Room.beginGame_base env h) hq
    rw [startGame_enough env room drawer hp hsize hhead hd] at hs
    obtain ⟨rfl, rfl⟩ := Prod.mk.inj hs
    exact .start hp hsize hhead hd

/-- What a timer that fires can do. -/
inductive TimerMove (env : Env) (room : Room) (id : ℕ) : Room → List Effect → Prop
  | timeUp {d : Uuid} {w : JsString} (hr : room.InRound d w) (ht : room.roundTimer = some id) :
      TimerMove env room id (room.timerFired id).closeRound ((room.timerFired id).closeEffects env)
  | nextRound {drawer : Player} (hi : room.InIntermission) (ht : room.roundTimer = some id)
      (hq : room.drawerQueue.head? = some drawer.id) (hd : drawer ∈ room.players.rows) :
      TimerMove env room id ((room.timerFired id).openRound env drawer)
        ((room.timerFired id).openEffects env drawer)
  | gameOver {g : Uuid} (hi : room.InIntermission) (ht : room.roundTimer = some id)
      (hq : room.drawerQueue = []) (hg : room.gameId = some g) :
      TimerMove env room id (room.timerFired id).finishGame
        ((room.timerFired id).finishEffects env g)

theorem fireTimer_move {env : Env} {room t : Room} {id : ℕ} {os : List Effect}
    (h : room.Coherent) (hs : fireTimer env room id = some (t, os)) :
    TimerMove env room id t os := by
  obtain ⟨x, hx, he⟩ := Option.map_eq_some_iff.mp hs
  have hmem := List.mem_of_find?_eq_some hx
  have hid : x.id = id := by simpa using List.find?_some hx
  subst hid
  obtain ⟨hb, hi | ⟨d, w, hr⟩ | hi⟩ := h
  · rw [hi.timers] at hmem
    exact absurd hmem List.not_mem_nil
  · -- inside a round the pending timer is the one of the round
    obtain ⟨k, htimer, hpend⟩ := hr.timer
    rw [hpend, List.mem_singleton] at hmem
    subst hmem
    change endRound env (room.timerFired k) = (t, os) at he
    rw [(Room.timerFired_playing k hr.toPlaying).endRound_eq] at he
    obtain ⟨rfl, rfl⟩ := Prod.mk.inj he
    exact .timeUp hr htimer
  · obtain ⟨k, htimer, hpend⟩ := hi.timer
    rw [hpend, List.mem_singleton] at hmem
    subst hmem
    have hp := Room.timerFired_playing k hi.toPlaying
    change intermissionOver env (room.timerFired k) = (t, os) at he
    by_cases hq : (room.timerFired k).drawerQueue = []
    · obtain ⟨g, hg⟩ := hp.gameId
      simp only [intermissionOver, hp.phase, ne_eq, not_true_eq_false, ite_false, hq, or_true,
        ite_true] at he
      rw [endGame_playing env _ g hp.phase hg] at he
      obtain ⟨rfl, rfl⟩ := Prod.mk.inj he
      exact .gameOver hi htimer hq hg
    · obtain ⟨drawer, hd, hhead⟩ := Room.exists_drawer (Room.timerFired_base k hb) hq
      rw [intermissionOver_next env (room.timerFired k) drawer hp hhead hd] at he
      obtain ⟨rfl, rfl⟩ := Prod.mk.inj he
      exact .nextRound hi htimer hhead hd

theorem fireTimer_cases {env : Env} {room t : Room} {id : ℕ} {os : List Effect}
    (h : room.Coherent) (hs : fireTimer env room id = some (t, os)) :
    Transition env room (.timer id) t os := by
  cases fireTimer_move h hs with
  | timeUp hr ht => exact .timeUp hr ht
  | nextRound hi ht hq hd => exact .nextRound hi ht hq hd
  | gameOver hi ht hq hg => exact .gameOver hi ht hq hg

theorem leaveRoom_eq (env : Env) (room : Room) (id : Uuid) :
    leaveRoom env room id = ((handlePlayerLeftDuringGame env (room.removePlayer id) id).1,
      room.leaveEffects env id ++ (handlePlayerLeftDuringGame env (room.removePlayer id) id).2) :=
  rfl

theorem leaveRoom_cases {env : Env} {room t : Room} {id : Uuid} {os : List Effect}
    (h : room.Coherent) (hs : leaveRoom env room id = (t, os)) :
    Transition env room (.leave id) t os := by
  rw [leaveRoom_eq] at hs
  obtain ⟨rfl, rfl⟩ := Prod.mk.inj hs
  by_cases hp : room.phase = .playing
  swap
  · have hp' : (room.removePlayer id).phase ≠ .playing := hp
    simp only [handlePlayerLeftDuringGame, hp', ne_eq, not_false_eq_true, ite_true,
      List.append_nil]
    exact .leave fun h => absurd h hp
  have hplaying : room.Playing := by
    obtain ⟨-, hi | ⟨d, w, hr⟩ | hi⟩ := h
    · exact absurd hp hi.phase
    · exact hr.toPlaying
    · exact hi.toPlaying
  have hp' : (room.removePlayer id).phase = .playing := hp
  simp only [handlePlayerLeftDuringGame, hp', ne_eq, not_true_eq_false, ite_false]
  have hnotice : ∀ text, ∀ e ∈ [(room.removePlayer id).notice env .gameNotice text], e.Aside := by
    intro text e he
    rw [List.mem_singleton.mp he]
    exact notice_aside ..
  split_ifs with hsize hd hc
  · obtain ⟨g, hg⟩ := hplaying.gameId
    rw [endGame_playing env _ g hp' hg]
    simpa [Room.finishEffects] using Transition.leaveGame hplaying hsize hg (hnotice _)
  · have hsize' := not_lt.mp hsize
    rw [(Room.removePlayer_playing id hplaying hsize').endRound_eq]
    obtain ⟨-, hi | ⟨d, w, hr⟩ | hi⟩ := h
    · exact absurd hp hi.phase
    · simpa using Transition.leaveRound hr hsize' (hnotice _)
    · exact absurd (hi.drawerId.symm.trans hd) (by simp)
  · have hsize' := not_lt.mp hsize
    rw [(Room.removePlayer_playing id hplaying hsize').endRound_eq]
    obtain ⟨-, hi | ⟨d, w, hr⟩ | hi⟩ := h
    · exact absurd hp hi.phase
    · have hnone : ∀ e ∈ ([] : List Effect), e.Aside := fun e he => absurd he List.not_mem_nil
      simpa using Transition.leaveRound hr hsize' hnone
    · exact .leaveSolved hi hsize' hc
  · rw [List.append_nil]
    exact .leave fun _ => ⟨not_lt.mp hsize, hd, hc⟩

theorem joinRoom_cases {env : Env} {room t : Room} {socket : SocketId}
    {identity : Option Identity} {nickname : JsString} {os : List Effect}
    (hs : joinRoom env room socket identity nickname = (t, os)) :
    Transition env room (.join socket identity nickname) t os := by
  unfold joinRoom at hs
  split_ifs at hs with hf
  · cases hs
    refine .aside (fun _ he => by cases he) fun e he => ?_
    rcases List.mem_pair.mp he with rfl | rfl <;> trivial
  · cases hs
    exact .join (by simpa using hf)

theorem handleDrawClear_cases {env : Env} {room t : Room} {id : Uuid} {os : List Effect}
    (hs : handleDrawClear env room id = (t, os)) : Transition env room (.drawClear id) t os := by
  unfold handleDrawClear at hs
  split_ifs at hs with hg
  · cases hs
    exact .unchanged fun _ he => by cases he
  · cases hs
    push Not at hg
    exact .drawClear hg.1 hg.2

section Frames
variable [Runtime]

theorem handleDraw_cases {env : Env} {room t : Room} {id : Uuid} {stroke : Option Json}
    {os : List Effect} (hs : handleDraw env room id stroke = .ok (t, os)) :
    Transition env room (.draw id stroke) t os := by
  rcases handleDraw_ok hs with hs | ⟨sanitized, hp, hd, hs⟩
  · cases hs
    exact .unchanged fun _ he => by cases he
  · cases hs
    exact .draw sanitized hp hd

theorem handleGuess_no_word {env : Env} {room : Room} {player : Player} {text : JsString}
    (h : room.word = none) : handleGuess env room player text = ⟨false, room, []⟩ := by
  unfold handleGuess
  rw [h]
  split
  · contradiction
  · rfl

theorem handleGuess_cases (env : Env) {room : Room} {player : Player} (text : JsString) {d : Uuid}
    {w : JsString} (h : room.InRound d w) (hp : player ∈ room.players.rows) :
    ((handleGuess env room player text).room = room ∧
      (handleGuess env room player text).effects = []) ∨
    (handleGuess env room player text).handled = true ∧
      ∀ raw, Transition env room (.chat player.id raw) (handleGuess env room player text).room
        (handleGuess env room player text).effects := by
  simp only [handleGuess, h.phase, h.word, h.word_ne_nil, ite_false,
    scoreAnswer_drawer env room player.id d h.drawerId]
  split_ifs with hg hc
  · right
    refine ⟨rfl, fun raw => ?_⟩
    rw [Bool.and_eq_true, decide_eq_true_eq, h.drawerId] at hg
    have hd : player.id ≠ d := fun he => hg.1.1 (by rw [he])
    rw [(Room.scoreGuess_playing env player.id d h.toPlaying).endRound_eq]
    exact .lastGuess h hp hd hg.1.2 hc
  · right
    refine ⟨rfl, fun raw => ?_⟩
    rw [Bool.and_eq_true, decide_eq_true_eq, h.drawerId] at hg
    have hd : player.id ≠ d := fun he => hg.1.1 (by rw [he])
    exact .guess h hp hd hg.1.2 hc
  · exact .inl ⟨rfl, rfl⟩

theorem handleGuess_coherent (env : Env) {room : Room} {player : Player} (text : JsString)
    (h : room.Coherent) (hp : player ∈ room.players.rows) :
    ((handleGuess env room player text).room = room ∧
      (handleGuess env room player text).effects = []) ∨
    (handleGuess env room player text).handled = true ∧
      ∀ raw, Transition env room (.chat player.id raw) (handleGuess env room player text).room
        (handleGuess env room player text).effects := by
  obtain ⟨-, hi | ⟨d, w, hr⟩ | hi⟩ := h
  · rw [handleGuess_no_word hi.word]
    exact .inl ⟨rfl, rfl⟩
  · exact handleGuess_cases env text hr hp
  · rw [handleGuess_no_word hi.word]
    exact .inl ⟨rfl, rfl⟩

theorem handleChat_cases {env : Env} {room t : Room} {id : Uuid} {raw : Option Json}
    {os : List Effect} (h : room.Coherent) (hs : handleChat env room id raw = .ok (t, os)) :
    Transition env room (.chat id raw) t os := by
  rcases handleChat_ok hs with hs | ⟨player, hp, hid, text, hchat⟩
  · cases hs
    exact .unchanged fun _ he => by cases he
  · subst hid
    unfold chatText at hchat
    dsimp only at hchat
    split_ifs at hchat with hnil hhandled
    · cases hchat
      exact .unchanged fun _ he => by cases he
    · obtain ⟨rfl, rfl⟩ := Prod.mk.inj hchat
      rcases handleGuess_coherent env (sliceTo (trim text) MAX_CHAT_LENGTH) h hp with
        ⟨hroom, heff⟩ | ⟨-, hstep⟩
      · rw [hroom, heff]
        exact .unchanged fun _ he => by cases he
      · exact hstep raw
    · obtain ⟨rfl, rfl⟩ := Prod.mk.inj hchat
      -- a guess that was not handled changed nothing
      rcases handleGuess_coherent env (sliceTo (trim text) MAX_CHAT_LENGTH) h hp with
        ⟨hroom, heff⟩ | ⟨hyes, -⟩
      · rw [hroom, heff]
        refine .aside (fun _ he => by cases he) fun e he => ?_
        rw [List.nil_append, List.mem_singleton] at he
        rw [he]
        trivial
      · exact absurd hyes hhandled

theorem roomStep_transition {env : Env} {room t : Room} {input : RoomInput} {os : List Effect}
    (h : room.Coherent) (hs : roomStep env room input = some (t, os)) :
    Transition env room input t os := by
  cases input with
  | join socket identity nickname => exact joinRoom_cases (Option.some.inj hs)
  | leave id => exact leaveRoom_cases h (Option.some.inj hs)
  | chat id text => exact handleChat_cases h (toOption_eq_some hs)
  | draw id stroke => exact handleDraw_cases (toOption_eq_some hs)
  | drawClear id => exact handleDrawClear_cases (Option.some.inj hs)
  | startGame => exact startGame_cases h.1 (Option.some.inj hs)
  | timer id => exact fireTimer_cases h hs

end Frames

end GachaMind.GameSession
