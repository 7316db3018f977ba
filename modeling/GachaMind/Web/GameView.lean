import GachaMind.Web.Clients

/-!
# The state of the game on the page

After each step of the room the page of every connected player is in the same phase and the
same round of the same length, with the same drawer, and counts down exactly while a round runs.
-/

namespace GachaMind.Web
open GachaMind.Js GachaMind.Shared GachaMind.GameSession KeyedTable Replica

/-- The page is where the room is. -/
structure Follows (room : Room) (game : GameState) : Prop where
  phase : game.phase = room.phase
  round : game.round = room.round
  totalRounds : game.totalRounds = room.totalRounds
  drawerId : game.drawerId = room.drawerId
  countdown : game.roundEndsAt = none ↔ room.roundEndsAt = none

/-! ### Single messages -/

section
variable (page : RoomSocket) (now : ℤ)

theorem game_roundEnded (round : ℕ) (word : JsString) (players : List PlayerSummary) :
    (page.onmessage now (.roundEnded round word players)).game =
      { page.game with
        drawerId := none, drawerNickname := none, roundEndsAt := none, word := none,
        revealedWord := some word } := by
  simp only [RoomSocket.onmessage, RoomSocket.pushFeed_game]

theorem game_gameEnded (players : List PlayerSummary) :
    (page.onmessage now (.gameEnded players)).game =
      { page.game with phase := .ended, drawerId := none, roundEndsAt := none } := by
  simp only [RoomSocket.onmessage, RoomSocket.pushFeed_game]

theorem game_correctAnswer (playerId : Uuid) (nickname : JsString)
    (players : List PlayerSummary) :
    (page.onmessage now (.correctAnswer playerId nickname players)).game =
      { page.game with solvedIds := page.game.solvedIds ++ [playerId] } := by
  simp only [RoomSocket.onmessage, RoomSocket.pushFeed_game]

end

theorem pageAfter_departure {ms : List ServerToClientMessage} (h : ∀ m ∈ ms, IsAside m)
    (roomId : RoomId) (left : Uuid) (nickname : JsString) (count : ℕ)
    (last : ServerToClientMessage) (clock : ℕ → ℤ) (page : RoomSocket) :
    ∃ (before : RoomSocket) (now : ℤ), before.game = page.game ∧
      pageAfter clock page (.playerLeft roomId left nickname count :: ms ++ [last]) =
        before.onmessage now last := by
  refine ⟨pageAfter clock page (.playerLeft roomId left nickname count :: ms), _, ?_,
    replay_append _ _ _ _ _⟩
  rw [game_pageAfter_cons h]
  rfl

theorem game_roundStarted (page : RoomSocket) (now : ℤ) (env : Env) (room : Room)
    (drawer : Player) (id : Uuid) : ∃ word,
    (page.onmessage now (.roundStarted (toldTo env room drawer id))).game =
      { page.game with
        phase := .playing
        round := room.round + 1
        totalRounds := room.totalRounds
        drawerId := some drawer.id
        drawerNickname := some drawer.nickname
        roundEndsAt := some (now + (room.startedMessage env drawer).remainingMs)
        wordLength := some (pickWord env room.usedWords).length
        word := word
        solvedIds := []
        revealedWord := none } := by
  obtain ⟨word, hw⟩ := toldTo_word env room drawer id
  refine ⟨word, ?_⟩
  rw [hw]
  rfl

/-! ### Steps -/

theorem follows_opened {room : Room} (env : Env) (drawer : Player) (id : Uuid) (page : RoomSocket)
    (now : ℤ) (hp : room.phase = .playing) :
    Follows (room.openRound env drawer)
      (page.onmessage now (.roundStarted (toldTo env room drawer id))).game := by
  obtain ⟨word, hgame⟩ := game_roundStarted page now env room drawer id
  rw [hgame]
  exact ⟨hp.symm, rfl, rfl, rfl, by simp [Room.openRound, Room.setRoundTimer]⟩

theorem follows_closed {room : Room} {page : RoomSocket} (now : ℤ) (n : ℕ) (word : JsString)
    (players : List PlayerSummary) (h : Follows room page.game) :
    Follows room.closeRound (page.onmessage now (.roundEnded n word players)).game := by
  rw [game_roundEnded]
  exact ⟨h.phase, h.round, h.totalRounds, rfl, by simp [Room.closeRound, Room.setRoundTimer]⟩

theorem follows_finished {room : Room} {page : RoomSocket} (now : ℤ)
    (players : List PlayerSummary) (h : Follows room page.game) :
    Follows room.finishGame (page.onmessage now (.gameEnded players)).game := by
  rw [game_gameEnded]
  exact ⟨rfl, h.round, h.totalRounds, rfl, by simp [Room.finishGame]⟩

theorem Follows.of_fields {room t : Room} {game g : GameState} (h : Follows room game)
    (hg : g.phase = game.phase ∧ g.round = game.round ∧ g.totalRounds = game.totalRounds ∧
      g.drawerId = game.drawerId ∧ g.roundEndsAt = game.roundEndsAt)
    (ht : t.phase = room.phase ∧ t.round = room.round ∧ t.totalRounds = room.totalRounds ∧
      t.drawerId = room.drawerId ∧ t.roundEndsAt = room.roundEndsAt) : Follows t g := by
  obtain ⟨g1, g2, g3, g4, g5⟩ := hg
  obtain ⟨t1, t2, t3, t4, t5⟩ := ht
  exact ⟨by rw [g1, t1, h.phase], by rw [g2, t2, h.round], by rw [g3, t3, h.totalRounds],
    by rw [g4, t4, h.drawerId], by rw [g5, t5, h.countdown]⟩

theorem follows_heard {env : Env} {room t : Room} {id : Uuid} {input : RoomInput}
    {ms : List ServerToClientMessage} {ks : List GameMark}
    (hs : Heard env room id input t ms ks) (clock : ℕ → ℤ) {page : RoomSocket}
    (h : Follows room page.game) : Follows t (pageAfter clock page ms).game := by
  cases hs with
  | aside hms => rwa [game_pageAfter_aside hms]
  | draw stroke _ =>
    have ht : Follows (room.addStroke stroke) page.game := by
      rw [Room.addStroke_eq]
      exact h.of_fields ⟨rfl, rfl, rfl, rfl, rfl⟩ ⟨rfl, rfl, rfl, rfl, rfl⟩
    split_ifs
    · exact ht
    · exact ht
  | drawClear _ =>
    have ht : Follows room.clearStrokes page.game :=
      h.of_fields ⟨rfl, rfl, rfl, rfl, rfl⟩ ⟨rfl, rfl, rfl, rfl, rfl⟩
    split_ifs
    · exact ht
    · exact ht
  | join _ _ _ hms =>
    rw [game_pageAfter_cons hms, Room.seatPlayer_eq]
    exact h.of_fields ⟨rfl, rfl, rfl, rfl, rfl⟩ ⟨rfl, rfl, rfl, rfl, rfl⟩
  | start _ _ => exact follows_opened env _ id _ _ rfl
  | answer _ _ =>
    rw [pageAfter, replay_cons, replay_nil, game_correctAnswer]
    exact h.of_fields ⟨rfl, rfl, rfl, rfl, rfl⟩ ⟨rfl, rfl, rfl, rfl, rfl⟩
  | @lastAnswer solver _ d _ _ _ =>
    refine follows_closed _ _ _ _ ?_
    rw [game_correctAnswer]
    exact h.of_fields ⟨rfl, rfl, rfl, rfl, rfl⟩ ⟨rfl, rfl, rfl, rfl, rfl⟩
  | @close n _ _ _ =>
    have hfired : Follows (room.timerFired n) page.game :=
      h.of_fields ⟨rfl, rfl, rfl, rfl, rfl⟩ ⟨rfl, rfl, rfl, rfl, rfl⟩
    exact follows_closed _ _ _ _ hfired
  | next hi => exact follows_opened env _ id _ _ hi.phase
  | @finish n _ =>
    have hfired : Follows (room.timerFired n) page.game :=
      h.of_fields ⟨rfl, rfl, rfl, rfl, rfl⟩ ⟨rfl, rfl, rfl, rfl, rfl⟩
    exact follows_finished _ _ hfired
  | @leave left _ _ _ hms =>
    rw [game_pageAfter_cons hms]
    exact h.of_fields ⟨rfl, rfl, rfl, rfl, rfl⟩ ⟨rfl, rfl, rfl, rfl, rfl⟩
  | @leaveGame left nickname count _ _ hms =>
    obtain ⟨before, now, hb, he⟩ := pageAfter_departure hms room.id left nickname count
      (.gameEnded (room.removePlayer left).summaries) clock page
    rw [he]
    refine follows_finished _ _ ?_
    rw [hb]
    exact h.of_fields ⟨rfl, rfl, rfl, rfl, rfl⟩ ⟨rfl, rfl, rfl, rfl, rfl⟩
  | @leaveRound left nickname count _ _ hms =>
    obtain ⟨before, now, hb, he⟩ := pageAfter_departure hms room.id left nickname count
      (.roundEnded room.round (room.word.getD []) (room.removePlayer left).summaries) clock page
    rw [he]
    refine follows_closed _ _ _ _ ?_
    rw [hb]
    exact h.of_fields ⟨rfl, rfl, rfl, rfl, rfl⟩ ⟨rfl, rfl, rfl, rfl, rfl⟩

section
variable [Runtime]

theorem reachable_follows {id : RoomId} {capacity : ℕ} {s : Clients}
    (hr : Machine.Reachable (clientSystem id capacity) s) {p : Uuid}
    {ms : List ServerToClientMessage} (hp : s.2 p = some ms) (clock : ℕ → ℤ) (page : RoomSocket) :
    Follows s.1.room (pageAfter clock page ms).game := by
  refine clients_rule (R := fun s _ _ page => Follows s.room page.game) (A := fun _ _ => True)
    (fun _ hr => reachable_inv hr) ?_ ?_ (hr.to_restrict fun _ _ => trivial) hp clock page
  · intro env s t player ms clock page _ _ _ _ _ hms
    rw [game_pageAfter_cons hms]
    exact ⟨rfl, rfl, rfl, rfl, by simp [RoomSocket.onmessage, snapshot, toLocalDeadline,
      Room.remainingMs]⟩
  · intro env input s inbox t p ns ms ks clock page _ _ _ _ hs hrel
    exact follows_heard hs clock hrel

/-- The page of every connected player follows the room through all of its games. -/
theorem game_followed (id : RoomId) (capacity : ℕ) (s : Clients)
    (hr : Machine.Reachable (clientSystem id capacity) s) (p : Uuid)
    (ms : List ServerToClientMessage) (hp : s.2 p = some ms) (clock : ℕ → ℤ) (page : RoomSocket) :
    Follows s.1.room (pageAfter clock page ms).game :=
  reachable_follows hr hp clock page

end

/-- A fourth player joins in the intermission before the second round. -/
def joinInIntermission : List RoomInput :=
  [.join 0 none (utf16 "a"), .join 1 none (utf16 "b"), .join 2 none (utf16 "c"), .startGame,
   .timer 0, .join 3 none (utf16 "d"), .timer 1]

theorem joinInIntermission_followed : ∃ s os ms,
    Machine.Run plainClients (numbered joinInIntermission) s os ∧ s.2 ⟨5⟩ = some ms ∧
      s.1.room.round = 2 ∧ Follows s.1.room (pageAfter (fun _ => 0) {} ms).game :=
  ⟨_, _, _, Machine.exec_observe_run (by decide +kernel),
    (Option.some_get (by decide +kernel)).symm, by decide +kernel,
    @game_followed plainRuntime _ _ _ ⟨_, _, Machine.exec_observe_run (by decide +kernel)⟩ _ _
      (Option.some_get (by decide +kernel)).symm _ _⟩

end GachaMind.Web
