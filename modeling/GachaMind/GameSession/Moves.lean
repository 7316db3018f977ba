import GachaMind.GameSession.RoomSystem

/-!
# The moves of a game

The guarded functions of `Game` take one of a few moves on the room: begin a game,
open a round, score a guess, close the round, finish the game. Each move is a
function on rooms without guards, and each guarded function is shown to be its move
in the states where its guard lets it through. `GameMark` is what an observer of the
game sees of the effects.
-/

namespace GachaMind.GameSession
open GachaMind.Js GachaMind.Shared KeyedTable

/-! ### What is observed -/

inductive GameMark where
  | gameStarted (totalRounds : ℕ)
  | roundStarted (round : ℕ)
  | correctAnswer (playerId : Uuid)
  | roundEnded (round : ℕ) (word : JsString)
  | gameEnded (players : List PlayerSummary)
  | published (event : GameFinishedEvent)
  deriving DecidableEq

def messageMark : ServerToClientMessage → Option GameMark
  | .gameStarted totalRounds => some (.gameStarted totalRounds)
  | .roundStarted m => some (.roundStarted m.round)
  | .correctAnswer playerId _ _ => some (.correctAnswer playerId)
  | .roundEnded round word _ => some (.roundEnded round word)
  | .gameEnded players => some (.gameEnded players)
  | _ => none

def Effect.mark : Effect → Option GameMark
  | .broadcast message _ => messageMark message
  | .publishGameEvent event => some (.published event)
  | _ => none

def marks (os : List Effect) : List GameMark := os.flatMap fun e => e.mark.toList

@[simp] theorem marks_nil : marks [] = [] := rfl

@[simp] theorem marks_cons (e : Effect) (os : List Effect) :
    marks (e :: os) = e.mark.toList ++ marks os := rfl

@[simp] theorem marks_append (os ps : List Effect) : marks (os ++ ps) = marks os ++ marks ps :=
  List.flatMap_append

@[simp] theorem mark_broadcast (env : Env) (room : Room) (message : ServerToClientMessage)
    (exclude : Option Uuid) : (room.broadcast env message exclude).mark = messageMark message := rfl

@[simp] theorem mark_notice (env : Env) (room : Room) (site : ClockSite) (text : JsString) :
    (room.notice env site text).mark = none := rfl

@[simp] theorem mark_syncOccupancy (env : Env) (room : Room) :
    (syncOccupancy env room).mark = none := rfl

@[simp] theorem marks_send (env : Env) (room : Room) (playerId : Uuid)
    (message : ServerToClientMessage) : marks (room.send env playerId message) = [] := by
  unfold Room.send
  split
  · rfl
  · split_ifs <;> rfl

@[simp] theorem marks_welcome (env : Env) (room : Room) (player : Player) :
    marks (welcome env room player) = [] := by
  simp [welcome, messageMark]

def publishedEvents (os : List Effect) : List GameFinishedEvent :=
  os.filterMap fun
    | .publishGameEvent event => some event
    | _ => none

theorem publishedEvents_append (os ps : List Effect) :
    publishedEvents (os ++ ps) = publishedEvents os ++ publishedEvents ps :=
  List.filterMap_append

theorem mem_publishedEvents {os : List Effect} {event : GameFinishedEvent} :
    event ∈ publishedEvents os ↔ .publishGameEvent event ∈ os := by
  simp only [publishedEvents, List.mem_filterMap]
  constructor
  · intro hs
    obtain ⟨e, he, hp⟩ := hs
    cases e <;> simp at hp
    exact hp ▸ he
  · exact fun h => ⟨_, h, rfl⟩

theorem published_mem_marks {os : List Effect} {event : GameFinishedEvent} :
    GameMark.published event ∈ marks os ↔ .publishGameEvent event ∈ os := by
  simp only [marks, List.mem_flatMap, Option.mem_toList]
  constructor
  · intro hs
    obtain ⟨e, he, hp⟩ := hs
    cases e with
    | broadcast m _ => cases m <;> simp [Effect.mark, messageMark] at hp
    | publishGameEvent event' =>
      obtain rfl : event' = event := by simpa [Effect.mark] using hp
      exact he
    | _ => simp [Effect.mark] at hp
  · exact fun h => ⟨_, h, rfl⟩

/-! ### Moves on the room -/

namespace Room

/-- `endRound` past its guard, with players left. -/
def closeRound (room : Room) : Room :=
  ({ room.clearRoundTimer with drawerId := none, word := none, roundEndsAt := none }
    : Room).setRoundTimer .intermission

/-- `endGame` past its guard. -/
def finishGame (room : Room) : Room :=
  { room.clearRoundTimer with
    phase := .ended
    gameId := none
    drawerId := none
    word := none
    roundEndsAt := none
    drawerQueue := [] }

/-- `startRound` when the head of the queue is the present player `drawer`. -/
def openRound (env : Env) (room : Room) (drawer : Player) : Room :=
  ({ room.clearRoundTimer with
      drawerQueue := room.drawerQueue.tail
      round := room.round + 1
      drawerId := some drawer.id
      word := some (pickWord env room.usedWords)
      usedWords := room.usedWords ++ [pickWord env room.usedWords]
      roundEndsAt := some (env.now .roundStart + ROUND_DURATION_MS)
      solvedPlayerIds := ∅
      strokes := [] } : Room).setRoundTimer .endRound

/-- `startGame` past its guards, before the first round. -/
def beginGame (env : Env) (room : Room) : Room :=
  { room with
    players := room.resetScores
    phase := .playing
    gameId := some env.uuid
    round := 0
    usedWords := []
    totalRounds := min room.size MAX_ROUNDS
    drawerQueue := (shuffle env.random room.players.keys).take (min room.size MAX_ROUNDS) }

def scoreGuess (env : Env) (room : Room) (solver drawer : Uuid) : Room :=
  addScore (addScore { room with solvedPlayerIds := insert solver room.solvedPlayerIds } solver
    (answerAward ((room.remainingMs (env.now .guess)).getD 0))) drawer DRAWER_SCORE_PER_SOLVER

def timerFired (room : Room) (id : ℕ) : Room :=
  { room with timers := room.timers.clearTimeout id }

/-- The event that `endGame` publishes. -/
def resultEvent (env : Env) (room : Room) (gameId : Uuid) : GameFinishedEvent :=
  { gameId := gameId
    roomId := room.id
    finishedAt := env.now .finish
    roundsPlayed := room.round
    players := toResultPlayers room }

end Room

/-! ### The guarded functions take their moves -/

theorem endRound_playing (env : Env) (room : Room) (h : room.phase = .playing)
    (hs : room.size ≠ 0) :
    endRound env room = (room.closeRound,
      [room.broadcast env (.roundEnded room.round (room.word.getD []) room.summaries)]) := by
  have hs' : room.players.size ≠ 0 := hs
  simp [endRound, h, Room.clearRoundTimer, Room.size, hs', Room.closeRound]
  rfl

theorem endGame_playing (env : Env) (room : Room) (g : Uuid) (h : room.phase = .playing)
    (hg : room.gameId = some g) :
    endGame env room = (room.finishGame,
      [room.broadcast env (.gameEnded room.summaries), syncOccupancy env room.finishGame,
       .publishGameEvent (room.resultEvent env g)]) := by
  simp only [endGame, h, ne_eq, not_true_eq_false, ite_false, Room.clearRoundTimer, hg]
  rfl

theorem scoreAnswer_drawer (env : Env) (room : Room) (solver d : Uuid)
    (h : room.drawerId = some d) : scoreAnswer env room solver = room.scoreGuess env solver d := by
  cases room
  cases h
  rfl

end GachaMind.GameSession
