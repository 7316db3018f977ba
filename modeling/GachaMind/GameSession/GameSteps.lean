import GachaMind.GameSession.Transitions

/-!
# What one step does to the game

`GameStep` lists the ways in which one input changes a coherent room with the marks it
leaves, and no other effects: a transition without the strokes and the messages. The
properties of runs that are about the game alone are proved from this list.
-/

namespace GachaMind.GameSession
open GachaMind.Js GachaMind.Shared KeyedTable

/-- One input, handled on a coherent room. -/
inductive GameStep (env : Env) (room : Room) : RoomInput → Room → List GameMark → Prop
  /-- The game is untouched: chat, strokes, refused joins and refused starts. -/
  | quiet {input : RoomInput} (strokes : List StrokeSegment) (h : ∀ id, input ≠ .leave id) :
      GameStep env room input { room with strokes := strokes } []
  | join {socket : SocketId} {identity : Option Identity} {nickname : JsString}
      (h : room.isFull = false) :
      GameStep env room (.join socket identity nickname)
        (seatPlayer room (joiningPlayer env socket identity nickname)) []
  | start {drawer : Player} (hp : room.phase ≠ .playing)
      (hs : MIN_PLAYERS_TO_START ≤ room.size)
      (hq : (room.beginGame env).drawerQueue.head? = some drawer.id)
      (hd : drawer ∈ (room.beginGame env).players.rows) :
      GameStep env room .startGame ((room.beginGame env).openRound env drawer)
        [.gameStarted (room.beginGame env).totalRounds, .roundStarted 1]
  | guess {solver : Player} {text : Option Json} {d : Uuid} {w : JsString}
      (hr : room.InRound d w) (hp : solver ∈ room.players.rows) (hd : solver.id ≠ d)
      (hs : solver.id ∉ room.solvedPlayerIds)
      (hc : (room.scoreGuess env solver.id d).unsolvedGuesserCount ≠ 0) :
      GameStep env room (.chat solver.id text) (room.scoreGuess env solver.id d)
        [.correctAnswer solver.id]
  | lastGuess {solver : Player} {text : Option Json} {d : Uuid} {w : JsString}
      (hr : room.InRound d w) (hp : solver ∈ room.players.rows) (hd : solver.id ≠ d)
      (hs : solver.id ∉ room.solvedPlayerIds)
      (hc : (room.scoreGuess env solver.id d).unsolvedGuesserCount = 0) :
      GameStep env room (.chat solver.id text) (room.scoreGuess env solver.id d).closeRound
        [.correctAnswer solver.id, .roundEnded room.round w]
  | timeUp {id : ℕ} {d : Uuid} {w : JsString} (hr : room.InRound d w) :
      GameStep env room (.timer id) (room.timerFired id).closeRound [.roundEnded room.round w]
  | nextRound {id : ℕ} {drawer : Player} (hi : room.InIntermission)
      (hq : room.drawerQueue.head? = some drawer.id) (hd : drawer ∈ room.players.rows) :
      GameStep env room (.timer id) ((room.timerFired id).openRound env drawer)
        [.roundStarted (room.round + 1)]
  | gameOver {id : ℕ} {g : Uuid} (hi : room.InIntermission) (hq : room.drawerQueue = [])
      (hg : room.gameId = some g) :
      GameStep env room (.timer id) (room.timerFired id).finishGame
        [.gameEnded room.summaries, .published (room.resultEvent env g)]
  | leave {id : Uuid} (h : room.phase = .playing →
        MIN_PLAYERS_TO_START ≤ (room.removePlayer id).size ∧ room.drawerId ≠ some id ∧
        (room.removePlayer id).unsolvedGuesserCount ≠ 0) :
      GameStep env room (.leave id) (room.removePlayer id) []
  | leaveGame {id g : Uuid} (hp : room.Playing)
      (hs : (room.removePlayer id).size < MIN_PLAYERS_TO_START) (hg : room.gameId = some g) :
      GameStep env room (.leave id) (room.removePlayer id).finishGame
        [.gameEnded (room.removePlayer id).summaries,
         .published ((room.removePlayer id).resultEvent env g)]
  | leaveRound {id d : Uuid} {w : JsString} (hr : room.InRound d w)
      (hs : MIN_PLAYERS_TO_START ≤ (room.removePlayer id).size) :
      GameStep env room (.leave id) (room.removePlayer id).closeRound [.roundEnded room.round w]
  /-- A departure in an intermission that leaves only players who had solved the round. -/
  | leaveSolved {id : Uuid} (hi : room.InIntermission)
      (hs : MIN_PLAYERS_TO_START ≤ (room.removePlayer id).size)
      (hc : (room.removePlayer id).unsolvedGuesserCount = 0) :
      GameStep env room (.leave id) (room.removePlayer id).closeRound [.roundEnded room.round []]

theorem marks_aside {os : List Effect} (h : ∀ e ∈ os, e.Aside) : marks os = [] := by
  refine List.flatMap_eq_nil_iff.mpr fun e he => ?_
  have ha := h e he
  cases e with
  | broadcast m _ => cases m <;> first | rfl | exact ha.elim
  | publishGameEvent _ => exact ha.elim
  | _ => rfl

theorem GameStep.unchanged {env : Env} {room : Room} {input : RoomInput}
    (h : ∀ id, input ≠ .leave id) : GameStep env room input room [] :=
  .quiet room.strokes h

theorem Room.marks_openEffects (env : Env) (room : Room) (drawer : Player) :
    marks (room.openEffects env drawer) = [.roundStarted (room.round + 1)] := by
  simp [Room.openEffects, messageMark, Room.startedMessage]

theorem Transition.gameStep {env : Env} {room t : Room} {input : RoomInput} {os : List Effect}
    (hs : Transition env room input t os) : GameStep env room input t (marks os) := by
  cases hs with
  | aside h ho =>
    rw [marks_aside ho]
    exact .unchanged h
  | draw sanitized _ _ =>
    show GameStep env room _ _ []
    unfold Room.addStroke
    split_ifs
    · exact .unchanged fun _ he => by cases he
    · exact .quiet _ fun _ he => by cases he
  | drawClear _ _ => exact .quiet _ fun _ he => by cases he
  | join h =>
    simp only [marks_cons, mark_syncOccupancy, marks_welcome, Option.toList_none, List.append_nil]
    exact .join h
  | start hp hs hq hd =>
    simp only [marks_cons, Room.marks_openEffects]
    exact .start hp hs hq hd
  | guess hr hp hd hs hc => exact .guess hr hp hd hs hc
  | @lastGuess solver _ d w hr hp hd hs hc =>
    show GameStep env room _ _
      [.correctAnswer solver.id, .roundEnded room.round (room.word.getD [])]
    rw [hr.word]
    exact .lastGuess hr hp hd hs hc
  | timeUp hr _ =>
    show GameStep env room _ _ [.roundEnded room.round (room.word.getD [])]
    rw [hr.word]
    exact .timeUp hr
  | nextRound hi _ hq hd =>
    rw [Room.marks_openEffects]
    exact .nextRound hi hq hd
  | gameOver hi _ hq hg => exact .gameOver hi hq hg
  | leave h => exact .leave h
  | leaveGame hp hs hg ho =>
    rw [marks_append, marks_append, marks_aside ho]
    exact .leaveGame hp hs hg
  | leaveRound hr hs ho =>
    rw [marks_append, marks_append, marks_aside ho]
    show GameStep env room _ _ [.roundEnded room.round (room.word.getD [])]
    rw [hr.word]
    exact .leaveRound hr hs
  | leaveSolved hi hs hc =>
    show GameStep env room _ _ [.roundEnded room.round (room.word.getD [])]
    rw [hi.word]
    exact .leaveSolved hi hs hc

theorem roomStep_cases [Runtime] {env : Env} {room t : Room} {input : RoomInput}
    {os : List Effect} (h : room.Coherent) (hs : roomStep env room input = some (t, os)) :
    GameStep env room input t (marks os) :=
  (roomStep_transition h hs).gameStep

end GachaMind.GameSession
