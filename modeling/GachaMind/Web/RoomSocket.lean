import GachaMind.Js.Serialized
import GachaMind.Shared

/-!
# The room page (apps/web/src/features/room/useRoomSocket.ts)

The state of the hook and what `onmessage` makes of each message. `now` is the clock of the
device when it handles the message. The listeners of the canvas are told what happens to
`strokesRef` and keep no state of their own here.

The room sends each message as the text of `JSON.stringify`, and `onmessage` begins with
`JSON.parse`. That changes nothing but the points of strokes, which the room keeps as they arrived:
all other numbers of a message are finite.
-/

namespace GachaMind.Web
open GachaMind.Js GachaMind.Shared

inductive RoomConnectionStatus where
  | connecting
  | connected
  | disconnected
  | notFound
  | roomFull
  deriving DecidableEq

inductive FeedKind where
  | chat
  | system
  | correct
  deriving DecidableEq

structure FeedEntry where
  kind : FeedKind
  nickname : Option JsString := none
  text : JsString
  sentAt : ℤ
  deriving DecidableEq

structure GameState where
  phase : GamePhase := .waiting
  round : ℕ := 0
  totalRounds : ℕ := 0
  drawerId : Option Uuid := none
  drawerNickname : Option JsString := none
  roundEndsAt : Option ℤ := none
  wordLength : Option ℕ := none
  word : Option JsString := none
  solvedIds : List Uuid := []
  revealedWord : Option JsString := none
  deriving DecidableEq

def INITIAL_GAME : GameState := {}

def MAX_FEED_ENTRIES : ℕ := 200

def toLocalDeadline (now : ℤ) (remainingMs : Option ℤ) : Option ℤ :=
  remainingMs.map fun ms => now + ms

/-- A stroke as it comes out of the text that it was sent as. -/
def parsedStroke (stroke : StrokeSegment) : StrokeSegment :=
  { stroke with points := serializedItems stroke.points }

/-- The state of `useRoomSocket`; `strokes` is `strokesRef`. -/
structure RoomSocket where
  status : RoomConnectionStatus := .connecting
  me : Option PlayerSummary := none
  players : List PlayerSummary := []
  feed : List FeedEntry := []
  game : GameState := INITIAL_GAME
  strokes : List StrokeSegment := []

namespace RoomSocket

/-- `[...prev, entry].slice(-MAX_FEED_ENTRIES)`. -/
def pushFeed (c : RoomSocket) (entry : FeedEntry) : RoomSocket :=
  let entries := c.feed ++ [entry]
  { c with feed := entries.drop (entries.length - MAX_FEED_ENTRIES) }

@[simp] theorem pushFeed_players (c : RoomSocket) (entry : FeedEntry) :
    (c.pushFeed entry).players = c.players := by
  simp only [pushFeed]

@[simp] theorem pushFeed_game (c : RoomSocket) (entry : FeedEntry) :
    (c.pushFeed entry).game = c.game := by
  simp only [pushFeed]

@[simp] theorem pushFeed_strokes (c : RoomSocket) (entry : FeedEntry) :
    (c.pushFeed entry).strokes = c.strokes := by
  simp only [pushFeed]

/-- `socket.onmessage`, for a message as the room has passed it to `JSON.stringify`. -/
def onmessage (c : RoomSocket) (now : ℤ) : ServerToClientMessage → RoomSocket
  | .roomState m =>
    { c with
      me := some m.you
      players := m.players
      game :=
        { phase := m.phase
          round := m.round
          totalRounds := m.totalRounds
          drawerId := m.drawerId
          drawerNickname :=
            (m.players.find? fun p => some p.id = m.drawerId).map PlayerSummary.nickname
          roundEndsAt := toLocalDeadline now m.remainingMs
          wordLength := m.wordLength
          word := none
          solvedIds := []
          revealedWord := none }
      strokes := m.strokes.map parsedStroke }
  | .playerJoined _ player _ =>
    { c with
      players := if c.players.any fun p => p.id = player.id then c.players
        else c.players ++ [player] }
  | .playerLeft _ playerId _ _ => { c with players := c.players.filter fun p => p.id ≠ playerId }
  | .roomFull _ => { c with status := .roomFull }
  | .roomNotFound _ => { c with status := .notFound }
  | .chat _ nickname text sentAt =>
    c.pushFeed { kind := .chat, nickname := some nickname, text := text, sentAt := sentAt }
  | .system text sentAt => c.pushFeed { kind := .system, text := text, sentAt := sentAt }
  | .draw stroke => { c with strokes := c.strokes ++ [parsedStroke stroke] }
  | .drawClear => { c with strokes := [] }
  | .gameStarted totalRounds =>
    { c with
      game := { c.game with phase := .playing, totalRounds := totalRounds, revealedWord := none } }
  | .roundStarted m =>
    { c with
      game :=
        { c.game with
          phase := .playing
          round := m.round
          totalRounds := m.totalRounds
          drawerId := some m.drawerId
          drawerNickname := some m.drawerNickname
          roundEndsAt := toLocalDeadline now (some m.remainingMs)
          wordLength := some m.wordLength
          word := m.word
          solvedIds := []
          revealedWord := none } }
  | .correctAnswer playerId nickname players =>
    ({ c with
      players := players
      game := { c.game with solvedIds := c.game.solvedIds ++ [playerId] } } : RoomSocket).pushFeed
        { kind := .correct
          nickname := some nickname
          text := nickname ++ utf16 "님이 정답을 맞혔습니다."
          sentAt := now }
  | .roundEnded round word players =>
    ({ c with
      players := players
      game :=
        { c.game with
          drawerId := none
          drawerNickname := none
          roundEndsAt := none
          word := none
          revealedWord := some word } } : RoomSocket).pushFeed
        { kind := .system
          text := utf16 s!"{round}라운드 종료. 정답은 \"" ++ word ++ utf16 "\"였습니다."
          sentAt := now }
  | .gameEnded players =>
    ({ c with
      players := players
      game := { c.game with phase := .ended, drawerId := none, roundEndsAt := none }
      : RoomSocket }).pushFeed
        { kind := .system, text := utf16 "게임이 종료되었습니다.", sentAt := now }

end RoomSocket

/-! ### The parts of the page -/

/-- What a message does to the list of players. -/
def playersAfter (players : List PlayerSummary) : ServerToClientMessage → List PlayerSummary
  | .roomState m => m.players
  | .playerJoined _ player _ =>
    if players.any fun p => p.id = player.id then players else players ++ [player]
  | .playerLeft _ playerId _ _ => players.filter fun p => p.id ≠ playerId
  | .correctAnswer _ _ players => players
  | .roundEnded _ _ players => players
  | .gameEnded players => players
  | _ => players

/-- What a message does to the strokes. -/
def strokesAfter (strokes : List StrokeSegment) : ServerToClientMessage → List StrokeSegment
  | .roomState m => m.strokes.map parsedStroke
  | .draw stroke => strokes ++ [parsedStroke stroke]
  | .drawClear => []
  | _ => strokes

theorem onmessage_players (c : RoomSocket) (now : ℤ) (m : ServerToClientMessage) :
    (c.onmessage now m).players = playersAfter c.players m := by
  cases m <;> simp only [RoomSocket.onmessage, playersAfter, RoomSocket.pushFeed_players]

theorem onmessage_strokes (c : RoomSocket) (now : ℤ) (m : ServerToClientMessage) :
    (c.onmessage now m).strokes = strokesAfter c.strokes m := by
  cases m <;> simp only [RoomSocket.onmessage, strokesAfter, RoomSocket.pushFeed_strokes]

/-- A message that leaves players, game and strokes of the page alone. -/
def IsAside : ServerToClientMessage → Prop
  | .chat _ _ _ _ => True
  | .system _ _ => True
  | _ => False

theorem onmessage_game_of_aside {c : RoomSocket} {now : ℤ} {m : ServerToClientMessage}
    (h : IsAside m) : (c.onmessage now m).game = c.game := by
  cases m with
  | chat _ _ _ _ => simp only [RoomSocket.onmessage, RoomSocket.pushFeed_game]
  | system _ _ => simp only [RoomSocket.onmessage, RoomSocket.pushFeed_game]
  | _ => exact h.elim

end GachaMind.Web
