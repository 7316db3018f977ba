import GachaMind.Lib.Binary64
import GachaMind.GameSession.Room

/-!
# The game (apps/game-session/src/game.ts, words.ts)

Rounds, scores and results of one room. Each function takes the room before the
call and returns the room after it with the effects in the order they are issued.
-/

namespace GachaMind.GameSession
open GachaMind.Js GachaMind.Shared KeyedTable

def BASE_ANSWER_SCORE : ℤ := 10
def SPEED_BONUS_SCORE : ℤ := 90
def DRAWER_SCORE_PER_SOLVER : ℤ := 10

/-! ### Words -/

def WORDS : List JsString :=
  [utf16 "사과", utf16 "바나나", utf16 "고양이", utf16 "강아지",
   utf16 "자전거", utf16 "비행기", utf16 "우산", utf16 "안경",
   utf16 "피아노", utf16 "기타", utf16 "축구공", utf16 "냉장고",
   utf16 "선풍기", utf16 "컴퓨터", utf16 "휴대폰", utf16 "시계",
   utf16 "코끼리", utf16 "기린", utf16 "펭귄", utf16 "상어",
   utf16 "무지개", utf16 "눈사람", utf16 "케이크", utf16 "피자",
   utf16 "햄버거", utf16 "커피", utf16 "로켓", utf16 "등대",
   utf16 "다리", utf16 "성", utf16 "왕관", utf16 "보물상자"]

def wordPool (exclude : List JsString) : List JsString :=
  let pool := WORDS.filter fun word => !exclude.contains word
  if pool.isEmpty then WORDS else pool

def pickWord (env : Env) (exclude : List JsString) : JsString :=
  let candidates := wordPool exclude
  (candidates[env.pick % candidates.length]?).getD []

theorem wordPool_ne_nil (exclude : List JsString) : wordPool exclude ≠ [] := by
  unfold wordPool
  dsimp only
  split_ifs with h
  · simp [WORDS]
  · simpa using h

theorem wordPool_subset (exclude : List JsString) : wordPool exclude ⊆ WORDS := by
  unfold wordPool
  dsimp only
  split_ifs
  · exact List.Subset.refl _
  · exact List.filter_subset_self _

theorem pickWord_mem (env : Env) (exclude : List JsString) : pickWord env exclude ∈ WORDS := by
  have hpos : 0 < (wordPool exclude).length := List.length_pos_iff.mpr (wordPool_ne_nil exclude)
  have hlt := Nat.mod_lt env.pick hpos
  unfold pickWord
  dsimp only
  rw [List.getElem?_eq_getElem hlt, Option.getD_some]
  exact wordPool_subset exclude (List.getElem_mem hlt)

/-! ### Shuffle -/

def shuffleLoop {α : Type} (random : ℕ → ℕ) : ℕ → Array α → Array α
  | 0, result => result
  | i + 1, result =>
    shuffleLoop random i (result.swapIfInBounds (i + 1) (random (i + 1) % (i + 2)))

def shuffle {α : Type} (random : ℕ → ℕ) (items : List α) : List α :=
  (shuffleLoop random (items.length - 1) items.toArray).toList

theorem shuffleLoop_perm {α : Type} (random : ℕ → ℕ) (i : ℕ) (a : Array α) :
    (shuffleLoop random i a).toList.Perm a.toList := by
  induction i generalizing a with
  | zero => exact .refl _
  | succ i ih =>
    refine (ih _).trans ?_
    rw [Array.swapIfInBounds]
    split_ifs
    · exact (Array.swap_perm ..).toList
    · exact .refl _
    · exact .refl _

theorem shuffle_perm {α : Type} (random : ℕ → ℕ) (items : List α) :
    (shuffle random items).Perm items :=
  shuffleLoop_perm random _ _

/-! ### Results -/

/-- The loop of `toResultPlayers`: `rank` and `previousScore` are its two variables. -/
def rankFrom : ℕ → ℕ → Option ℤ → List Player → List GameResultPlayer
  | _, _, _, [] => []
  | index, rank, previousScore, player :: rest =>
    let first := decide (previousScore ≠ some player.score)
    let rank := if first then index + 1 else rank
    let previousScore := if first then some player.score else previousScore
    { playerId := player.id
      userId := player.userId
      nickname := player.nickname
      score := player.score
      rank := rank } :: rankFrom (index + 1) rank previousScore rest

/-- Sorted by score, ties in join order. -/
def sortedByScore (room : Room) : List Player :=
  room.players.rows.insertionSort fun a b => b.score ≤ a.score

def toResultPlayers (room : Room) : List GameResultPlayer :=
  rankFrom 0 0 none (sortedByScore room)

/-! ### Occupancy report (apps/game-session/src/occupancy.ts) -/

def syncOccupancy (env : Env) (room : Room) : Effect :=
  .syncOccupancy room.id
    { shard := env.shard
      capacity := room.capacity
      playerCount := room.size
      phase := room.phase }

/-! ### Rounds -/

def endGame (env : Env) (room : Room) : Room × List Effect :=
  if room.phase ≠ .playing then (room, [])
  else
    let room := room.clearRoundTimer
    let gameId := room.gameId
    let roundsPlayed := room.round
    let room := { room with
      phase := .ended
      gameId := none
      drawerId := none
      word := none
      roundEndsAt := none
      drawerQueue := [] }
    let published := match gameId with
      | none => []
      | some gameId => [Effect.publishGameEvent
          { gameId := gameId
            roomId := room.id
            finishedAt := env.now .finish
            roundsPlayed := roundsPlayed
            players := toResultPlayers room }]
    (room, room.broadcast env (.gameEnded room.summaries) :: syncOccupancy env room :: published)

def startRound (env : Env) (room : Room) : Room × List Effect :=
  let room := room.clearRoundTimer
  let drawerId := room.drawerQueue.head?
  let room := { room with drawerQueue := room.drawerQueue.tail }
  match drawerId.bind room.players.get? with
  | none => endGame env room
  | some drawer =>
    let word := pickWord env room.usedWords
    let room := { room with
      round := room.round + 1
      drawerId := some drawer.id
      word := some word
      usedWords := room.usedWords ++ [word]
      roundEndsAt := some (env.now .roundStart + ROUND_DURATION_MS)
      solvedPlayerIds := ∅
      strokes := [] }
    let started : RoundStartedMessage :=
      { round := room.round
        totalRounds := room.totalRounds
        drawerId := drawer.id
        drawerNickname := drawer.nickname
        remainingMs := (room.remainingMs (env.now .roundRemaining)).getD ROUND_DURATION_MS
        wordLength := word.length
        word := none }
    (room.setRoundTimer .endRound,
      room.broadcast env .drawClear
        :: room.broadcast env (.roundStarted started) (some drawer.id)
        :: room.send env drawer.id (.roundStarted { started with word := some word }))

def startGame (env : Env) (room : Room) : Room × List Effect :=
  if room.phase = .playing then (room, [])
  else if room.size < MIN_PLAYERS_TO_START then
    (room, [room.notice env .gameNotice
      (utf16 s!"게임을 시작하려면 {MIN_PLAYERS_TO_START}명 이상이 필요합니다.")])
  else
    let totalRounds := min room.size MAX_ROUNDS
    let room := { room with
      players := room.resetScores
      phase := .playing
      gameId := some env.uuid
      round := 0
      usedWords := []
      totalRounds := totalRounds
      drawerQueue := (shuffle env.random room.players.keys).take totalRounds }
    let started := startRound env room
    (started.1,
      room.broadcast env (.gameStarted totalRounds) :: syncOccupancy env room :: started.2)

def endRound (env : Env) (room : Room) : Room × List Effect :=
  if room.phase ≠ .playing then (room, [])
  else
    let room := room.clearRoundTimer
    let word := room.word.getD []
    let room := { room with drawerId := none, word := none, roundEndsAt := none }
    let ended := room.broadcast env (.roundEnded room.round word room.summaries)
    if room.size = 0 then (room, [ended]) else (room.setRoundTimer .intermission, [ended])

/-- The callback that `endRound` passes to `setTimeout`. -/
def intermissionOver (env : Env) (room : Room) : Room × List Effect :=
  if room.phase ≠ .playing then (room, [])
  else if room.size < MIN_PLAYERS_TO_START ∨ room.drawerQueue = [] then endGame env room
  else startRound env room

/-! ### Guesses -/

/-- `Math.round`. -/
def mathRound (q : ℚ) : ℤ := ⌊q + 1 / 2⌋

/-- What a correct guess earns with `remainingMs` left, in double arithmetic. -/
def answerAward (remainingMs : ℤ) : ℤ :=
  let speedRatio := Binary64.fl (remainingMs / ROUND_DURATION_MS)
  BASE_ANSWER_SCORE + mathRound (Binary64.fl (SPEED_BONUS_SCORE * speedRatio))

def addScore (room : Room) (playerId : Uuid) (points : ℤ) : Room :=
  { room with
    players := room.players.modify playerId (fun p => { p with score := p.score + points })
      fun _ => rfl }

/-- The scores after a correct guess: `room.drawerId` is read after the guesser is paid. -/
def scoreAnswer (env : Env) (room : Room) (solver : Uuid) : Room :=
  let room := { room with solvedPlayerIds := insert solver room.solvedPlayerIds }
  let award := answerAward ((room.remainingMs (env.now .guess)).getD 0)
  let room := addScore room solver award
  match room.drawerId with
  | none => room
  | some drawerId => addScore room drawerId DRAWER_SCORE_PER_SOLVER

structure GuessOutcome where
  handled : Bool
  room : Room
  effects : List Effect

variable [Runtime]

def handleGuess (env : Env) (room : Room) (player : Player) (text : JsString) : GuessOutcome :=
  match room.phase, room.word with
  | .playing, some word =>
    -- `!room.word` is also true of an empty word
    if word = [] then ⟨false, room, []⟩
    else
      let guess := normalizeAnswer text
      let answer := normalizeAnswer word
      let isGuesser := decide (some player.id ≠ room.drawerId ∧ player.id ∉ room.solvedPlayerIds)
      if isGuesser && decide (guess = answer) then
        let room := scoreAnswer env room player.id
        let correct := room.broadcast env (.correctAnswer player.id player.nickname room.summaries)
        if room.unsolvedGuesserCount = 0 then
          let ended := endRound env room
          ⟨true, ended.1, correct :: ended.2⟩
        else ⟨true, room, [correct]⟩
      else ⟨includes guess answer, room, []⟩
  | _, _ => ⟨false, room, []⟩

omit [Runtime] in
def handlePlayerLeftDuringGame (env : Env) (room : Room) (leftPlayerId : Uuid) :
    Room × List Effect :=
  if room.phase ≠ .playing then (room, [])
  else if room.size < MIN_PLAYERS_TO_START then
    let ended := endGame env room
    (ended.1, room.notice env .gameNotice (utf16 "인원이 부족해 게임을 종료합니다.") :: ended.2)
  else if room.drawerId = some leftPlayerId then
    let ended := endRound env room
    (ended.1, room.notice env .gameNotice (utf16 "출제자가 나가 라운드를 종료합니다.") :: ended.2)
  else if room.unsolvedGuesserCount = 0 then endRound env room
  else (room, [])

end GachaMind.GameSession
