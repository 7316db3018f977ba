import GachaMind.GameSession.Game

/-!
# What the socket handlers do to a room (apps/game-session/src/index.ts)

The parts of `handleJoin` and `handleClose` that follow the choice of the room, and
`handleChat`, `handleDraw`, `handleDrawClear`. Fields of a client frame arrive as
JSON values of any type (`none` for a missing field), so a handler can throw.
-/

namespace GachaMind.GameSession
open GachaMind.Js GachaMind.Shared KeyedTable

def MAX_CHAT_LENGTH : ℕ := 200
def MAX_STROKE_POINTS : ℕ := 256

structure Identity where
  userId : JsString
  username : JsString
  nickname : JsString

/-! ### Joining -/

/-- `(…).trim().slice(0, MAX_NICKNAME_LENGTH) || "익명"`. -/
def displayName (nickname : JsString) : JsString :=
  let shown := sliceTo (trim nickname) MAX_NICKNAME_LENGTH
  if shown = [] then utf16 "익명" else shown

def joiningPlayer (env : Env) (socket : SocketId) (identity : Option Identity)
    (nickname : JsString) : Player :=
  { id := env.uuid
    userId := identity.map Identity.userId
    nickname := displayName nickname
    socket := socket
    score := 0 }

/-- The room after the player is added; latecomers of a game queue up to draw. -/
def seatPlayer (room : Room) (player : Player) : Room :=
  let room := room.addPlayer player
  if room.phase = .playing then { room with drawerQueue := room.drawerQueue ++ [player.id] }
  else room

/-- The snapshot for the player and the announcements to the others. -/
def welcome (env : Env) (room : Room) (player : Player) : List Effect :=
  let you : PlayerSummary := ⟨player.id, player.nickname, 0⟩
  room.send env player.id (.roomState
      { roomId := room.id
        you := you
        players := room.summaries
        capacity := room.capacity
        phase := room.phase
        round := room.round
        totalRounds := room.totalRounds
        drawerId := room.drawerId
        remainingMs := room.remainingMs (env.now .snapshot)
        wordLength := room.word.map List.length
        strokes := room.strokes })
    ++ [room.broadcast env (.playerJoined room.id you room.size) (some player.id),
        room.notice env .notice (player.nickname ++ utf16 "님이 입장했습니다.")]

/-! ### Leaving -/

def leaverNickname (room : Room) (playerId : Uuid) : JsString :=
  match room.players.get? playerId with
  | none => utf16 "익명"
  | some player => player.nickname

/-- `handleClose` up to the removal of an empty room. -/
def leaveRoom (env : Env) (room : Room) (playerId : Uuid) : Room × List Effect :=
  let nickname := leaverNickname room playerId
  let room := room.removePlayer playerId
  let left := handlePlayerLeftDuringGame env room playerId
  (left.1,
    room.broadcast env (.playerLeft room.id playerId nickname room.size)
      :: room.notice env .notice (nickname ++ utf16 "님이 퇴장했습니다.")
      :: left.2)

/-! ### Drawing -/

/-- `stroke.points` when it passes the guard of `handleDraw`, else no points. -/
def strokePoints : Option Json → List Json
  | some (.obj fields) =>
    match lookupField (utf16 "points") fields with
    | some (.arr points) => points
    | _ => []
  | _ => []

def strokeField (stroke : Option Json) (name : String) : Option Json :=
  match stroke with
  | some (.obj fields) => lookupField (utf16 name) fields
  | _ => none

/-- `stroke.color ?? "#171717"`. -/
def strokeColor (stroke : Option Json) : Json :=
  match strokeField stroke "color" with
  | none => .str (utf16 "#171717")
  | some .null => .str (utf16 "#171717")
  | some color => color

variable [Runtime]

def sanitizeStroke (stroke : Option Json) : Except JsError StrokeSegment := do
  let color ← toStr (strokeColor stroke)
  let width ← toNumber (strokeField stroke "width")
  return { points := (strokePoints stroke).take MAX_STROKE_POINTS
           color := sliceTo color 32
           width := (width.or (.finite 4)).clamp 1 48 }

def handleDraw (env : Env) (room : Room) (playerId : Uuid) (stroke : Option Json) :
    Except JsError (Room × List Effect) :=
  if room.phase ≠ .playing ∨ room.drawerId ≠ some playerId then .ok (room, [])
  else if strokePoints stroke = [] then .ok (room, [])
  else do
    let sanitized ← sanitizeStroke stroke
    let room := room.addStroke sanitized
    return (room, [room.broadcast env (.draw sanitized) (some playerId)])

theorem handleDraw_ok {env : Env} {room : Room} {playerId : Uuid} {stroke : Option Json}
    {r : Room × List Effect} (h : handleDraw env room playerId stroke = .ok r) :
    r = (room, []) ∨ ∃ sanitized, room.phase = .playing ∧ room.drawerId = some playerId ∧
      r = (room.addStroke sanitized,
        [(room.addStroke sanitized).broadcast env (.draw sanitized) (some playerId)]) := by
  unfold handleDraw at h
  split_ifs at h with hg
  · exact .inl (Except.ok.inj h).symm
  · exact .inl (Except.ok.inj h).symm
  · obtain ⟨sanitized, -, h⟩ := bind_eq_ok.mp h
    push Not at hg
    exact .inr ⟨sanitized, hg.1, hg.2, (Except.ok.inj h).symm⟩

omit [Runtime] in
def handleDrawClear (env : Env) (room : Room) (playerId : Uuid) : Room × List Effect :=
  if room.phase ≠ .playing ∨ room.drawerId ≠ some playerId then (room, [])
  else
    let room := room.clearStrokes
    (room, [room.broadcast env .drawClear (some playerId)])

/-! ### Chat -/

/-- `handleChat` on a text that is a string. -/
def chatText (env : Env) (room : Room) (player : Player) (text : JsString) : Room × List Effect :=
  let trimmed := sliceTo (trim text) MAX_CHAT_LENGTH
  if trimmed = [] then (room, [])
  else
    let guess := handleGuess env room player trimmed
    if guess.handled then (guess.room, guess.effects)
    else
      (guess.room, guess.effects ++
        [guess.room.broadcast env (.chat player.id player.nickname trimmed (env.now .chat))])

def handleChat (env : Env) (room : Room) (playerId : Uuid) (text : Option Json) :
    Except JsError (Room × List Effect) :=
  match room.players.get? playerId with
  | none => .ok (room, [])
  | some player => do
    let text ← asString text
    return chatText env room player text

theorem handleChat_ok {env : Env} {room : Room} {playerId : Uuid} {text : Option Json}
    {r : Room × List Effect} (h : handleChat env room playerId text = .ok r) :
    r = (room, []) ∨
      ∃ player ∈ room.players.rows, player.id = playerId ∧ ∃ s, r = chatText env room player s := by
  unfold handleChat at h
  cases hget : room.players.get? playerId with
  | none =>
    rw [hget] at h
    exact .inl (Except.ok.inj h).symm
  | some player =>
    rw [hget] at h
    obtain ⟨hp, hid⟩ := get?_eq_some.mp hget
    obtain ⟨s, -, h⟩ := bind_eq_ok.mp h
    exact .inr ⟨player, hp, hid, s, (Except.ok.inj h).symm⟩

end GachaMind.GameSession
