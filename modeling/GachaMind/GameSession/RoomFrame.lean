import GachaMind.GameSession.RoomInvariant

/-!
# What a step of a room leaves alone

The id and the capacity of a room never change, only joins and departures change who is
seated, and the effects of a room name no other room.
-/

namespace GachaMind.GameSession
open GachaMind.Js GachaMind.Shared KeyedTable

def Room.seats (room : Room) : List (Uuid × SocketId) :=
  room.players.rows.map fun p => (p.id, p.socket)

theorem Room.length_seats (room : Room) : room.seats.length = room.size := List.length_map _

theorem Room.map_fst_seats (room : Room) : room.seats.map Prod.fst = room.players.keys := by
  simp [Room.seats, Table.keys]

/-- An input of a player who stays, or a timer. -/
def RoomInput.Inside : RoomInput → Prop
  | .join _ _ _ => False
  | .leave _ => False
  | _ => True

theorem gameStep_room {env : Env} {room t : Room} {input : RoomInput} {ms : List GameMark}
    (hs : GameStep env room input t ms) : t.id = room.id ∧ t.capacity = room.capacity := by
  cases hs with
  | join _ =>
    rw [Room.seatPlayer_eq]
    exact ⟨rfl, rfl⟩
  | _ => exact ⟨rfl, rfl⟩

theorem seats_addScore (room : Room) (id : Uuid) (points : ℤ) :
    (addScore room id points).seats = room.seats := by
  simp only [Room.seats, addScore, rows_modify, List.map_map]
  refine List.map_congr_left fun p _ => ?_
  simp only [Function.comp_apply]
  split_ifs <;> rfl

theorem seats_scoreGuess (env : Env) (room : Room) (solver d : Uuid) :
    (room.scoreGuess env solver d).seats = room.seats := by
  rw [Room.scoreGuess, seats_addScore, seats_addScore]
  rfl

theorem gameStep_seats {env : Env} {room t : Room} {input : RoomInput} {ms : List GameMark}
    (hs : GameStep env room input t ms) (hi : input.Inside) : t.seats = room.seats := by
  cases hs with
  | quiet _ _ => rfl
  | join _ => exact hi.elim
  | start _ _ _ _ =>
    have hb : (room.beginGame env).seats = room.seats := by
      simp [Room.seats, Room.beginGame, Room.resetScores, Function.comp_def]
    exact hb
  | guess _ _ _ _ _ => exact seats_scoreGuess ..
  | lastGuess _ _ _ _ _ => exact seats_scoreGuess ..
  | timeUp _ => rfl
  | nextRound _ _ _ => rfl
  | gameOver _ _ _ => rfl
  | leave _ => exact hi.elim
  | leaveGame _ _ _ => exact hi.elim
  | leaveRound _ _ => exact hi.elim
  | leaveSolved _ _ _ => exact hi.elim

theorem seats_removePlayer (room : Room) (id : Uuid) :
    (room.removePlayer id).seats = room.seats.filter fun seat => seat.1 ≠ id := by
  simp [Room.seats, Room.removePlayer, List.filter_map, Function.comp_def]

theorem gameStep_leave_seats {env : Env} {room t : Room} {id : Uuid} {ms : List GameMark}
    (hs : GameStep env room (.leave id) t ms) :
    t.seats = room.seats.filter fun seat => seat.1 ≠ id := by
  rw [← seats_removePlayer]
  cases hs with
  | quiet _ h => exact absurd rfl (h id)
  | leave _ => rfl
  | leaveGame _ _ _ => rfl
  | leaveRound _ _ => rfl
  | leaveSolved _ _ _ => rfl

theorem seats_seatPlayer {room : Room} {player : Player} (h : player.id ∉ room.players.keys) :
    (seatPlayer room player).seats = room.seats ++ [(player.id, player.socket)] := by
  rw [Room.seatPlayer_eq]
  simp [Room.seats, rows_set_of_new h]

/-! ### Effects -/

/-- An effect of a room: the only room it reports is `roomId`, on the own shard. -/
def Effect.Local (shard : ShardId) (roomId : RoomId) : Effect → Prop
  | .syncOccupancy id projection => id = roomId ∧ projection.shard = shard
  | .checkAssigned _ _ => False
  | .notifyRoomClosed _ => False
  | _ => True

def AllLocal (shard : ShardId) (roomId : RoomId) (os : List Effect) : Prop :=
  ∀ e ∈ os, e.Local shard roomId

section
variable {shard : ShardId} {roomId : RoomId} {e : Effect} {os ps : List Effect}

@[simp] theorem allLocal_nil : AllLocal shard roomId [] := by simp [AllLocal]

@[simp] theorem allLocal_cons :
    AllLocal shard roomId (e :: os) ↔ e.Local shard roomId ∧ AllLocal shard roomId os := by
  simp [AllLocal]

@[simp] theorem allLocal_append :
    AllLocal shard roomId (os ++ ps) ↔ AllLocal shard roomId os ∧ AllLocal shard roomId ps := by
  simp [AllLocal, or_imp, forall_and]

@[simp] theorem local_broadcast (env : Env) (room : Room) (message : ServerToClientMessage)
    (exclude : Option Uuid) : (room.broadcast env message exclude).Local shard roomId := trivial

@[simp] theorem local_notice (env : Env) (room : Room) (site : ClockSite) (text : JsString) :
    (room.notice env site text).Local shard roomId := trivial

@[simp] theorem allLocal_send (env : Env) (room : Room) (playerId : Uuid)
    (message : ServerToClientMessage) :
    AllLocal shard roomId (room.send env playerId message) := by
  unfold Room.send
  split
  · exact allLocal_nil
  · split_ifs <;> simp [Effect.Local]

end

theorem endGame_local (env : Env) (room : Room) :
    AllLocal env.shard room.id (endGame env room).2 := by
  unfold endGame
  split_ifs
  · exact allLocal_nil
  · refine allLocal_cons.mpr ⟨trivial, allLocal_cons.mpr ⟨⟨rfl, rfl⟩, ?_⟩⟩
    have hid : room.clearRoundTimer.gameId = room.gameId := rfl
    dsimp only
    rw [hid]
    cases room.gameId <;> simp [Effect.Local]

theorem startRound_local (env : Env) (room : Room) :
    AllLocal env.shard room.id (startRound env room).2 := by
  unfold startRound
  dsimp only
  split
  · exact endGame_local env _
  · simp

theorem startGame_local (env : Env) (room : Room) :
    AllLocal env.shard room.id (startGame env room).2 := by
  unfold startGame
  split_ifs
  · exact allLocal_nil
  · simp
  · exact allLocal_cons.mpr ⟨trivial, allLocal_cons.mpr ⟨⟨rfl, rfl⟩, startRound_local env _⟩⟩

theorem endRound_local (env : Env) (room : Room) :
    AllLocal env.shard room.id (endRound env room).2 := by
  unfold endRound
  dsimp only
  split_ifs <;> simp

theorem fireTimer_local {env : Env} {room t : Room} {id : ℕ} {os : List Effect}
    (h : fireTimer env room id = some (t, os)) : AllLocal env.shard room.id os := by
  obtain ⟨x, -, he⟩ := Option.map_eq_some_iff.mp h
  cases hc : x.callback with
  | endRound =>
    have hl := endRound_local env { room with timers := room.timers.clearTimeout x.id }
    rw [hc, runCallback] at he
    rwa [he] at hl
  | intermission =>
    rw [hc, runCallback, intermissionOver] at he
    split_ifs at he
    · cases he
      exact allLocal_nil
    · have hl := endGame_local env { room with timers := room.timers.clearTimeout x.id }
      rwa [he] at hl
    · have hl := startRound_local env { room with timers := room.timers.clearTimeout x.id }
      rwa [he] at hl

theorem leaveRoom_local (env : Env) (room : Room) (playerId : Uuid) :
    AllLocal env.shard room.id (leaveRoom env room playerId).2 := by
  refine allLocal_cons.mpr ⟨trivial, allLocal_cons.mpr ⟨trivial, ?_⟩⟩
  unfold handlePlayerLeftDuringGame
  split_ifs
  · exact allLocal_nil
  · exact allLocal_cons.mpr ⟨trivial, endGame_local env (room.removePlayer playerId)⟩
  · exact allLocal_cons.mpr ⟨trivial, endRound_local env (room.removePlayer playerId)⟩
  · exact endRound_local env (room.removePlayer playerId)
  · exact allLocal_nil

theorem endGame_id (env : Env) (room : Room) : (endGame env room).1.id = room.id := by
  unfold endGame
  split_ifs <;> rfl

theorem endRound_id (env : Env) (room : Room) : (endRound env room).1.id = room.id := by
  unfold endRound
  dsimp only
  split_ifs <;> rfl

theorem leaveRoom_id (env : Env) (room : Room) (playerId : Uuid) :
    (leaveRoom env room playerId).1.id = room.id := by
  show (handlePlayerLeftDuringGame env (room.removePlayer playerId) playerId).1.id = room.id
  unfold handlePlayerLeftDuringGame
  split_ifs
  · rfl
  · exact endGame_id env _
  · exact endRound_id env _
  · exact endRound_id env _
  · rfl

section
variable [Runtime]

theorem handleGuess_local (env : Env) (room : Room) (player : Player) (text : JsString) :
    AllLocal env.shard room.id (handleGuess env room player text).effects := by
  have hid : (scoreAnswer env room player.id).id = room.id := by
    unfold scoreAnswer
    dsimp only
    split <;> rfl
  have hend := endRound_local env (scoreAnswer env room player.id)
  rw [hid] at hend
  unfold handleGuess
  split
  · dsimp only
    split_ifs
    · exact allLocal_nil
    · exact allLocal_cons.mpr ⟨trivial, hend⟩
    · exact allLocal_cons.mpr ⟨trivial, allLocal_nil⟩
    · exact allLocal_nil
  · exact allLocal_nil

theorem chatText_local (env : Env) (room : Room) (player : Player) (text : JsString) :
    AllLocal env.shard room.id (chatText env room player text).2 := by
  unfold chatText
  dsimp only
  split_ifs
  · exact allLocal_nil
  · exact handleGuess_local _ _ _ _
  · exact allLocal_append.mpr
      ⟨handleGuess_local _ _ _ _, allLocal_cons.mpr ⟨trivial, allLocal_nil⟩⟩

theorem handleChat_local {env : Env} {room t : Room} {id : Uuid} {text : Option Json}
    {os : List Effect} (h : handleChat env room id text = .ok (t, os)) :
    AllLocal env.shard room.id os := by
  rcases handleChat_ok h with h | ⟨player, -, -, s, h⟩
  · obtain ⟨-, rfl⟩ := Prod.mk.inj h
    exact allLocal_nil
  · have hl := chatText_local env room player s
    rwa [← h] at hl

theorem handleDraw_local {env : Env} {room t : Room} {id : Uuid} {stroke : Option Json}
    {os : List Effect} (h : handleDraw env room id stroke = .ok (t, os)) :
    AllLocal env.shard room.id os := by
  rcases handleDraw_ok h with h | ⟨sanitized, -, -, h⟩
  · obtain ⟨-, rfl⟩ := Prod.mk.inj h
    exact allLocal_nil
  · obtain ⟨-, rfl⟩ := Prod.mk.inj h
    exact allLocal_cons.mpr ⟨trivial, allLocal_nil⟩

omit [Runtime] in
theorem seatPlayer_id (room : Room) (player : Player) : (seatPlayer room player).id = room.id := by
  rw [Room.seatPlayer_eq]

omit [Runtime] in
theorem welcome_local {shard : ShardId} {roomId : RoomId} (env : Env) (room : Room)
    (player : Player) : AllLocal shard roomId (welcome env room player) := by
  refine allLocal_append.mpr ⟨allLocal_send _ _ _ _, ?_⟩
  exact allLocal_cons.mpr ⟨trivial, allLocal_cons.mpr ⟨trivial, allLocal_nil⟩⟩

omit [Runtime] in
theorem joinRoom_local (env : Env) (room : Room) (socket : SocketId) (identity : Option Identity)
    (nickname : JsString) :
    AllLocal env.shard room.id (joinRoom env room socket identity nickname).2 := by
  unfold joinRoom
  split_ifs
  · exact allLocal_cons.mpr ⟨trivial, allLocal_cons.mpr ⟨trivial, allLocal_nil⟩⟩
  · exact allLocal_cons.mpr ⟨⟨seatPlayer_id _ _, rfl⟩, welcome_local _ _ _⟩

theorem roomStep_local {env : Env} {room t : Room} {input : RoomInput} {os : List Effect}
    (h : roomStep env room input = some (t, os)) : AllLocal env.shard room.id os := by
  cases input with
  | join socket identity nickname =>
    have hl := joinRoom_local env room socket identity nickname
    rwa [Option.some.inj h] at hl
  | leave id =>
    have hl := leaveRoom_local env room id
    rwa [Option.some.inj h] at hl
  | chat id text => exact handleChat_local (toOption_eq_some h)
  | draw id stroke => exact handleDraw_local (toOption_eq_some h)
  | drawClear id =>
    have hd : handleDrawClear env room id = (t, os) := Option.some.inj h
    unfold handleDrawClear at hd
    split_ifs at hd <;> cases hd
    · exact allLocal_nil
    · exact allLocal_cons.mpr ⟨trivial, allLocal_nil⟩
  | startGame =>
    have hl := startGame_local env room
    rwa [show startGame env room = (t, os) from Option.some.inj h] at hl
  | timer id => exact fireTimer_local h

end

end GachaMind.GameSession
