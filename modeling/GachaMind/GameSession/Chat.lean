import GachaMind.GameSession.Messages
import GachaMind.GameSession.Endings

/-!
# Chat

What the players read of what they type: every text is shown once to everyone who is
there, or to nobody when it holds the word of the round.
-/

namespace GachaMind.GameSession
open GachaMind.Js GachaMind.Shared KeyedTable

def isChat : ServerToClientMessage → Bool
  | .chat _ _ _ _ => true
  | _ => false

/-- A chat message among the effects of a handler, with the players it was written to. -/
def chatOf : Effect → Option (ServerToClientMessage × List Uuid)
  | .broadcast message recipients => if isChat message then some (message, recipients) else none
  | .send recipient message => if isChat message then some (message, [recipient]) else none
  | .reply _ message => if isChat message then some (message, []) else none
  | _ => none

def chatsOf (os : List Effect) : List (ServerToClientMessage × List Uuid) := os.filterMap chatOf

def Room.online (env : Env) (room : Room) : List Uuid :=
  (room.players.rows.filter fun p => env.isOpen p.socket).map Player.id

/-- The text holds the word of the round. -/
def Room.withholds [Runtime] (room : Room) (text : JsString) : Bool :=
  room.word.any fun word => includes (normalizeAnswer text) (normalizeAnswer word)

/-- The chat that an input should lead to. -/
def chatsDue [Runtime] (env : Env) (room : Room) :
    RoomInput → List (ServerToClientMessage × List Uuid)
  | .chat id (some (.str text)) =>
    let shown := sliceTo (trim text) MAX_CHAT_LENGTH
    match room.players.get? id with
    | none => []
    | some player =>
      if shown = [] ∨ room.withholds shown then []
      else [(.chat player.id player.nickname shown (env.now .chat), room.online env)]
  | _ => []

/-! ### The effects that are no chat -/

theorem chatsOf_append (os ps : List Effect) : chatsOf (os ++ ps) = chatsOf os ++ chatsOf ps :=
  List.filterMap_append

theorem chatsOf_send (env : Env) (room : Room) (id : Uuid) (message : ServerToClientMessage)
    (h : isChat message = false) : chatsOf (room.send env id message) = [] := by
  unfold Room.send
  split
  · rfl
  · split_ifs
    · simp [chatsOf, chatOf, h]
    · rfl

theorem chatsOf_endGame (env : Env) (room : Room) : chatsOf (endGame env room).2 = [] := by
  unfold endGame
  split_ifs
  · rfl
  · dsimp only
    cases room.clearRoundTimer.gameId <;> rfl

theorem chatsOf_startRound (env : Env) (room : Room) : chatsOf (startRound env room).2 = [] := by
  unfold startRound
  dsimp only
  split
  · exact chatsOf_endGame env _
  · exact chatsOf_send env _ _ _ rfl

theorem chatsOf_startGame (env : Env) (room : Room) : chatsOf (startGame env room).2 = [] := by
  unfold startGame
  split_ifs
  · rfl
  · rfl
  · exact chatsOf_startRound env _

theorem chatsOf_endRound (env : Env) (room : Room) : chatsOf (endRound env room).2 = [] := by
  unfold endRound
  split_ifs
  · rfl
  · dsimp only
    split_ifs <;> rfl

theorem chatsOf_intermissionOver (env : Env) (room : Room) :
    chatsOf (intermissionOver env room).2 = [] := by
  unfold intermissionOver
  split_ifs
  · rfl
  · exact chatsOf_endGame env room
  · exact chatsOf_startRound env room

theorem chatsOf_joinRoom (env : Env) (room : Room) (socket : SocketId)
    (identity : Option Identity) (nickname : JsString) :
    chatsOf (joinRoom env room socket identity nickname).2 = [] := by
  unfold joinRoom
  split_ifs
  · rfl
  · show chatsOf (Room.send env _ _ _ ++ _) = []
    rw [chatsOf_append, chatsOf_send env _ _ _ rfl]
    rfl

theorem chatsOf_leaveRoom (env : Env) (room : Room) (id : Uuid) :
    chatsOf (leaveRoom env room id).2 = [] := by
  show chatsOf (handlePlayerLeftDuringGame env (room.removePlayer id) id).2 = []
  unfold handlePlayerLeftDuringGame
  split_ifs
  · rfl
  · exact chatsOf_endGame env _
  · exact chatsOf_endRound env _
  · exact chatsOf_endRound env _
  · rfl

theorem chatsOf_fireTimer {env : Env} {room : Room} {id : ℕ} {r : Room × List Effect}
    (h : fireTimer env room id = some r) : chatsOf r.2 = [] := by
  obtain ⟨x, -, rfl⟩ := Option.map_eq_some_iff.mp h
  unfold runCallback
  split
  · exact chatsOf_endRound env _
  · exact chatsOf_intermissionOver env _

theorem chatsOf_handleDrawClear (env : Env) (room : Room) (id : Uuid) :
    chatsOf (handleDrawClear env room id).2 = [] := by
  unfold handleDrawClear
  split_ifs <;> rfl

section
variable [Runtime]

theorem chatsOf_handleDraw {env : Env} {room : Room} {id : Uuid} {stroke : Option Json}
    {r : Room × List Effect} (h : handleDraw env room id stroke = .ok r) : chatsOf r.2 = [] := by
  rcases handleDraw_ok h with rfl | ⟨sanitized, -, -, rfl⟩ <;> rfl

/-! ### A text that is typed -/

omit [Runtime] in
theorem includes_self (s : JsString) : includes s s = true := by simp [includes]

/-- A guess is handled exactly when its text holds the word, and its effects are no chat. -/
theorem handleGuess_withholds (env : Env) {room : Room} (player : Player) (text : JsString)
    (hc : room.Coherent) :
    (handleGuess env room player text).handled = room.withholds text ∧
    chatsOf (handleGuess env room player text).effects = [] := by
  rcases hc.2 with hi | ⟨d, w, hr⟩ | hi
  · rw [handleGuess_no_word hi.word, Room.withholds, hi.word]
    exact ⟨rfl, rfl⟩
  · simp only [handleGuess, hr.phase, hr.word, hr.word_ne_nil, ite_false, Room.withholds,
      Option.any_some]
    split_ifs with hg hcount
    · rw [Bool.and_eq_true, decide_eq_true_eq, decide_eq_true_eq] at hg
      rw [hg.2, includes_self]
      exact ⟨rfl, chatsOf_endRound env _⟩
    · rw [Bool.and_eq_true, decide_eq_true_eq, decide_eq_true_eq] at hg
      rw [hg.2, includes_self]
      exact ⟨rfl, rfl⟩
    · exact ⟨rfl, rfl⟩
  · rw [handleGuess_no_word hi.word, Room.withholds, hi.word]
    exact ⟨rfl, rfl⟩

omit [Runtime] in
theorem chat_broadcast (env : Env) (room : Room) (player : Player) (text : JsString) (at_ : ℤ) :
    chatOf (room.broadcast env (.chat player.id player.nickname text at_)) =
      some (.chat player.id player.nickname text at_, room.online env) := by
  simp [Room.broadcast, chatOf, isChat, Room.online]

theorem chatsDue_absent {env : Env} {room : Room} {id : Uuid} (h : room.players.get? id = none)
    (text : Option Json) : chatsDue env room (.chat id text) = [] := by
  unfold chatsDue
  split
  · next he =>
    cases he
    rw [h]
  · rfl

theorem chatsOf_chatText (env : Env) {room : Room} (player : Player) (text : JsString)
    (hc : room.Coherent) (hp : player ∈ room.players.rows) :
    chatsOf (chatText env room player text).2 =
      chatsDue env room (.chat player.id (some (.str text))) := by
  obtain ⟨hhandled, hsilent⟩ :=
    handleGuess_withholds env player (sliceTo (trim text) MAX_CHAT_LENGTH) hc
  simp only [chatText, chatsDue, get?_of_mem hp]
  by_cases hnil : sliceTo (trim text) MAX_CHAT_LENGTH = []
  · simp only [hnil, ite_true, true_or]
    rfl
  rw [if_neg hnil, hhandled]
  by_cases hw : room.withholds (sliceTo (trim text) MAX_CHAT_LENGTH) = true
  · rw [if_pos hw, if_pos (.inr hw)]
    exact hsilent
  · rw [if_neg hw, if_neg (not_or.mpr ⟨hnil, hw⟩), chatsOf_append, hsilent]
    -- a text that is not withheld has left the room as it was
    have hroom :
        (handleGuess env room player (sliceTo (trim text) MAX_CHAT_LENGTH)).room = room := by
      rcases handleGuess_coherent env (sliceTo (trim text) MAX_CHAT_LENGTH) hc hp with h | h
      · exact h.1
      · exact absurd (hhandled.symm.trans h.1) hw
    rw [hroom, List.nil_append, chatsOf, List.filterMap_cons_some (chat_broadcast ..)]
    rfl

theorem chatsOf_handleChat {env : Env} {room : Room} {id : Uuid} {text : Option Json}
    {r : Room × List Effect} (hc : room.Coherent) (h : handleChat env room id text = .ok r) :
    chatsOf r.2 = chatsDue env room (.chat id text) := by
  unfold handleChat at h
  cases hget : room.players.get? id with
  | none =>
    rw [hget] at h
    obtain rfl := Except.ok.inj h
    rw [chatsDue_absent hget]
    rfl
  | some player =>
    rw [hget] at h
    obtain ⟨s, hs, h⟩ := bind_eq_ok.mp h
    obtain rfl := Except.ok.inj h
    obtain ⟨hp, rfl⟩ := get?_eq_some.mp hget
    rw [asString_ok.mp hs]
    exact chatsOf_chatText env player s hc hp

/-! ### Every step -/

theorem roomStep_chats {env : Env} {room : Room} {input : RoomInput} {r : Room × List Effect}
    (hc : room.Coherent) (hs : roomStep env room input = some r) :
    chatsOf r.2 = chatsDue env room input := by
  cases input with
  | join socket identity nickname =>
    obtain rfl := Option.some.inj hs
    exact chatsOf_joinRoom env room socket identity nickname
  | leave id =>
    obtain rfl := Option.some.inj hs
    exact chatsOf_leaveRoom env room id
  | chat id text => exact chatsOf_handleChat hc (toOption_eq_some hs)
  | draw id stroke => exact chatsOf_handleDraw (toOption_eq_some hs)
  | drawClear id =>
    obtain rfl := Option.some.inj hs
    exact chatsOf_handleDrawClear env room id
  | startGame =>
    obtain rfl := Option.some.inj hs
    exact chatsOf_startGame env room
  | timer id => exact chatsOf_fireTimer hs

theorem chatsDue_text {env : Env} {room : Room} {input : RoomInput}
    {chat : ServerToClientMessage × List Uuid} (h : chat ∈ chatsDue env room input) :
    ∃ player ∈ room.players.rows, ∃ text : JsString, input = .chat player.id (some (.str text)) ∧
      chat = (.chat player.id player.nickname (sliceTo (trim text) MAX_CHAT_LENGTH) (env.now .chat),
        room.online env) ∧
      room.withholds (sliceTo (trim text) MAX_CHAT_LENGTH) = false := by
  unfold chatsDue at h
  split at h
  · next id text =>
    dsimp only at h
    cases hget : room.players.get? id with
    | none =>
      rw [hget] at h
      exact absurd h List.not_mem_nil
    | some player =>
      rw [hget] at h
      dsimp only at h
      obtain ⟨hp, rfl⟩ := get?_eq_some.mp hget
      split_ifs at h with hw
      · exact absurd h List.not_mem_nil
      · push Not at hw
        exact ⟨player, hp, text, rfl, List.mem_singleton.mp h, by simpa using hw.2⟩
  · exact absurd h List.not_mem_nil

/-- What a step shows as chat is the text that a member typed, trimmed and cut, for everyone who is
there; it shows nothing when the text is empty or holds the word of the round, whoever typed it. -/
theorem chat_withholds_word (id : RoomId) (capacity : ℕ) {s t : RoomState} {i : Env × RoomInput}
    {os : List Effect} (hr : Machine.Reachable (roomSystem id capacity) s)
    (hs : (roomSystem id capacity).step s i t os) :
    chatsOf os = chatsDue i.1 s.room i.2 ∧
    ∀ chat ∈ chatsOf os, ∃ player ∈ s.room.players.rows, ∃ text : JsString,
      i.2 = .chat player.id (some (.str text)) ∧
      chat = (.chat player.id player.nickname (sliceTo (trim text) MAX_CHAT_LENGTH)
        (i.1.now .chat), s.room.online i.1) ∧
      ∀ word, s.room.word = some word →
        includes (normalizeAnswer (sliceTo (trim text) MAX_CHAT_LENGTH)) (normalizeAnswer word) =
          false := by
  have hchats := roomStep_chats (reachable_inv hr).coherent (roomSystem_step hs).2.1
  refine ⟨hchats, fun chat hchat => ?_⟩
  rw [hchats] at hchat
  obtain ⟨player, hp, text, hi, he, hw⟩ := chatsDue_text hchat
  refine ⟨player, hp, text, hi, he, fun word hword => ?_⟩
  rw [Room.withholds, hword] at hw
  exact hw

end

/-- Where player `1` draws, player `0` writes the word into a longer text. -/
def hint : Env × RoomInput := (plainEnv 3, .chat ⟨0⟩ (some (.str (utf16 " 사 과?"))))

theorem hint_withheld : ∃ t os, plainSystem.step twoStarted hint t os ∧
    twoStarted.room.word = some (utf16 "사과") ∧ chatsOf os = [] :=
  ⟨_, _, (Option.some_get (by decide +kernel)).symm, by decide +kernel,
    (@chat_withholds_word plainRuntime (utf16 "AB3DE") DEFAULT_ROOM_CAPACITY twoStarted _ hint _
      ⟨_, _, Machine.exec_get_run (by decide +kernel)⟩
      (Option.some_get (by decide +kernel)).symm).1.trans (by decide +kernel)⟩

end GachaMind.GameSession
