import GachaMind.Lib.Unwinding
import GachaMind.Web.Audience

/-!
# The secret word

Nothing that the players other than the drawer are told before a round ends depends on its word,
its length apart. Two rooms that differ in the word alone, and in the words used so far, take the
same inputs with the same effects as long as nobody says either word.
-/

namespace GachaMind.Web
open GachaMind.Js GachaMind.Shared GachaMind.GameSession KeyedTable

/-! ### Rooms that differ in the word -/

def relabel (room : Room) (word : Option JsString) (used : List JsString) : Room :=
  { room with word := word, usedWords := used }

section
variable (room : Room) (word : Option JsString) (used : List JsString)

@[simp] theorem relabel_phase : (relabel room word used).phase = room.phase := rfl

@[simp] theorem relabel_size : (relabel room word used).size = room.size := rfl

@[simp] theorem relabel_drawerId : (relabel room word used).drawerId = room.drawerId := rfl

@[simp] theorem relabel_word : (relabel room word used).word = word := rfl

@[simp] theorem relabel_isFull : (relabel room word used).isFull = room.isFull := rfl

@[simp] theorem relabel_unsolved :
    (relabel room word used).unsolvedGuesserCount = room.unsolvedGuesserCount := rfl

@[simp] theorem relabel_notice (env : Env) (site : ClockSite) (text : JsString) :
    (relabel room word used).notice env site text = room.notice env site text := rfl

end

/-- The second room is the first one in a round with another word, or between games with other
words used before; with no round ended in between, nothing else can come of the two. -/
inductive Twin (w w' : JsString) (room : Room) : Room → Prop
  | inRound {used : List JsString} (h : room.word = some w) :
      Twin w w' room (relabel room (some w') used)
  | idle {used : List JsString} (h : room.phase ≠ .playing) :
      Twin w w' room (relabel room room.word used)
  | same : Twin w w' room room

/-! ### Steps that end the round or keep the rooms alike -/

def endsRound : Effect → Bool
  | .broadcast (.roundEnded _ _ _) _ => true
  | _ => false

inductive Alike (w w' : JsString) : Room × List Effect → Room × List Effect → Prop
  | same {t t' : Room} {os : List Effect} (h : Twin w w' t t') : Alike w w' (t, os) (t', os)
  | ended {t t' : Room} {os : List Effect} {e e' : Effect} (he : endsRound e = true)
      (he' : endsRound e' = true) : Alike w w' (t, os ++ [e]) (t', os ++ [e'])

section
variable {env : Env} {w w' : JsString} {room room' : Room}

theorem Alike.refl (r : Room × List Effect) : Alike w w' r r := .same .same

theorem Alike.after {r r' : Room × List Effect} (h : Alike w w' r r') (os : List Effect) :
    Alike w w' (r.1, os ++ r.2) (r'.1, os ++ r'.2) := by
  cases h with
  | same h => exact .same h
  | ended he he' =>
    rw [← List.append_assoc, ← List.append_assoc]
    exact .ended he he'

theorem Twin.frame (h : Twin w w' room room') (hl : w'.length = w.length) :
    ∃ word used, room' = relabel room word used ∧
      word.map List.length = room.word.map List.length ∧
      ∀ {t : Room}, t.word = room.word → t.phase = room.phase → t.usedWords = room.usedWords →
        Twin w w' t (relabel t word used) := by
  cases h with
  | @inRound used h =>
    refine ⟨some w', used, rfl, by simp [h, hl], fun hw _ _ => ?_⟩
    exact .inRound (hw.trans h)
  | @idle used h =>
    refine ⟨room.word, used, rfl, rfl, fun {t} hw hp _ => ?_⟩
    rw [← hw]
    exact .idle (hp ▸ h)
  | same =>
    refine ⟨room.word, room.usedWords, rfl, rfl, fun {t} hw _ hu => ?_⟩
    rw [← hw, ← hu]
    exact .same

theorem endRound_alike (word : Option JsString) (used : List JsString)
    (h : room.phase = .playing) :
    Alike w w' (endRound env room) (endRound env (relabel room word used)) := by
  have hends : ∀ r : Room, r.phase = .playing →
      ∃ t e, endsRound e = true ∧ endRound env r = (t, [] ++ [e]) := by
    intro r hr
    unfold endRound
    rw [if_neg (by simp [hr])]
    dsimp only
    split_ifs
    · exact ⟨_, _, rfl, rfl⟩
    · exact ⟨_, _, rfl, rfl⟩
  obtain ⟨t, e, he, h1⟩ := hends room h
  obtain ⟨t', e', he', h2⟩ := hends (relabel room word used) h
  rw [h1, h2]
  exact .ended he he'

theorem endGame_alike (word : Option JsString) (used : List JsString) (h : room.phase = .playing) :
    Alike w w' (endGame env room) (endGame env (relabel room word used)) := by
  have h' : (relabel room word used).phase = .playing := h
  simp only [endGame, h, h', ne_eq, not_true_eq_false, ite_false]
  exact .same (.idle (by simp))

theorem joinRoom_alike (h : Twin w w' room room') (hl : w'.length = w.length) (socket : SocketId)
    (identity : Option Identity) (nickname : JsString) :
    Alike w w' (joinRoom env room socket identity nickname)
      (joinRoom env room' socket identity nickname) := by
  obtain ⟨word, used, rfl, hlen, htwin⟩ := h.frame hl
  simp only [joinRoom, relabel_isFull]
  by_cases hf : room.isFull = true
  · simp only [hf, ite_true]
    exact .same h
  · simp only [hf]
    have hseat : seatPlayer (relabel room word used) (joiningPlayer env socket identity nickname) =
        relabel (seatPlayer room (joiningPlayer env socket identity nickname)) word used := by
      rw [Room.seatPlayer_eq, Room.seatPlayer_eq]
      rfl
    rw [hseat]
    have hw : (seatPlayer room (joiningPlayer env socket identity nickname)).word = room.word := by
      rw [Room.seatPlayer_eq]
    have hwelcome : welcome env
        (relabel (seatPlayer room (joiningPlayer env socket identity nickname)) word used)
        (joiningPlayer env socket identity nickname) =
      welcome env (seatPlayer room (joiningPlayer env socket identity nickname))
        (joiningPlayer env socket identity nickname) := by
      simp only [welcome, relabel_word, hlen, hw]
      rfl
    rw [hwelcome]
    refine .same (htwin hw ?_ ?_)
    · rw [Room.seatPlayer_eq]
    · rw [Room.seatPlayer_eq]

theorem handlePlayerLeftDuringGame_alike (h : Twin w w' room room') (id : Uuid) :
    Alike w w' (handlePlayerLeftDuringGame env room id)
      (handlePlayerLeftDuringGame env room' id) := by
  cases h with
  | same => exact .refl _
  | @idle used h =>
    simp only [handlePlayerLeftDuringGame, relabel_phase, ne_eq, h, not_false_eq_true, ite_true]
    exact .same (.idle h)
  | @inRound used h =>
    by_cases hp : room.phase = .playing
    swap
    · simp only [handlePlayerLeftDuringGame, relabel_phase, ne_eq, hp, not_false_eq_true, ite_true]
      exact .same (.inRound h)
    simp only [handlePlayerLeftDuringGame, relabel_phase, relabel_size, relabel_drawerId,
      relabel_unsolved, relabel_notice, hp, ne_eq, not_true_eq_false, ite_false]
    by_cases hs : room.size < MIN_PLAYERS_TO_START
    · simp only [hs, ite_true]
      exact (endGame_alike (some w') used hp).after [room.notice env .gameNotice _]
    by_cases hd : room.drawerId = some id
    · simp only [hs, hd, ite_false, ite_true]
      exact (endRound_alike (some w') used hp).after [room.notice env .gameNotice _]
    by_cases hc : room.unsolvedGuesserCount = 0
    · simp only [hs, hd, hc, ite_false, ite_true]
      exact endRound_alike (some w') used hp
    · simp only [hs, hd, hc, ite_false]
      exact .same (.inRound h)

theorem leaveRoom_alike (h : Twin w w' room room') (hl : w'.length = w.length) (id : Uuid) :
    Alike w w' (leaveRoom env room id) (leaveRoom env room' id) := by
  obtain ⟨word, used, rfl, -, htwin⟩ := h.frame hl
  rw [leaveRoom_eq, leaveRoom_eq]
  have hleft : Twin w w' (room.removePlayer id) ((relabel room word used).removePlayer id) :=
    htwin rfl rfl rfl
  exact (handlePlayerLeftDuringGame_alike hleft id).after _

theorem handleDrawClear_alike (h : Twin w w' room room') (hl : w'.length = w.length) (id : Uuid) :
    Alike w w' (handleDrawClear env room id) (handleDrawClear env room' id) := by
  obtain ⟨word, used, rfl, -, htwin⟩ := h.frame hl
  simp only [handleDrawClear, relabel_phase, relabel_drawerId]
  by_cases hg : room.phase ≠ .playing ∨ room.drawerId ≠ some id
  · simp only [hg, ite_true]
    exact .same h
  · simp only [hg, ite_false]
    exact .same (htwin rfl rfl rfl)

theorem startGame_alike (h : Twin w w' room room') (hc : room.Coherent) :
    Alike w w' (startGame env room) (startGame env room') := by
  cases h with
  | same => exact .refl _
  | @inRound used h =>
    have hp : room.phase = .playing := by
      obtain ⟨-, hi | ⟨d, w, hr⟩ | hi⟩ := hc
      · exact absurd (hi.word.symm.trans h) (by simp)
      · exact hr.phase
      · exact hi.phase
    simp only [startGame, relabel_phase, hp, ite_true]
    exact .same (.inRound h)
  | @idle used h =>
    by_cases hs : room.size < MIN_PLAYERS_TO_START
    · simp only [startGame, relabel_phase, relabel_size, h, hs, ite_false, ite_true]
      exact .same (.idle h)
    · -- the words used before are forgotten
      simp only [startGame, relabel_phase, relabel_size, h, hs, ite_false]
      exact .refl _

theorem fireTimer_alike {id : ℕ} {r : Room × List Effect} (h : Twin w w' room room')
    (hc : room.Coherent) (hs : fireTimer env room id = some r) :
    ∃ r', fireTimer env room' id = some r' ∧ Alike w w' r r' := by
  obtain ⟨x, hx, he⟩ := Option.map_eq_some_iff.mp hs
  have hmem := List.mem_of_find?_eq_some hx
  cases h with
  | same => exact ⟨r, hs, .refl r⟩
  | @inRound used h =>
    obtain ⟨-, hi | ⟨d, w, hr⟩ | hi⟩ := hc
    · exact absurd (hi.word.symm.trans h) (by simp)
    · -- the one pending timer is the one that ends the round
      obtain ⟨k, -, hpend⟩ := hr.timer
      rw [hpend, List.mem_singleton] at hmem
      subst hmem
      have hfire : fireTimer env (relabel room (some w') used) id =
          some (endRound env (relabel (room.timerFired k) (some w') used)) := by
        exact Option.map_eq_some_iff.mpr ⟨_, hx, rfl⟩
      have hfired : (room.timerFired k).phase = .playing := hr.phase
      refine ⟨_, hfire, ?_⟩
      rw [← he]
      exact endRound_alike (some w') used hfired
    · exact absurd (hi.word.symm.trans h) (by simp)
  | @idle used h =>
    obtain ⟨-, hi | ⟨d, w, hr⟩ | hi⟩ := hc
    · rw [hi.timers] at hmem
      exact absurd hmem List.not_mem_nil
    · exact absurd hr.phase h
    · exact absurd hi.phase h

end

/-! ### Chats that do not contain the word -/

section
variable [Runtime]

/-- What the players say contains neither word, once it is cut and normalised as a guess is. -/
def Unguessing (w w' : JsString) : RoomInput → Prop
  | .chat _ (some (.str text)) => ∀ word ∈ [w, w'],
      includes (normalizeAnswer (sliceTo (trim text) MAX_CHAT_LENGTH))
        (normalizeAnswer word) = false
  | _ => True

instance (w w' : JsString) : ∀ input, Decidable (Unguessing w w' input)
  | .chat _ (some (.str _)) => inferInstanceAs (Decidable (∀ word ∈ [w, w'], _))
  | .chat _ none | .chat _ (some .null) | .chat _ (some (.bool _)) | .chat _ (some (.num _))
  | .chat _ (some (.arr _)) | .chat _ (some (.obj _)) | .join _ _ _ | .leave _ | .draw _ _
  | .drawClear _ | .startGame | .timer _ => inferInstanceAs (Decidable True)

variable {env : Env} {w w' : JsString} {room room' : Room}

theorem handleGuess_unmatched {player : Player} {text : JsString}
    (h : ∀ word, room.word = some word →
      includes (normalizeAnswer text) (normalizeAnswer word) = false) :
    handleGuess env room player text = ⟨false, room, []⟩ := by
  unfold handleGuess
  split
  · next word hp hw =>
    have hno := h word hw
    have hne : normalizeAnswer text ≠ normalizeAnswer word := by
      intro he
      rw [he, includes, decide_eq_false_iff_not] at hno
      exact hno List.infix_rfl
    simp [hne, hno]
  · rfl

theorem handleGuess_idle {player : Player} {text : JsString} (h : room.phase ≠ .playing) :
    handleGuess env room player text = ⟨false, room, []⟩ := by
  unfold handleGuess
  split
  · contradiction
  · rfl

theorem chatText_alike (h : Twin w w' room room') (player : Player) {text : JsString}
    (hu : ∀ word ∈ [w, w'], includes (normalizeAnswer (sliceTo (trim text) MAX_CHAT_LENGTH))
      (normalizeAnswer word) = false) :
    Alike w w' (chatText env room player text) (chatText env room' player text) := by
  have hplain : ∀ r : Room,
      handleGuess env r player (sliceTo (trim text) MAX_CHAT_LENGTH) = ⟨false, r, []⟩ →
      chatText env r player text = (r, if sliceTo (trim text) MAX_CHAT_LENGTH = [] then [] else
        [r.broadcast env (.chat player.id player.nickname
          (sliceTo (trim text) MAX_CHAT_LENGTH) (env.now .chat))]) := by
    intro r hg
    by_cases hn : sliceTo (trim text) MAX_CHAT_LENGTH = []
    · simp only [chatText, hn, ite_true]
    · simp only [chatText, hn, ite_false, hg, Bool.false_eq_true, List.nil_append]
  cases h with
  | same => exact .refl _
  | @inRound used h =>
    have hfirst : ∀ word, room.word = some word → word ∈ [w, w'] := by
      intro word hw
      simp [Option.some.inj (hw.symm.trans h)]
    have hsecond : ∀ word, (relabel room (some w') used).word = some word → word ∈ [w, w'] := by
      intro word hw
      simp [← Option.some.inj hw]
    rw [hplain room (handleGuess_unmatched fun word hw => hu word (hfirst word hw)),
      hplain _ (handleGuess_unmatched fun word hw => hu word (hsecond word hw))]
    exact .same (.inRound h)
  | @idle used h =>
    rw [hplain room (handleGuess_idle h), hplain (relabel room room.word used) (handleGuess_idle h)]
    exact .same (.idle h)

theorem handleChat_alike {id : Uuid} {raw : Option Json} {r : Room × List Effect}
    (h : Twin w w' room room') (hl : w'.length = w.length) (hu : Unguessing w w' (.chat id raw))
    (hs : handleChat env room id raw = .ok r) :
    ∃ r', handleChat env room' id raw = .ok r' ∧ Alike w w' r r' := by
  have hplayers : room'.players = room.players := by
    obtain ⟨word, used, rfl, -, -⟩ := h.frame hl
    rfl
  unfold handleChat at hs ⊢
  rw [hplayers]
  cases hget : room.players.get? id with
  | none =>
    rw [hget] at hs
    cases hs
    exact ⟨_, rfl, .same h⟩
  | some player =>
    rw [hget] at hs
    obtain ⟨text, htext, hs⟩ := bind_eq_ok.mp hs
    cases hs
    refine ⟨_, bind_eq_ok.mpr ⟨text, htext, rfl⟩, chatText_alike h player ?_⟩
    unfold asString at htext
    split at htext
    · cases htext
      exact hu
    · cases htext

theorem handleDraw_alike {id : Uuid} {stroke : Option Json} {r : Room × List Effect}
    (h : Twin w w' room room') (hl : w'.length = w.length)
    (hs : handleDraw env room id stroke = .ok r) :
    ∃ r', handleDraw env room' id stroke = .ok r' ∧ Alike w w' r r' := by
  obtain ⟨word, used, rfl, -, htwin⟩ := h.frame hl
  simp only [handleDraw, relabel_phase, relabel_drawerId] at hs ⊢
  by_cases hg : room.phase ≠ .playing ∨ room.drawerId ≠ some id
  · simp only [hg, ite_true, Except.ok.injEq] at hs ⊢
    exact ⟨_, rfl, hs ▸ .same h⟩
  simp only [hg, ite_false] at hs ⊢
  by_cases hp : strokePoints stroke = []
  · simp only [hp, ite_true, Except.ok.injEq] at hs ⊢
    exact ⟨_, rfl, hs ▸ .same h⟩
  simp only [hp, ite_false] at hs ⊢
  obtain ⟨sanitized, hsan, hs⟩ := bind_eq_ok.mp hs
  cases hs
  refine ⟨_, bind_eq_ok.mpr ⟨sanitized, hsan, rfl⟩, ?_⟩
  rw [Room.addStroke_eq, Room.addStroke_eq]
  exact .same (htwin rfl rfl rfl)

theorem roomStep_alike {input : RoomInput} {r : Room × List Effect} (h : Twin w w' room room')
    (hl : w'.length = w.length) (hc : room.Coherent) (hu : Unguessing w w' input)
    (hs : roomStep env room input = some r) :
    ∃ r', roomStep env room' input = some r' ∧ Alike w w' r r' := by
  cases input with
  | join socket identity nickname =>
    cases Option.some.inj hs
    exact ⟨_, rfl, joinRoom_alike h hl socket identity nickname⟩
  | leave id =>
    cases Option.some.inj hs
    exact ⟨_, rfl, leaveRoom_alike h hl id⟩
  | chat id text =>
    obtain ⟨r', hr', ha⟩ := handleChat_alike h hl hu (toOption_eq_some hs)
    exact ⟨r', congrArg Except.toOption hr', ha⟩
  | draw id stroke =>
    obtain ⟨r', hr', ha⟩ := handleDraw_alike h hl (toOption_eq_some hs)
    exact ⟨r', congrArg Except.toOption hr', ha⟩
  | drawClear id =>
    cases Option.some.inj hs
    exact ⟨_, rfl, handleDrawClear_alike h hl id⟩
  | startGame =>
    cases Option.some.inj hs
    exact ⟨_, rfl, startGame_alike h hc⟩
  | timer id => exact fireTimer_alike h hc hs

end

/-! ### The opening of a round -/

/-- The handler finds everything as before, but `pickWord` draws another number. -/
def repick (env : Env) (pick : ℕ) : Env := { env with pick := pick }

section
variable {env : Env} {room t : Room} {os : List Effect}

theorem received_send_other (room : Room) (message : ServerToClientMessage) {recipient id : Uuid}
    (h : id ≠ recipient) : received id (room.send env recipient message) = [] := by
  unfold Room.send
  split
  · rfl
  · split_ifs
    · rw [received, List.filterMap_cons_none (by simp [heard, h.symm]), List.filterMap_nil]
    · rfl

theorem startedMessage_repick (drawer : Player) {k : ℕ}
    (h : (pickWord (repick env k) room.usedWords).length = (pickWord env room.usedWords).length) :
    room.startedMessage (repick env k) drawer = room.startedMessage env drawer := by
  unfold Room.startedMessage
  rw [h]
  rfl

theorem received_openEffects_repick (drawer : Player) {k : ℕ} {p : Uuid} (hp : p ≠ drawer.id)
    (h : (pickWord (repick env k) room.usedWords).length = (pickWord env room.usedWords).length) :
    received p (room.openEffects (repick env k) drawer) =
      received p (room.openEffects env drawer) := by
  have hparts : ∀ e : Env, room.openEffects e drawer =
      [room.broadcast e .drawClear,
        room.broadcast e (.roundStarted (room.startedMessage e drawer)) (some drawer.id)] ++
      room.send e drawer.id (.roundStarted
        { room.startedMessage e drawer with word := some (pickWord e room.usedWords) }) :=
    fun e => rfl
  rw [hparts, hparts, received_append, received_append, received_send_other room _ hp,
    received_send_other room _ hp, startedMessage_repick drawer h]
  rfl

/-- The two rooms after a round is opened with one word and with another one. -/
structure OpensAlike (d : Uuid) (r r' : Room × List Effect) : Prop where
  room : r'.1 = relabel r.1 r'.1.word r'.1.usedWords
  told : ∀ w w', r.1.word = some w → r'.1.word = some w' → w'.length = w.length →
    ∀ p ≠ d, received p r'.2 = received p r.2

theorem openRound_alike (drawer : Player) (k : ℕ) (pre : List Effect) :
    OpensAlike drawer.id (room.openRound env drawer, pre ++ room.openEffects env drawer)
      (room.openRound (repick env k) drawer, pre ++ room.openEffects (repick env k) drawer) where
  room := rfl
  told w w' hw hw' hl p hp := by
    have h : pickWord env room.usedWords = w := Option.some.inj hw
    have h' : pickWord (repick env k) room.usedWords = w' := Option.some.inj hw'
    rw [received_append, received_append, received_openEffects_repick drawer hp]
    rw [h, h', hl]

variable [Runtime]

theorem opening_alike {input : RoomInput} {d : Uuid} (hc : room.Coherent)
    (hn : room.drawerId = none) (hs : roomStep env room input = some (t, os))
    (hd : t.drawerId = some d) (k : ℕ) :
    ∃ r', roomStep (repick env k) room input = some r' ∧ OpensAlike d (t, os) r' := by
  have hno : ∀ {x : Uuid}, room.drawerId = some x → False := by
    intro x hx
    rw [hn] at hx
    cases hx
  cases roomStep_transition hc hs with
  | aside _ _ => exact (hno hd).elim
  | draw sanitized _ hdr => exact (hno hdr).elim
  | drawClear _ hdr => exact (hno hdr).elim
  | join _ =>
    rw [Room.seatPlayer_eq] at hd
    exact (hno hd).elim
  | @start drawer hp hsize hq hdr =>
    obtain rfl : drawer.id = d := Option.some.inj hd
    exact ⟨_, congrArg some (startGame_enough (repick env k) room drawer hp hsize hq hdr),
      openRound_alike drawer k [_, _]⟩
  | guess hr _ _ _ _ => exact (hno hr.drawerId).elim
  | lastGuess hr _ _ _ _ => exact (hno hr.drawerId).elim
  | timeUp hr _ => exact (hno hr.drawerId).elim
  | @nextRound id drawer hi ht hq hdr =>
    obtain rfl : drawer.id = d := Option.some.inj hd
    obtain ⟨x, hx, he⟩ := Option.map_eq_some_iff.mp hs
    have hnext := intermissionOver_next (repick env k) (room.timerFired id) drawer
      (Room.timerFired_playing id hi.toPlaying) hq hdr
    obtain ⟨j, hj, hpend⟩ := hi.timer
    obtain rfl : id = j := Option.some.inj (ht.symm.trans hj)
    have hfire : roomStep (repick env k) room (.timer id) =
        some (intermissionOver (repick env k) (room.timerFired id)) := by
      simp only [roomStep, fireTimer, hpend, List.find?_cons, decide_true, Option.map_some]
      rfl
    exact ⟨_, hfire.trans (congrArg some hnext), openRound_alike drawer k []⟩
  | gameOver _ _ _ _ => cases hd
  | leave _ => exact (hno hd).elim
  | leaveGame _ _ _ _ => cases hd
  | leaveRound _ _ _ => cases hd
  | leaveSolved _ _ _ => cases hd

end

/-! ### Runs -/

/-- What the player is told before the round ends. -/
def told (id : Uuid) (os : List Effect) : List ServerToClientMessage :=
  Machine.seen endsRound (heard id) os

theorem Alike.told {w w' : JsString} {r r' : Room × List Effect} (h : Alike w w' r r') (id : Uuid) :
    told id r'.2 = told id r.2 := by
  cases h with
  | same _ => rfl
  | ended he he' => simp [Web.told, Machine.seen, List.takeWhile_append, he, he']

theorem Alike.ends {w w' : JsString} {r r' : Room × List Effect} (h : Alike w w' r r') :
    r'.2.any endsRound = r.2.any endsRound := by
  cases h with
  | same _ => rfl
  | ended he he' => simp [he, he']

theorem Alike.twin {w w' : JsString} {r r' : Room × List Effect} (h : Alike w w' r r')
    (hno : r.2.any endsRound = false) : Twin w w' r.1 r'.1 := by
  cases h with
  | same h => exact h
  | ended he he' => simp [he] at hno

section
variable [Runtime]

theorem stepRoomState_eq {s : RoomState} {i : Env × RoomInput} {r : Room × List Effect}
    (hf : i.1.uuid ∉ s.issued) (hs : roomStep i.1 s.room i.2 = some r) :
    stepRoomState s i = some (⟨r.1, i.1.uuid :: s.issued⟩, r.2) := by
  unfold stepRoomState
  rw [if_neg hf, hs]
  rfl

/-- The inputs among which nobody says either word. -/
abbrev Discreet (w w' : JsString) (_ : RoomState) (i : Env × RoomInput) : Prop :=
  Unguessing w w' i.2

theorem twin_unwinding {id : RoomId} {capacity : ℕ} {s : RoomState}
    (hr : Machine.Reachable (roomSystem id capacity) s) {w w' : JsString}
    (hl : w'.length = w.length) (hw : s.room.word = some w) (used : List JsString) :
    Machine.Unwinding (((roomSystem id capacity).since s).restrict (Discreet w w'))
      ((roomSystem id capacity).since ⟨relabel s.room (some w') used, s.issued⟩) endsRound heard
      (fun s s' => Twin w w' s.room s'.room ∧ s'.issued = s.issued) where
  start t ht := by
    obtain rfl := ht
    exact ⟨_, rfl, .inRound hw, rfl⟩
  step t t' i u os hreach hrel hs := by
    obtain ⟨htwin, hissued⟩ := hrel
    obtain ⟨hdiscreet, hs⟩ := hs
    obtain ⟨hfresh, hstep, hu⟩ := @roomSystem_step _ id capacity _ _ _ _ hs
    have hcoherent := (reachable_inv (hr.of_since hreach.of_restrict)).coherent
    obtain ⟨r', hr', halike⟩ := roomStep_alike htwin hl hcoherent hdiscreet hstep
    rw [← hissued] at hfresh
    refine ⟨_, _, stepRoomState_eq hfresh hr', fun p => halike.told p, halike.ends, ?_⟩
    refine fun hno => ⟨halike.twin hno, ?_⟩
    rw [hu, ← hissued]

/-- Of two runs from an active round that differ in its word alone, each player hears the same
until the round has ended; and a round that opens with another word of the same length tells the
players other than the drawer the same. -/
theorem word_secret (id : RoomId) (capacity : ℕ) (s : RoomState)
    (hr : Machine.Reachable (roomSystem id capacity) s) :
    (∀ d w w' used, s.room.drawerId = some d → s.room.word = some w → w'.length = w.length →
      ∀ is t os,
        Machine.Run (((roomSystem id capacity).since s).restrict (Discreet w w')) is t os →
      ∃ js t' os', js <+: is ∧
        Machine.Run ((roomSystem id capacity).since ⟨relabel s.room (some w') used, s.issued⟩)
          js t' os' ∧
        os'.any endsRound = os.any endsRound ∧ (os.any endsRound = false → js = is) ∧
        ∀ p ≠ d, told p os' = told p os) ∧
    ∀ env input t os d k, s.room.drawerId = none →
      (roomSystem id capacity).step s (env, input) t os → t.room.drawerId = some d →
      ∃ t' os', (roomSystem id capacity).step s (repick env k, input) t' os' ∧
        t' = ⟨relabel t.room t'.room.word t'.room.usedWords, t.issued⟩ ∧
        ∀ w w', t.room.word = some w → t'.room.word = some w' → w'.length = w.length →
          ∀ p ≠ d, received p os' = received p os := by
  constructor
  · intro d w w' used _ hw hl is t os hrun
    obtain ⟨js, t', os', hpre, hrun', htold, hends, hrel⟩ := (twin_unwinding hr hl hw used).run hrun
    exact ⟨js, t', os', hpre, hrun', hends, fun hno => (hrel hno).1, fun p _ => htold p⟩
  · intro env input t os d k hn hs hd
    obtain ⟨hfresh, hstep, hissued⟩ := roomSystem_step hs
    obtain ⟨r', hr', hopens⟩ := opening_alike (reachable_inv hr).coherent hn hstep hd k
    refine ⟨_, _, stepRoomState_eq (i := (repick env k, input)) hfresh hr', ?_, hopens.told⟩
    rw [hissued]
    exact congrArg (fun room => (⟨room, env.uuid :: s.issued⟩ : RoomState)) hopens.room

end

/-- A round is opened for three players; one of them chats, another one arrives, the time is up. -/
def oneRound : List RoomInput :=
  [.join 0 none (utf16 "a"), .join 1 none (utf16 "b"), .join 2 none (utf16 "c"), .startGame,
   .chat ⟨2⟩ (some (.str (utf16 "사자?"))), .join 3 none (utf16 "d"), .timer 0]

abbrev plainState (inputs : List (Env × RoomInput))
    (h : (Machine.exec (@stepRoomState plainRuntime) ⟨newRoom (utf16 "AB3DE") 100, []⟩
      inputs).isSome) : RoomState :=
  ((Machine.exec (@stepRoomState plainRuntime) _ inputs).get h).1

theorem oneRound_secret :
    (∃ s t os js t' os', s.room.word = some (utf16 "사과") ∧
      Machine.Run ((plainSystem.since s).restrict
        (@Discreet plainRuntime (utf16 "사과") (utf16 "우산"))) ((numbered oneRound).drop 4) t os ∧
      Machine.Run (plainSystem.since
        ⟨relabel s.room (some (utf16 "우산")) [utf16 "우산"], s.issued⟩) js t' os' ∧
      (told ⟨2⟩ os).length = 3 ∧ told ⟨2⟩ os' = told ⟨2⟩ os) ∧
    ∃ s t os t' os', plainSystem.step s (plainEnv 3, .startGame) t os ∧
      plainSystem.step s (repick (plainEnv 3) 6, .startGame) t' os' ∧
      t.room.word = some (utf16 "사과") ∧ t'.room.word = some (utf16 "우산") ∧
      received ⟨2⟩ os' = received ⟨2⟩ os := by
  constructor
  · have hr := (@word_secret plainRuntime _ _
      (plainState ((numbered oneRound).take 4) (by decide +kernel))
      ⟨_, _, Machine.exec_get_run (by decide +kernel)⟩).1
      ⟨1⟩ (utf16 "사과") (utf16 "우산") [utf16 "우산"] (by decide +kernel) (by decide +kernel)
      (by decide +kernel) ((numbered oneRound).drop 4) _ _
      (Machine.exec_restrict_run (by decide +kernel))
    obtain ⟨js, t', os', -, hrun, -, -, htold⟩ := hr
    exact ⟨_, _, _, js, t', os', by decide +kernel, Machine.exec_restrict_run (by decide +kernel),
      hrun, by decide +kernel, htold ⟨2⟩ (by decide +kernel)⟩
  · obtain ⟨t', os', hs, -, htold⟩ := (@word_secret plainRuntime _ _
      (plainState ((numbered oneRound).take 3) (by decide +kernel))
      ⟨_, _, Machine.exec_get_run (by decide +kernel)⟩).2 (plainEnv 3) .startGame
      _ _ ⟨1⟩ 6 (by decide +kernel) (Option.some_get (by decide +kernel)).symm (by decide +kernel)
    have hword : (@stepRoomState plainRuntime
        (plainState ((numbered oneRound).take 3) (by decide +kernel))
        (repick (plainEnv 3) 6, .startGame)).map (fun r => r.1.room.word) =
          some (some (utf16 "우산")) := by decide +kernel
    have ht : t'.room.word = some (utf16 "우산") := by
      rw [show @stepRoomState plainRuntime _ _ = some (t', os') from hs] at hword
      exact Option.some.inj hword
    exact ⟨_, _, _, t', os', (Option.some_get (by decide +kernel)).symm, hs, by decide +kernel, ht,
      htold (utf16 "사과") (utf16 "우산") (by decide +kernel) ht (by decide +kernel) ⟨2⟩
        (by decide +kernel)⟩

end GachaMind.Web
