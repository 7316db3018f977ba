import GachaMind.GameSession.Moves

/-!
# Coherent rooms

A game is between games, inside a round or in an intermission. `Coherent` says which
fields go together in each of the three, and the lemmas say how each move of
`Moves` leads from one to another. The state between a departure and the reaction
to it is not coherent: there only `Base` and, when enough players are left,
`Playing` hold.
-/

namespace GachaMind.GameSession
open GachaMind.Js GachaMind.Shared KeyedTable

namespace Room

/-- What holds of a room at every point, also inside a handler. -/
structure Base (room : Room) : Prop where
  queue_present : ∀ id ∈ room.drawerQueue, id ∈ room.players.keys
  queue_nodup : room.drawerQueue.Nodup
  solved_present : ∀ id ∈ room.solvedPlayerIds, id ∈ room.players.keys
  timers_owned : ∀ t ∈ room.timers.pending, room.roundTimer = some t.id

structure Idle (room : Room) : Prop where
  phase : room.phase ≠ .playing
  gameId : room.gameId = none
  drawerId : room.drawerId = none
  word : room.word = none
  roundEndsAt : room.roundEndsAt = none
  queue : room.drawerQueue = []
  timers : room.timers.pending = []

structure Playing (room : Room) : Prop where
  phase : room.phase = .playing
  enough : MIN_PLAYERS_TO_START ≤ room.size
  gameId : ∃ g, room.gameId = some g

structure InRound (room : Room) (d : Uuid) (w : JsString) : Prop extends Playing room where
  drawerId : room.drawerId = some d
  word : room.word = some w
  word_ne_nil : w ≠ []
  roundEndsAt : ∃ e, room.roundEndsAt = some e
  drawer_present : d ∈ room.players.keys
  drawer_unsolved : d ∉ room.solvedPlayerIds
  drawer_unqueued : d ∉ room.drawerQueue
  guesser : ∃ id ∈ room.players.keys, id ≠ d ∧ id ∉ room.solvedPlayerIds
  timer : ∃ id, room.roundTimer = some id ∧ room.timers.pending = [⟨id, .endRound⟩]

structure InIntermission (room : Room) : Prop extends Playing room where
  drawerId : room.drawerId = none
  word : room.word = none
  roundEndsAt : room.roundEndsAt = none
  timer : ∃ id, room.roundTimer = some id ∧ room.timers.pending = [⟨id, .intermission⟩]

def Coherent (room : Room) : Prop :=
  room.Base ∧ (room.Idle ∨ (∃ d w, room.InRound d w) ∨ room.InIntermission)

/-! ### Counting guessers -/

theorem unsolvedGuesserCount_ne_zero (room : Room) :
    room.unsolvedGuesserCount ≠ 0 ↔
      ∃ id ∈ room.players.keys, some id ≠ room.drawerId ∧ id ∉ room.solvedPlayerIds := by
  rw [unsolvedGuesserCount, ne_eq, List.countP_eq_zero]
  simp [mem_keys]

theorem unsolvedGuesserCount_eq_zero (room : Room) :
    room.unsolvedGuesserCount = 0 ↔
      ∀ id ∈ room.players.keys, some id = room.drawerId ∨ id ∈ room.solvedPlayerIds := by
  rw [← not_iff_not, ← ne_eq, unsolvedGuesserCount_ne_zero]
  push Not
  rfl

/-! ### Timers -/

theorem clearRoundTimer_pending {room : Room} (h : room.Base) :
    room.clearRoundTimer.timers.pending = [] := by
  unfold clearRoundTimer
  cases ht : room.roundTimer with
  | none =>
    rw [List.eq_nil_iff_forall_not_mem]
    intro t hm
    have := h.timers_owned t hm
    rw [ht] at this
    exact absurd this (by simp)
  | some id =>
    simp only [Timers.clearTimeout, List.filter_eq_nil_iff, decide_eq_true_eq, ne_eq, not_not]
    intro t hm
    have := h.timers_owned t hm
    rw [ht] at this
    exact (Option.some.inj this).symm

theorem timerFired_base {room : Room} (id : ℕ) (h : room.Base) : (room.timerFired id).Base where
  queue_present := h.queue_present
  queue_nodup := h.queue_nodup
  solved_present := h.solved_present
  timers_owned t ht := h.timers_owned t (List.mem_of_mem_filter ht)

theorem timerFired_playing {room : Room} (id : ℕ) (h : room.Playing) :
    (room.timerFired id).Playing :=
  ⟨h.phase, h.enough, h.gameId⟩

theorem setRoundTimer_owned {room : Room} {callback : TimerCallback}
    (h : room.timers.pending = []) :
    ∃ id, (room.setRoundTimer callback).roundTimer = some id ∧
      (room.setRoundTimer callback).timers.pending = [⟨id, callback⟩] := by
  refine ⟨room.timers.next, rfl, ?_⟩
  simp [setRoundTimer, Timers.setTimeout, h]

theorem timers_owned_of_single {room : Room} {callback : TimerCallback}
    (h : ∃ id, room.roundTimer = some id ∧ room.timers.pending = [⟨id, callback⟩]) :
    ∀ t ∈ room.timers.pending, room.roundTimer = some t.id := by
  obtain ⟨id, hr, hp⟩ := h
  intro t ht
  rw [hp, List.mem_singleton] at ht
  rw [ht, hr]

/-! ### Closing a round and finishing a game -/

theorem closeRound_timer {room : Room} (h : room.Base) :
    ∃ id, room.closeRound.roundTimer = some id ∧
      room.closeRound.timers.pending = [⟨id, .intermission⟩] :=
  setRoundTimer_owned (clearRoundTimer_pending h)

theorem closeRound_base {room : Room} (h : room.Base) : room.closeRound.Base where
  queue_present := h.queue_present
  queue_nodup := h.queue_nodup
  solved_present := h.solved_present
  timers_owned := timers_owned_of_single (closeRound_timer h)

theorem closeRound_intermission {room : Room} (h : room.Base) (hp : room.Playing) :
    room.closeRound.InIntermission where
  phase := hp.phase
  enough := hp.enough
  gameId := hp.gameId
  drawerId := rfl
  word := rfl
  roundEndsAt := rfl
  timer := closeRound_timer h

theorem closeRound_coherent {room : Room} (h : room.Base) (hp : room.Playing) :
    room.closeRound.Coherent :=
  ⟨closeRound_base h, .inr (.inr (closeRound_intermission h hp))⟩

theorem finishGame_idle {room : Room} (h : room.Base) : room.finishGame.Idle where
  phase := by simp [finishGame]
  gameId := rfl
  drawerId := rfl
  word := rfl
  roundEndsAt := rfl
  queue := rfl
  timers := clearRoundTimer_pending h

theorem finishGame_coherent {room : Room} (h : room.Base) : room.finishGame.Coherent where
  left :=
    { queue_present := by simp [finishGame]
      queue_nodup := List.nodup_nil
      solved_present := h.solved_present
      timers_owned := by
        have hp : room.finishGame.timers.pending = [] := clearRoundTimer_pending h
        simp [hp] }
  right := .inl (finishGame_idle h)

/-! ### Opening a round -/

theorem exists_other {room : Room} (h : MIN_PLAYERS_TO_START ≤ room.size) (d : Uuid) :
    ∃ id ∈ room.players.keys, id ≠ d := by
  by_contra hno
  push Not at hno
  have hsub : room.players.keys ⊆ [d] := fun id hid => by simpa using hno id hid
  have hlen := (keys_nodup room.players).length_le_of_subset hsub
  rw [length_keys] at hlen
  have hsize : 2 ≤ room.players.size := h
  simp at hlen
  omega

theorem openRound_base {room : Room} (env : Env) (drawer : Player) (h : room.Base) :
    (room.openRound env drawer).Base where
  queue_present id hid := h.queue_present id (List.mem_of_mem_tail hid)
  queue_nodup := h.queue_nodup.sublist (List.tail_sublist _)
  solved_present := by simp [openRound, setRoundTimer]
  timers_owned := timers_owned_of_single (setRoundTimer_owned (clearRoundTimer_pending h))

theorem WORDS_ne_nil : [] ∉ WORDS := by decide

theorem openRound_inRound {room : Room} (env : Env) {drawer : Player} (h : room.Base)
    (hp : room.Playing) (hq : room.drawerQueue.head? = some drawer.id)
    (hd : drawer ∈ room.players.rows) :
    (room.openRound env drawer).InRound drawer.id (pickWord env room.usedWords) where
  phase := hp.phase
  enough := hp.enough
  gameId := hp.gameId
  drawerId := rfl
  word := rfl
  word_ne_nil hw := WORDS_ne_nil (hw ▸ pickWord_mem env room.usedWords)
  roundEndsAt := ⟨_, rfl⟩
  drawer_present := key_mem_keys hd
  drawer_unsolved := by simp [openRound, setRoundTimer]
  drawer_unqueued := by
    have hcons := List.eq_cons_of_mem_head? hq
    have hnd := h.queue_nodup
    rw [hcons] at hnd
    exact (List.nodup_cons.mp hnd).1
  guesser := by
    obtain ⟨id, hid, hne⟩ := exists_other hp.enough drawer.id
    exact ⟨id, hid, hne, by simp [openRound, setRoundTimer]⟩
  timer := setRoundTimer_owned (clearRoundTimer_pending h)

/-! ### Beginning a game -/

theorem beginGame_base {room : Room} (env : Env) (h : room.Base) : (room.beginGame env).Base where
  queue_present id hid := by
    have hmem := (shuffle_perm env.random room.players.keys).mem_iff.mp (List.mem_of_mem_take hid)
    simpa [beginGame] using hmem
  queue_nodup :=
    ((shuffle_perm _ _).nodup_iff.mpr (keys_nodup _)).sublist (List.take_sublist _ _)
  solved_present id hid := by simpa [beginGame] using h.solved_present id hid
  timers_owned := h.timers_owned

theorem beginGame_playing {room : Room} (env : Env) (h : MIN_PLAYERS_TO_START ≤ room.size) :
    (room.beginGame env).Playing where
  phase := rfl
  enough := by simpa [beginGame, size] using h
  gameId := ⟨_, rfl⟩

theorem beginGame_queue_length {room : Room} (env : Env) :
    (room.beginGame env).drawerQueue.length = (room.beginGame env).totalRounds := by
  have hlen := (shuffle_perm env.random room.players.keys).length_eq
  rw [length_keys] at hlen
  simp [beginGame, size, hlen]

theorem beginGame_totalRounds_pos {room : Room} (env : Env) (h : MIN_PLAYERS_TO_START ≤ room.size) :
    0 < (room.beginGame env).totalRounds := by
  have hr : 0 < MAX_ROUNDS := by decide
  have hm : 0 < MIN_PLAYERS_TO_START := by decide
  exact lt_min (hm.trans_le h) hr

theorem exists_drawer {room : Room} (h : room.Base) (hq : room.drawerQueue ≠ []) :
    ∃ drawer ∈ room.players.rows, room.drawerQueue.head? = some drawer.id := by
  cases hc : room.drawerQueue with
  | nil => exact absurd hc hq
  | cons id rest =>
    have hid : id ∈ room.players.keys := h.queue_present id (by rw [hc]; exact List.mem_cons_self)
    obtain ⟨drawer, hd, rfl⟩ := mem_keys.mp hid
    exact ⟨drawer, hd, rfl⟩

/-! ### Scoring a guess -/

@[simp] theorem keys_scoreGuess (env : Env) (room : Room) (solver drawer : Uuid) :
    (room.scoreGuess env solver drawer).players.keys = room.players.keys := by
  simp [scoreGuess, addScore]

@[simp] theorem size_scoreGuess (env : Env) (room : Room) (solver drawer : Uuid) :
    (room.scoreGuess env solver drawer).size = room.size := by
  simp [scoreGuess, addScore, size]

theorem scoreGuess_base {room : Room} (env : Env) {solver : Uuid} (drawer : Uuid) (h : room.Base)
    (hs : solver ∈ room.players.keys) : (room.scoreGuess env solver drawer).Base where
  queue_present id hid := by simpa using h.queue_present id hid
  queue_nodup := h.queue_nodup
  solved_present id hid := by
    rcases Finset.mem_insert.mp hid with rfl | hid
    · simpa using hs
    · simpa using h.solved_present id hid
  timers_owned := h.timers_owned

theorem scoreGuess_playing {room : Room} (env : Env) (solver drawer : Uuid) (h : room.Playing) :
    (room.scoreGuess env solver drawer).Playing :=
  ⟨h.phase, by simpa using h.enough, h.gameId⟩

theorem scoreGuess_inRound {room : Room} (env : Env) {solver d : Uuid} {w : JsString}
    (h : room.InRound d w) (hne : solver ≠ d)
    (hc : (room.scoreGuess env solver d).unsolvedGuesserCount ≠ 0) :
    (room.scoreGuess env solver d).InRound d w where
  toPlaying := scoreGuess_playing env solver d h.toPlaying
  drawerId := h.drawerId
  word := h.word
  word_ne_nil := h.word_ne_nil
  roundEndsAt := h.roundEndsAt
  drawer_present := by simpa using h.drawer_present
  drawer_unsolved hd := by
    rcases Finset.mem_insert.mp hd with rfl | hd
    · exact hne rfl
    · exact h.drawer_unsolved hd
  drawer_unqueued := h.drawer_unqueued
  guesser := by
    obtain ⟨id, hid, hd, hs⟩ := (unsolvedGuesserCount_ne_zero _).mp hc
    have hdr : (room.scoreGuess env solver d).drawerId = some d := h.drawerId
    rw [hdr] at hd
    exact ⟨id, hid, fun he => hd (by rw [he]), hs⟩
  timer := h.timer

/-! ### Removing a player -/

theorem removePlayer_base {room : Room} (id : Uuid) (h : room.Base) :
    (room.removePlayer id).Base where
  queue_present l hl := by
    have hm := List.mem_filter.mp hl
    exact mem_keys_erase.mpr ⟨h.queue_present l hm.1, by simpa using hm.2⟩
  queue_nodup := h.queue_nodup.sublist List.filter_sublist
  solved_present l hl := by
    have hm := Finset.mem_erase.mp hl
    exact mem_keys_erase.mpr ⟨h.solved_present l hm.2, hm.1⟩
  timers_owned := h.timers_owned

theorem removePlayer_playing {room : Room} (id : Uuid) (h : room.Playing)
    (hs : MIN_PLAYERS_TO_START ≤ (room.removePlayer id).size) : (room.removePlayer id).Playing :=
  ⟨h.phase, hs, h.gameId⟩

theorem removePlayer_idle {room : Room} (id : Uuid) (h : room.Idle) :
    (room.removePlayer id).Idle where
  phase := h.phase
  gameId := h.gameId
  drawerId := h.drawerId
  word := h.word
  roundEndsAt := h.roundEndsAt
  queue := by simp [removePlayer, h.queue]
  timers := h.timers

theorem removePlayer_inRound {room : Room} {id d : Uuid} {w : JsString} (h : room.InRound d w)
    (hs : MIN_PLAYERS_TO_START ≤ (room.removePlayer id).size) (hne : id ≠ d)
    (hc : (room.removePlayer id).unsolvedGuesserCount ≠ 0) :
    (room.removePlayer id).InRound d w where
  toPlaying := removePlayer_playing id h.toPlaying hs
  drawerId := h.drawerId
  word := h.word
  word_ne_nil := h.word_ne_nil
  roundEndsAt := h.roundEndsAt
  drawer_present := mem_keys_erase.mpr ⟨h.drawer_present, hne.symm⟩
  drawer_unsolved hd := h.drawer_unsolved (Finset.mem_of_mem_erase hd)
  drawer_unqueued hd := h.drawer_unqueued (List.mem_of_mem_filter hd)
  guesser := by
    obtain ⟨l, hl, hd, hsolved⟩ := (unsolvedGuesserCount_ne_zero _).mp hc
    have hdr : (room.removePlayer id).drawerId = some d := h.drawerId
    rw [hdr] at hd
    exact ⟨l, hl, fun he => hd (by rw [he]), hsolved⟩
  timer := h.timer

theorem removePlayer_intermission {room : Room} {id : Uuid} (h : room.InIntermission)
    (hs : MIN_PLAYERS_TO_START ≤ (room.removePlayer id).size) :
    (room.removePlayer id).InIntermission where
  toPlaying := removePlayer_playing id h.toPlaying hs
  drawerId := h.drawerId
  word := h.word
  roundEndsAt := h.roundEndsAt
  timer := h.timer

/-! ### Drawing -/

theorem addStroke_eq (room : Room) (stroke : StrokeSegment) : room.addStroke stroke =
    { room with strokes := if MAX_BUFFERED_STROKES ≤ room.strokes.length then room.strokes
        else room.strokes ++ [stroke] } := by
  unfold addStroke
  split_ifs <;> rfl

theorem addStroke_frame (room : Room) (stroke : StrokeSegment) :
    (room.addStroke stroke).solvedPlayerIds = room.solvedPlayerIds ∧
      (room.addStroke stroke).drawerId = room.drawerId ∧
      (room.addStroke stroke).phase = room.phase := by
  rw [addStroke_eq]
  exact ⟨rfl, rfl, rfl⟩

/-! ### Adding a player -/

theorem seatPlayer_eq (room : Room) (player : Player) :
    seatPlayer room player = { room with
      players := room.players.set player
      drawerQueue :=
        if room.phase = .playing then room.drawerQueue ++ [player.id] else room.drawerQueue } := by
  unfold seatPlayer
  by_cases h : room.phase = .playing <;> simp [addPlayer, h]

theorem size_seatPlayer {room : Room} {player : Player} (hf : player.id ∉ room.players.keys) :
    (seatPlayer room player).size = room.size + 1 := by
  rw [seatPlayer_eq]
  exact size_set_of_new hf

theorem seatPlayer_base {room : Room} {player : Player} (h : room.Base)
    (hf : player.id ∉ room.players.keys) : (seatPlayer room player).Base := by
  have hq : player.id ∉ room.drawerQueue := fun hq => hf (h.queue_present _ hq)
  rw [seatPlayer_eq]
  refine ⟨?_, ?_, ?_, h.timers_owned⟩
  · intro id hid
    dsimp only at hid ⊢
    rw [mem_keys_set]
    split_ifs at hid with hp
    · rcases List.mem_append.mp hid with hid | hid
      · exact .inr (h.queue_present id hid)
      · exact .inl (List.mem_singleton.mp hid)
    · exact .inr (h.queue_present id hid)
  · dsimp only
    split_ifs
    · exact List.nodup_append.mpr ⟨h.queue_nodup, List.nodup_singleton _, by
        intro a ha b hb he
        rw [List.mem_singleton] at hb
        exact hq (by rw [← hb, ← he]; exact ha)⟩
    · exact h.queue_nodup
  · intro id hid
    exact mem_keys_set.mpr (.inr (h.solved_present id hid))

theorem seatPlayer_playing {room : Room} {player : Player} (h : room.Playing)
    (hf : player.id ∉ room.players.keys) : (seatPlayer room player).Playing := by
  have hs := size_seatPlayer hf
  rw [seatPlayer_eq] at hs ⊢
  exact ⟨h.phase, by rw [hs]; exact h.enough.trans (Nat.le_succ _), h.gameId⟩

theorem seatPlayer_idle {room : Room} (player : Player) (h : room.Idle) :
    (seatPlayer room player).Idle := by
  rw [seatPlayer_eq]
  exact ⟨h.phase, h.gameId, h.drawerId, h.word, h.roundEndsAt, by simp [h.phase, h.queue], h.timers⟩

theorem seatPlayer_inRound {room : Room} {player : Player} {d : Uuid} {w : JsString}
    (h : room.InRound d w) (hb : room.Base) (hf : player.id ∉ room.players.keys) :
    (seatPlayer room player).InRound d w := by
  have hp := seatPlayer_playing h.toPlaying hf
  have hne : player.id ≠ d := fun he => hf (he ▸ h.drawer_present)
  rw [seatPlayer_eq] at hp ⊢
  refine ⟨hp, h.drawerId, h.word, h.word_ne_nil, h.roundEndsAt,
    mem_keys_set.mpr (.inr h.drawer_present), h.drawer_unsolved, ?_, ?_, h.timer⟩
  · simpa [h.phase, hne.symm] using h.drawer_unqueued
  · exact ⟨player.id, mem_keys_set.mpr (.inl rfl), hne, fun hs => hf (hb.solved_present _ hs)⟩

theorem seatPlayer_intermission {room : Room} {player : Player} (h : room.InIntermission)
    (hf : player.id ∉ room.players.keys) : (seatPlayer room player).InIntermission := by
  have hp := seatPlayer_playing h.toPlaying hf
  rw [seatPlayer_eq] at hp ⊢
  exact ⟨hp, h.drawerId, h.word, h.roundEndsAt, h.timer⟩

theorem seatPlayer_coherent {room : Room} {player : Player} (h : room.Coherent)
    (hf : player.id ∉ room.players.keys) : (seatPlayer room player).Coherent := by
  obtain ⟨hb, hi | ⟨d, w, hr⟩ | hi⟩ := h
  · exact ⟨seatPlayer_base hb hf, .inl (seatPlayer_idle player hi)⟩
  · exact ⟨seatPlayer_base hb hf, .inr (.inl ⟨d, w, seatPlayer_inRound hr hb hf⟩)⟩
  · exact ⟨seatPlayer_base hb hf, .inr (.inr (seatPlayer_intermission hi hf))⟩

end Room

end GachaMind.GameSession
