import GachaMind.GameSession.GameSteps

/-!
# The invariant of a room

Every reachable room is coherent: each way a step can change it leads from a coherent
room to a coherent room. `Consistent` is what this says of the fields.
-/

namespace GachaMind.GameSession
open GachaMind.Js GachaMind.Shared KeyedTable

/-! ### One step -/

theorem quiet_coherent {room : Room} (strokes : List StrokeSegment) (h : room.Coherent) :
    ({ room with strokes := strokes } : Room).Coherent := by
  obtain ⟨hb, hi | ⟨d, w, hr⟩ | hi⟩ := h
  · exact ⟨⟨hb.1, hb.2, hb.3, hb.4⟩, .inl ⟨hi.1, hi.2, hi.3, hi.4, hi.5, hi.6, hi.7⟩⟩
  · exact ⟨⟨hb.1, hb.2, hb.3, hb.4⟩, .inr (.inl ⟨d, w,
      ⟨⟨hr.1.1, hr.1.2, hr.1.3⟩, hr.2, hr.3, hr.4, hr.5, hr.6, hr.7, hr.8, hr.9, hr.10⟩⟩)⟩
  · exact ⟨⟨hb.1, hb.2, hb.3, hb.4⟩, .inr (.inr
      ⟨⟨hi.1.1, hi.1.2, hi.1.3⟩, hi.2, hi.3, hi.4, hi.5⟩)⟩

theorem leave_coherent {room : Room} {id : Uuid} (h : room.Coherent)
    (hl : room.phase = .playing →
      MIN_PLAYERS_TO_START ≤ (room.removePlayer id).size ∧ room.drawerId ≠ some id ∧
      (room.removePlayer id).unsolvedGuesserCount ≠ 0) : (room.removePlayer id).Coherent := by
  obtain ⟨hb, hi | ⟨d, w, hr⟩ | hi⟩ := h
  · exact ⟨Room.removePlayer_base id hb, .inl (Room.removePlayer_idle id hi)⟩
  · obtain ⟨hs, hd, hc⟩ := hl hr.phase
    have hne : id ≠ d := fun he => hd (by rw [he, hr.drawerId])
    exact ⟨Room.removePlayer_base id hb,
      .inr (.inl ⟨d, w, Room.removePlayer_inRound hr hs hne hc⟩)⟩
  · exact ⟨Room.removePlayer_base id hb,
      .inr (.inr (Room.removePlayer_intermission hi (hl hi.phase).1))⟩

theorem gameStep_coherent {env : Env} {room t : Room} {input : RoomInput} {ms : List GameMark}
    (h : room.Coherent) (hf : env.uuid ∉ room.players.keys)
    (hs : GameStep env room input t ms) : t.Coherent := by
  cases hs with
  | quiet strokes _ => exact quiet_coherent strokes h
  | join _ => exact Room.seatPlayer_coherent h hf
  | start hp hs hq hd =>
    have hb := Room.beginGame_base env h.1
    exact ⟨Room.openRound_base env _ hb, .inr (.inl ⟨_, _,
      Room.openRound_inRound env hb (Room.beginGame_playing env hs) hq hd⟩)⟩
  | guess hr hp hd _ hc =>
    exact ⟨Room.scoreGuess_base env _ h.1 (key_mem_keys hp),
      .inr (.inl ⟨_, _, Room.scoreGuess_inRound env hr hd hc⟩)⟩
  | lastGuess hr hp _ _ _ =>
    exact Room.closeRound_coherent (Room.scoreGuess_base env _ h.1 (key_mem_keys hp))
      (Room.scoreGuess_playing env _ _ hr.toPlaying)
  | timeUp hr =>
    exact Room.closeRound_coherent (Room.timerFired_base _ h.1)
      (Room.timerFired_playing _ hr.toPlaying)
  | @nextRound id _ hi hq hd =>
    have hb := Room.timerFired_base id h.1
    exact ⟨Room.openRound_base env _ hb, .inr (.inl ⟨_, _,
      Room.openRound_inRound env hb (Room.timerFired_playing _ hi.toPlaying) hq hd⟩)⟩
  | gameOver _ _ _ => exact Room.finishGame_coherent (Room.timerFired_base _ h.1)
  | leave hl => exact leave_coherent h hl
  | leaveGame _ _ _ => exact Room.finishGame_coherent (Room.removePlayer_base _ h.1)
  | leaveRound hr hs =>
    exact Room.closeRound_coherent (Room.removePlayer_base _ h.1)
      (Room.removePlayer_playing _ hr.toPlaying hs)
  | leaveSolved hi hs _ =>
    exact Room.closeRound_coherent (Room.removePlayer_base _ h.1)
      (Room.removePlayer_playing _ hi.toPlaying hs)

/-! ### Identifiers -/

@[simp] theorem keys_beginGame (env : Env) (room : Room) :
    (room.beginGame env).players.keys = room.players.keys := by
  simp [Room.beginGame]

theorem gameStep_newcomer {env : Env} {room t : Room} {input : RoomInput} {ms : List GameMark}
    (hs : GameStep env room input t ms) {id : Uuid} (hid : id ∈ t.players.keys) :
    id ∈ room.players.keys ∨ id = env.uuid ∧ ∃ socket identity nickname,
      input = .join socket identity nickname ∧ room.isFull = false := by
  cases hs with
  | quiet _ _ => exact .inl hid
  | join h =>
    rw [Room.seatPlayer_eq] at hid
    rcases mem_keys_set.mp hid with hid | hid
    · exact .inr ⟨hid, _, _, _, rfl, h⟩
    · exact .inl hid
  | start _ _ _ _ =>
    have hbegun : id ∈ (room.beginGame env).players.keys := hid
    exact .inl (by simpa using hbegun)
  | guess _ _ _ _ _ => exact .inl (by simpa using hid)
  | @lastGuess solver _ d _ _ _ _ _ _ =>
    have hscored : id ∈ (room.scoreGuess env solver.id d).players.keys := hid
    exact .inl (by simpa using hscored)
  | timeUp _ => exact .inl hid
  | nextRound _ _ _ => exact .inl hid
  | gameOver _ _ _ => exact .inl hid
  | leave _ => exact .inl (mem_keys_erase.mp hid).1
  | leaveGame _ _ _ => exact .inl (mem_keys_erase.mp hid).1
  | leaveRound _ _ => exact .inl (mem_keys_erase.mp hid).1
  | leaveSolved _ _ _ => exact .inl (mem_keys_erase.mp hid).1

theorem gameStep_keys {env : Env} {room t : Room} {input : RoomInput} {ms : List GameMark}
    (hs : GameStep env room input t ms) {id : Uuid} (hid : id ∈ t.players.keys) :
    id = env.uuid ∨ id ∈ room.players.keys := by
  rcases gameStep_newcomer hs hid with hid | ⟨hid, -⟩
  · exact .inr hid
  · exact .inl hid

structure RoomState.Inv (s : RoomState) : Prop where
  coherent : s.room.Coherent
  players_issued : ∀ id ∈ s.room.players.keys, id ∈ s.issued

theorem newRoom_coherent (id : RoomId) (capacity : ℕ) : (newRoom id capacity).Coherent where
  left := ⟨by simp [newRoom], by simp [newRoom], by simp [newRoom], by simp [newRoom]⟩
  right := .inl ⟨by simp [newRoom], rfl, rfl, rfl, rfl, rfl, rfl⟩

theorem newRoom_inv (id : RoomId) (capacity : ℕ) :
    (⟨newRoom id capacity, []⟩ : RoomState).Inv where
  coherent := newRoom_coherent id capacity
  players_issued := by simp [newRoom]

section
variable [Runtime] {id : RoomId} {capacity : ℕ}

theorem step_marks {s t : RoomState} {i : Env × RoomInput} {os : List Effect} (h : s.Inv)
    (hs : (roomSystem id capacity).step s i t os) :
    i.1.uuid ∉ s.room.players.keys ∧ GameStep i.1 s.room i.2 t.room (marks os) ∧
      t.issued = i.1.uuid :: s.issued := by
  obtain ⟨hu, hr, ht⟩ := roomSystem_step hs
  exact ⟨fun hid => hu (h.players_issued _ hid), roomStep_cases h.coherent hr, ht⟩

theorem step_inv {s t : RoomState} {i : Env × RoomInput} {os : List Effect} (h : s.Inv)
    (hs : (roomSystem id capacity).step s i t os) : t.Inv := by
  obtain ⟨hf, hg, ht⟩ := step_marks h hs
  refine ⟨gameStep_coherent h.coherent hf hg, fun l hl => ?_⟩
  rw [ht, List.mem_cons]
  rcases gameStep_keys hg hl with hl | hl
  · exact .inl hl
  · exact .inr (h.players_issued l hl)

theorem reachable_inv {s : RoomState} (hr : Machine.Reachable (roomSystem id capacity) s) :
    s.Inv := by
  refine hr.invariant ?_ fun _ _ _ _ h hs => step_inv h hs
  intro s h
  obtain rfl := h
  exact newRoom_inv id capacity

end

/-! ### What it says of the fields -/

structure Room.Consistent (room : Room) : Prop where
  playing_enough : room.phase = .playing →
    MIN_PLAYERS_TO_START ≤ room.size ∧ room.gameId ≠ none
  idle_clear : room.phase ≠ .playing →
    room.gameId = none ∧ room.drawerId = none ∧ room.word = none ∧ room.roundEndsAt = none ∧
      room.drawerQueue = []
  all_or_none :
    (room.drawerId = none ∧ room.word = none ∧ room.roundEndsAt = none) ∨
      (room.drawerId ≠ none ∧ room.word ≠ none ∧ room.roundEndsAt ≠ none)
  drawing : ∀ d, room.drawerId = some d →
    room.phase = .playing ∧ d ∈ room.players.keys ∧ d ∉ room.solvedPlayerIds ∧
      d ∉ room.drawerQueue ∧ ∃ id ∈ room.players.keys, id ≠ d ∧ id ∉ room.solvedPlayerIds
  solved_present : ∀ id ∈ room.solvedPlayerIds, id ∈ room.players.keys

theorem Room.InRound.consistent {room : Room} {d : Uuid} {w : JsString} (h : room.InRound d w)
    (hb : room.Base) : room.Consistent where
  playing_enough _ := by
    obtain ⟨g, hg⟩ := h.gameId
    exact ⟨h.enough, by simp [hg]⟩
  idle_clear hp := absurd h.phase hp
  all_or_none := by
    obtain ⟨e, he⟩ := h.roundEndsAt
    exact .inr ⟨by simp [h.drawerId], by simp [h.word], by simp [he]⟩
  drawing d' hd := by
    obtain rfl := Option.some.inj (h.drawerId.symm.trans hd)
    exact ⟨h.phase, h.drawer_present, h.drawer_unsolved, h.drawer_unqueued, h.guesser⟩
  solved_present := hb.solved_present

theorem Room.Coherent.consistent {room : Room} (h : room.Coherent) : room.Consistent := by
  obtain ⟨hb, hi | ⟨d, w, hr⟩ | hi⟩ := h
  · exact
      { playing_enough := fun hp => absurd hp hi.phase
        idle_clear := fun _ => ⟨hi.gameId, hi.drawerId, hi.word, hi.roundEndsAt, hi.queue⟩
        all_or_none := .inl ⟨hi.drawerId, hi.word, hi.roundEndsAt⟩
        drawing := fun d hd => absurd (hi.drawerId.symm.trans hd) (by simp)
        solved_present := hb.solved_present }
  · exact hr.consistent hb
  · obtain ⟨g, hg⟩ := hi.gameId
    exact
      { playing_enough := fun _ => ⟨hi.enough, by simp [hg]⟩
        idle_clear := fun hp => absurd hi.phase hp
        all_or_none := .inl ⟨hi.drawerId, hi.word, hi.roundEndsAt⟩
        drawing := fun d hd => absurd (hi.drawerId.symm.trans hd) (by simp)
        solved_present := hb.solved_present }

theorem reachable_room_consistent [Runtime] (id : RoomId) (capacity : ℕ) (s : RoomState)
    (hr : Machine.Reachable (roomSystem id capacity) s) : s.room.Consistent :=
  (reachable_inv hr).coherent.consistent

/-- Three players join and start a game; the second one leaves again. -/
def joinStartLeave : List RoomInput :=
  [.join 0 none (utf16 "a"), .join 1 none (utf16 "b"), .join 2 none (utf16 "c"), .startGame,
   .leave ⟨1⟩]

theorem joinStartLeave_consistent : ∃ s os,
    Machine.Run plainSystem (numbered joinStartLeave) s os ∧ s.room.phase = .playing ∧
      s.room.Consistent :=
  ⟨_, _, Machine.exec_get_run (by decide +kernel), by decide +kernel,
    @reachable_room_consistent plainRuntime _ _ _ ⟨_, _, Machine.exec_get_run (by decide +kernel)⟩⟩

end GachaMind.GameSession
