import GachaMind.GameSession.Results
import GachaMind.GameSession.Timers

/-!
# Every game ends

`firingsLeft` bounds how often the timer of a playing room can still fire before the game is
over. No input other than a join raises it, and each firing of the timer lowers it.
-/

namespace GachaMind.GameSession
open GachaMind.Js GachaMind.Shared KeyedTable

/-! ### The measure -/

/-- A round to come takes two firings, the round that is on one more than its intermission. -/
def Room.firingsLeft (room : Room) : ℕ :=
  2 * room.drawerQueue.length + if room.drawerId = none then 1 else 2

theorem firingsLeft_le (room : Room) : room.firingsLeft ≤ 2 * room.drawerQueue.length + 2 := by
  unfold Room.firingsLeft
  split_ifs <;> omega

theorem firingsLeft_pos (room : Room) : 1 ≤ room.firingsLeft := by
  unfold Room.firingsLeft
  split_ifs <;> omega

theorem firingsLeft_closeRound (room : Room) :
    room.closeRound.firingsLeft = 2 * room.drawerQueue.length + 1 := rfl

theorem firingsLeft_openRound (env : Env) (room : Room) (drawer : Player) :
    (room.openRound env drawer).firingsLeft = 2 * (room.drawerQueue.length - 1) + 2 := by
  have hqueue : (room.openRound env drawer).drawerQueue = room.drawerQueue.tail := rfl
  rw [Room.firingsLeft, hqueue, List.length_tail]
  rfl

theorem closeRound_firingsLeft_le {room t : Room}
    (h : t.drawerQueue.length ≤ room.drawerQueue.length) :
    t.closeRound.firingsLeft ≤ room.firingsLeft := by
  rw [firingsLeft_closeRound]
  unfold Room.firingsLeft
  split_ifs <;> omega

theorem length_removePlayer_queue (room : Room) (id : Uuid) :
    (room.removePlayer id).drawerQueue.length ≤ room.drawerQueue.length :=
  List.length_filter_le _ _

def RoomInput.isJoin : RoomInput → Bool
  | .join _ _ _ => true
  | _ => false

def RoomInput.isTimer : RoomInput → Bool
  | .timer _ => true
  | _ => false

/-- Every firing of the timer brings the end of the game nearer. -/
theorem TimerMove.firingsLeft {env : Env} {room t : Room} {id : ℕ} {os : List Effect}
    (h : TimerMove env room id t os) (ht : t.phase = .playing) :
    t.firingsLeft + 1 ≤ room.firingsLeft := by
  cases h with
  | timeUp hr _ =>
    rw [firingsLeft_closeRound, Room.firingsLeft, hr.drawerId]
    rfl
  | nextRound hi _ hq _ =>
    have hpos : 0 < room.drawerQueue.length := by
      cases hqueue : room.drawerQueue with
      | nil => rw [hqueue] at hq; cases hq
      | cons a rest => exact Nat.succ_pos _
    have hsame : (room.timerFired id).drawerQueue = room.drawerQueue := rfl
    rw [firingsLeft_openRound, hsame, Room.firingsLeft, if_pos hi.drawerId]
    omega
  | gameOver _ _ _ _ => cases ht

/-- Guesses, departures and refused starts do not put it off. -/
theorem GameStep.firingsLeft {env : Env} {room t : Room} {input : RoomInput} {ms : List GameMark}
    (hs : GameStep env room input t ms) (hjoin : input.isJoin = false)
    (hp : room.phase = .playing) (ht : t.phase = .playing) :
    t.firingsLeft ≤ room.firingsLeft := by
  cases hs with
  | quiet _ _ => exact le_rfl
  | join _ => cases hjoin
  | start hidle _ _ _ => exact absurd hp hidle
  | guess _ _ _ _ _ => exact le_rfl
  | lastGuess _ _ _ _ _ => exact closeRound_firingsLeft_le le_rfl
  | timeUp _ => exact closeRound_firingsLeft_le le_rfl
  | @nextRound id drawer hi hq _ =>
    have hsame : (room.timerFired id).drawerQueue = room.drawerQueue := rfl
    rw [firingsLeft_openRound, hsame, Room.firingsLeft, if_pos hi.drawerId]
    cases hqueue : room.drawerQueue with
    | nil => rw [hqueue] at hq; cases hq
    | cons a rest => simp only [List.length_cons]; omega
  | gameOver _ _ _ => cases ht
  | leave _ =>
    have hlen := length_removePlayer_queue room
    unfold Room.firingsLeft
    exact Nat.add_le_add_right (Nat.mul_le_mul_left 2 (hlen _)) _
  | leaveGame _ _ _ => cases ht
  | leaveRound _ _ => exact closeRound_firingsLeft_le (length_removePlayer_queue room _)
  | leaveSolved _ _ _ => exact closeRound_firingsLeft_le (length_removePlayer_queue room _)

/-! ### Runs without joins -/

section
variable [Runtime] {id : RoomId} {capacity : ℕ}

def firings (is : List (Env × RoomInput)) : ℕ := is.countP fun i => i.2.isTimer

theorem step_firingsLeft {s t : RoomState} {i : Env × RoomInput} {os : List Effect} (h : s.Inv)
    (hs : (roomSystem id capacity).step s i t os) (hjoin : i.2.isJoin = false)
    (hp : s.room.phase = .playing) (ht : t.room.phase = .playing) :
    t.room.firingsLeft + firings [i] ≤ s.room.firingsLeft := by
  obtain ⟨env, input⟩ := i
  cases input with
  | timer k =>
    have hfire : fireTimer env s.room k = some (t.room, os) := (roomSystem_step hs).2.1
    exact (fireTimer_move h.coherent hfire).firingsLeft ht
  | _ => exact (step_marks h hs).2.1.firingsLeft hjoin hp ht

theorem gameId_issued {s : RoomState} {g : Uuid}
    (hr : Machine.Reachable (roomSystem id capacity) s) (hg : s.room.gameId = some g) :
    g ∈ s.issued := by
  obtain ⟨is, os, hr⟩ := hr
  obtain ⟨log, hlog⟩ := hr.observed ⟨[], 0, []⟩ recordGames
  have hm := result_inv ⟨is, os, hlog⟩
  apply hm.issued
  rw [hm.games, hg]
  exact List.mem_append_right _ (List.mem_singleton_self g)

/-- The room has left this game, whose result has been published. -/
structure GameOver (g : Uuid) (s : RoomState) (os : List Effect) : Prop where
  left : s.room.gameId ≠ some g
  published : ∃ event ∈ publishedEvents os, event.gameId = g

theorem GameOver.step {s t : RoomState} {i : Env × RoomInput} {os ps : List Effect} {g : Uuid}
    (h : GameOver g s os) (hi : s.Inv) (hg : g ∈ s.issued)
    (hs : (roomSystem id capacity).step s i t ps) : GameOver g t (os ++ ps) where
  left := by
    obtain ⟨hu, -, hstep⟩ := result_step hi hs
    generalize marks ps = ms at hstep
    cases hstep with
    | start _ _ _ _ hnew =>
      rw [hnew]
      intro hsame
      exact hu (Option.some.inj hsame ▸ hg)
    | nextRound _ _ _ _ hsame =>
      rw [hsame]
      exact h.left
    | finish _ _ _ _ hnone _ _ _ =>
      rw [hnone]
      exact (Option.some_ne_none g).symm
    | other _ _ hsame _ =>
      rw [hsame]
      exact h.left
  published := by
    obtain ⟨event, hmem, hid⟩ := h.published
    rw [publishedEvents_append]
    exact ⟨event, List.mem_append_left _ hmem, hid⟩

/-- A step of a game leads on in the game or ends it. -/
theorem game_goes_on_or_over {s t : RoomState} {i : Env × RoomInput} {ps : List Effect}
    {g : Uuid} (os : List Effect) (hi : s.Inv) (hp : s.room.phase = .playing)
    (hg : s.room.gameId = some g) (hs : (roomSystem id capacity).step s i t ps) :
    (t.room.phase = .playing ∧ t.room.gameId = some g) ∨ GameOver g t (os ++ ps) := by
  obtain ⟨-, -, hstep⟩ := result_step hi hs
  have hevents := publishedEvents_eq ps
  generalize marks ps = ms at hstep hevents
  cases hstep with
  | start _ hidle _ _ _ => exact absurd hp hidle
  | nextRound _ _ hplaying _ hsame => exact Or.inl ⟨hplaying, hsame.trans hg⟩
  | finish event _ _ hevent hnone _ _ _ =>
    refine Or.inr ⟨?_, event, ?_, ?_⟩
    · rw [hnone]
      exact (Option.some_ne_none g).symm
    · rw [publishedEvents_append, hevents]
      exact List.mem_append_right _ (List.mem_singleton_self event)
    · exact (Option.some.inj (hg.symm.trans hevent)).symm
  | other hphase _ hsame _ => exact Or.inl ⟨hphase.trans hp, hsame.trans hg⟩

theorem game_countdown {s0 s : RoomState} {g : Uuid} {is : List (Env × RoomInput)}
    {os : List Effect} (h0 : Machine.Reachable (roomSystem id capacity) s0)
    (hp : s0.room.phase = .playing) (hg : s0.room.gameId = some g)
    (hr : Machine.Run ((roomSystem id capacity).since s0) is s os)
    (hjoins : ∀ i ∈ is, i.2.isJoin = false) :
    g ∈ s.issued ∧ ((s.room.phase = .playing ∧ s.room.gameId = some g ∧
      s.room.firingsLeft + firings is ≤ s0.room.firingsLeft) ∨ GameOver g s os) := by
  induction hr with
  | nil h =>
    obtain rfl := h
    exact ⟨gameId_issued h0 hg, Or.inl ⟨hp, hg, le_rfl⟩⟩
  | @snoc is s t os ps i hrun hstep ih =>
    have hinv := reachable_inv (h0.of_since ⟨is, os, hrun⟩)
    have hstep : (roomSystem id capacity).step s i t ps := hstep
    obtain ⟨hissued, hgame⟩ := ih fun j hj => hjoins j (List.mem_append_left _ hj)
    have hjoin := hjoins i (List.mem_append_right _ (List.mem_singleton_self i))
    have ht := (result_step hinv hstep).2.1
    refine ⟨ht ▸ List.mem_cons_of_mem _ hissued, ?_⟩
    rcases hgame with ⟨hplaying, hsame, hleft⟩ | hover
    · rcases game_goes_on_or_over os hinv hplaying hsame hstep with ⟨hp', hg'⟩ | hover
      · have hstep' := step_firingsLeft hinv hstep hjoin hplaying hp'
        have hsum : firings (is ++ [i]) = firings is + firings [i] := List.countP_append
        exact Or.inl ⟨hp', hg', by omega⟩
      · exact Or.inr hover
    · exact Or.inr (hover.step hinv hissued hstep)

/-- A game that nobody joins is over, with its result published, before its timer has fired more
than `2 * drawerQueue.length + 2` times; and until then its timer can fire. -/
theorem game_over_in_time {s0 s : RoomState} {g : Uuid} {is : List (Env × RoomInput)}
    {os : List Effect} (h0 : Machine.Reachable (roomSystem id capacity) s0)
    (hp : s0.room.phase = .playing) (hg : s0.room.gameId = some g)
    (hr : Machine.Run ((roomSystem id capacity).since s0) is s os)
    (hjoins : ∀ i ∈ is, i.2.isJoin = false) :
    (2 * s0.room.drawerQueue.length + 2 ≤ firings is → GameOver g s os) ∧
    (GameOver g s os ∨ ∃ k, s.room.roundTimer = some k ∧ ∀ env : Env, env.uuid ∉ s.issued →
      ∃ t ps, (roomSystem id capacity).step s (env, .timer k) t ps) := by
  obtain ⟨-, hgame⟩ := game_countdown h0 hp hg hr hjoins
  constructor
  · intro hfirings
    rcases hgame with ⟨-, -, hleft⟩ | hover
    · have hpos := firingsLeft_pos s.room
      have hbound := firingsLeft_le s0.room
      omega
    · exact hover
  · rcases hgame with ⟨hplaying, -, -⟩ | hover
    · exact Or.inr (timer_can_fire (h0.of_since ⟨is, os, hr⟩) hplaying)
    · exact Or.inl hover

end

/-- A room in which two players have started a game, and each of the four firings left. -/
def twoStarted : RoomState :=
  ((Machine.exec (@stepRoomState plainRuntime) ⟨newRoom (utf16 "AB3DE") DEFAULT_ROOM_CAPACITY, []⟩
    (numbered [.join 0 none (utf16 "a"), .join 1 none (utf16 "b"), .startGame])).get
      (by decide +kernel)).1

def fourFirings : List (Env × RoomInput) :=
  (numbered [.startGame, .startGame, .startGame, .timer 0, .startGame, .timer 1, .timer 2,
    .timer 3]).drop 3

theorem fourFirings_over :
    GameOver ⟨2⟩ ((Machine.exec (@stepRoomState plainRuntime) twoStarted fourFirings).get
        (by decide +kernel)).1
      ((Machine.exec (@stepRoomState plainRuntime) twoStarted fourFirings).get
        (by decide +kernel)).2 :=
  (@game_over_in_time plainRuntime (utf16 "AB3DE") DEFAULT_ROOM_CAPACITY twoStarted _ ⟨2⟩
    fourFirings _ ⟨_, _, Machine.exec_get_run (by decide +kernel)⟩ (by decide +kernel)
    (by decide +kernel) (Machine.exec_get_run (by decide +kernel)) (by decide +kernel)).1
    (by decide +kernel)

end GachaMind.GameSession
