import GachaMind.GameSession.ServerRooms

/-!
# The timer of a room

A room that plays waits for exactly one timer, the one in `roundTimer`; any other room, and a
room taken out of the `RoomManager`, waits for none. The round in which a timer was set is
recorded beside the room, so that a timer that outlives its round would show.
-/

namespace GachaMind.GameSession
open GachaMind.Js GachaMind.Shared KeyedTable

/-! ### What is pending -/

def Room.awaited (room : Room) : TimerCallback :=
  if room.drawerId = none then .intermission else .endRound

structure Room.Timed (room : Room) : Prop where
  playing : room.phase = .playing →
    ∃ id, room.roundTimer = some id ∧ room.timers.pending = [⟨id, room.awaited⟩]
  idle : room.phase ≠ .playing → room.timers.pending = []

theorem Room.Coherent.timed {room : Room} (h : room.Coherent) : room.Timed := by
  obtain ⟨-, hi | ⟨d, w, hr⟩ | hi⟩ := h
  · exact ⟨fun hp => absurd hp hi.phase, fun _ => hi.timers⟩
  · refine ⟨fun _ => ?_, fun hp => absurd hr.phase hp⟩
    rw [Room.awaited, hr.drawerId, if_neg (by simp)]
    exact hr.timer
  · refine ⟨fun _ => ?_, fun hp => absurd hi.phase hp⟩
    rw [Room.awaited, hi.drawerId, if_pos rfl]
    exact hi.timer

/-! ### Rooms taken out of the manager -/

theorem Room.Coherent.empty_idle {room : Room} (h : room.Coherent) (hs : room.size = 0) :
    room.phase ≠ .playing := by
  intro hp
  have henough := (h.consistent.playing_enough hp).1
  exact size_ne_zero_of_enough henough hs

theorem Room.Coherent.dropped {room : Room} (h : room.Coherent) (hs : room.size = 0) :
    room.timers.pending = [] ∧ room.clearRoundTimer.timers.pending = [] :=
  ⟨h.timed.idle (h.empty_idle hs), Room.clearRoundTimer_pending h.1⟩

/-- Only the departure of the last player makes the process forget a room. -/
theorem serverStep_removed [Runtime] {s t : Server} {env : Env} {input : ServerInput}
    {os : List Effect} (hs : ServerStep s env input t os) {room : Room}
    (hr : room ∈ s.rooms.rows) (hgone : room.id ∉ t.rooms.keys) :
    ∃ (c : Connection) (id : Uuid), input = .close c.socket ∧
      c.joinedRoomId = some room.id ∧ c.playerId = some id ∧
      (leaveRoom ((s.markClosed c.socket).see env) room id).1.size = 0 := by
  have hkey := key_mem_keys hr
  have hset : ∀ r : Room, room.id ∈ (s.setRoom r).rooms.keys :=
    fun r => mem_keys_set.mpr (.inr hkey)
  cases hs with
  | still _ => exact absurd hkey hgone
  | connect _ => exact absurd hkey hgone
  | leaveOpen _ => exact absurd hkey hgone
  | settle _ _ _ => exact absurd hkey hgone
  | startJoin _ _ _ => exact absurd hkey hgone
  | play _ _ _ => exact absurd (hset _) hgone
  | abandon _ => exact absurd hkey hgone
  | refuse _ _ => exact absurd hkey hgone
  | ask _ _ => exact absurd hkey hgone
  | seat _ _ _ _ _ _ => exact absurd (hset _) hgone
  | closeOut _ _ => exact absurd hkey hgone
  | closeMember _ _ _ _ _ _ _ => exact absurd (hset _) hgone
  | @closeLast c r _ playerId _ _ _ _ hc hp hroom hl hsize _ _ =>
    have hsame : r.id = room.id := by
      by_contra hne
      exact hgone (mem_keys_erase.mpr ⟨hkey, fun he => hne he.symm⟩)
    rw [hsame, get?_of_mem hr] at hroom
    obtain rfl := Option.some.inj hroom
    exact ⟨c, playerId, rfl, hc, hp, by rw [hl, hsize]⟩

/-! ### In which round a timer was set -/

/-- A round of a game. -/
structure GameRound where
  gameId : Option Uuid
  round : ℕ
  deriving DecidableEq

def Room.gameRound (room : Room) : GameRound := ⟨room.gameId, room.round⟩

/-- The round of each timer id. A step that sets a timer leaves the room in the round in which
it was set. -/
def recordOrigin (origin : ℕ → GameRound) (s : RoomState) (_ : Env × RoomInput) (t : RoomState)
    (_ : List Effect) : ℕ → GameRound :=
  fun id => if id < s.room.timers.next then origin id else t.room.gameRound

/-- Every pending timer was set in the round that is on. -/
def Room.Current (room : Room) (origin : ℕ → GameRound) : Prop :=
  ∀ x ∈ room.timers.pending, x.id < room.timers.next ∧ origin x.id = room.gameRound

/-- The pending timers are new since `room`. -/
def Room.Rearmed (room t : Room) : Prop :=
  ∀ x ∈ t.timers.pending, room.timers.next ≤ x.id ∧ x.id < t.timers.next

theorem setRoundTimer_rearmed {room : Room} (callback : TimerCallback)
    (h : room.timers.pending = []) : room.Rearmed (room.setRoundTimer callback) := by
  intro x hx
  simp only [Room.setRoundTimer, Timers.setTimeout, h, List.nil_append, List.mem_singleton] at hx
  subst hx
  exact ⟨le_rfl, Nat.lt_succ_self _⟩

theorem clearRoundTimer_next (room : Room) :
    room.clearRoundTimer.timers.next = room.timers.next := by
  unfold Room.clearRoundTimer
  cases room.roundTimer <;> rfl

theorem closeRound_rearmed {room : Room} (h : room.Base) : room.Rearmed room.closeRound := by
  have hset := setRoundTimer_rearmed .intermission (Room.clearRoundTimer_pending h)
  intro x hx
  rw [← clearRoundTimer_next room]
  exact hset x hx

theorem openRound_rearmed {room : Room} (env : Env) (drawer : Player) (h : room.Base) :
    room.Rearmed (room.openRound env drawer) := by
  have hset := setRoundTimer_rearmed .endRound (Room.clearRoundTimer_pending h)
  intro x hx
  rw [← clearRoundTimer_next room]
  exact hset x hx

theorem finishGame_rearmed {room : Room} (h : room.Base) : room.Rearmed room.finishGame := by
  intro x hx
  rw [(Room.finishGame_idle h).timers] at hx
  exact absurd hx List.not_mem_nil

theorem gameStep_timers {env : Env} {room t : Room} {input : RoomInput} {ms : List GameMark}
    (h : room.Coherent) (hs : GameStep env room input t ms) :
    (t.timers = room.timers ∧ t.gameRound = room.gameRound) ∨ room.Rearmed t := by
  cases hs with
  | quiet _ _ => exact .inl ⟨rfl, rfl⟩
  | join _ =>
    rw [Room.seatPlayer_eq]
    exact .inl ⟨rfl, rfl⟩
  | start _ _ _ _ => exact .inr (openRound_rearmed env _ (Room.beginGame_base env h.1))
  | guess _ _ _ _ _ => exact .inl ⟨rfl, rfl⟩
  | lastGuess _ hp _ _ _ =>
    exact .inr (closeRound_rearmed (Room.scoreGuess_base env _ h.1 (key_mem_keys hp)))
  | timeUp _ => exact .inr (closeRound_rearmed (Room.timerFired_base _ h.1))
  | @nextRound id _ _ _ _ => exact .inr (openRound_rearmed env _ (Room.timerFired_base id h.1))
  | gameOver _ _ _ => exact .inr (finishGame_rearmed (Room.timerFired_base _ h.1))
  | leave _ => exact .inl ⟨rfl, rfl⟩
  | leaveGame _ _ _ => exact .inr (finishGame_rearmed (Room.removePlayer_base _ h.1))
  | leaveRound _ _ => exact .inr (closeRound_rearmed (Room.removePlayer_base _ h.1))
  | leaveSolved _ _ _ => exact .inr (closeRound_rearmed (Room.removePlayer_base _ h.1))

theorem Room.Current.step {env : Env} {s t : RoomState} {i : Env × RoomInput}
    {os : List Effect} {ms : List GameMark} {origin : ℕ → GameRound} (h : s.room.Current origin)
    (hc : s.room.Coherent) (hs : GameStep env s.room i.2 t.room ms) :
    t.room.Current (recordOrigin origin s i t os) := by
  intro x hx
  rcases gameStep_timers hc hs with ⟨htimers, hround⟩ | hnew
  · rw [htimers] at hx ⊢
    obtain ⟨hlt, ho⟩ := h x hx
    rw [recordOrigin, if_pos hlt, hround]
    exact ⟨hlt, ho⟩
  · obtain ⟨hle, hlt⟩ := hnew x hx
    rw [recordOrigin, if_neg (not_lt.mpr hle)]
    exact ⟨hlt, rfl⟩

section
variable [Runtime]

/-- The rounds of all timers, beside the room. -/
abbrev originSystem (id : RoomId) (capacity : ℕ) :
    Machine.System (RoomState × (ℕ → GameRound)) (Env × RoomInput) Effect :=
  (roomSystem id capacity).observe (fun _ => ⟨none, 0⟩) recordOrigin

theorem reachable_current {id : RoomId} {capacity : ℕ} {s : RoomState × (ℕ → GameRound)}
    (hr : Machine.Reachable (originSystem id capacity) s) : s.1.room.Current s.2 := by
  refine hr.recorded_free (I := fun s origin => s.room.Current origin)
    (fun _ hr => reachable_inv hr) ?_ ?_
  · intro s h
    obtain rfl := h
    exact fun x hx => absurd hx List.not_mem_nil
  · intro s origin i t os hi hcur hs
    exact hcur.step hi.coherent (step_marks hi hs).2.1

/-- A timer fires only in the round in which it was set, and it is the one the room awaits. -/
theorem fired_in_its_round {id : RoomId} {capacity : ℕ} {s : RoomState × (ℕ → GameRound)}
    (hr : Machine.Reachable (originSystem id capacity) s) {env : Env} {k : ℕ} {t : RoomState}
    {os : List Effect} (hs : (roomSystem id capacity).step s.1 (env, .timer k) t os) :
    s.2 k = s.1.room.gameRound ∧ s.1.room.phase = .playing ∧ s.1.room.roundTimer = some k ∧
      s.1.room.timers.pending = [⟨k, s.1.room.awaited⟩] := by
  have hc := (reachable_inv hr.of_observe).coherent
  obtain ⟨x, hx, -⟩ := Option.map_eq_some_iff.mp (roomSystem_step hs).2.1
  have hmem := List.mem_of_find?_eq_some hx
  have hk : x.id = k := by simpa using List.find?_some hx
  subst hk
  have hp : s.1.room.phase = .playing := by
    by_contra hne
    rw [hc.timed.idle hne] at hmem
    exact absurd hmem List.not_mem_nil
  obtain ⟨n, htimer, hpend⟩ := hc.timed.playing hp
  have horigin := (reachable_current hr x hmem).2
  rw [hpend, List.mem_singleton] at hmem
  rw [hmem] at horigin ⊢
  exact ⟨horigin, hp, htimer, hpend⟩

/-- The timer that a playing room awaits can always fire. -/
theorem timer_can_fire {id : RoomId} {capacity : ℕ} {s : RoomState}
    (hr : Machine.Reachable (roomSystem id capacity) s) (hp : s.room.phase = .playing) :
    ∃ k, s.room.roundTimer = some k ∧ ∀ env : Env, env.uuid ∉ s.issued →
      ∃ t os, (roomSystem id capacity).step s (env, .timer k) t os := by
  obtain ⟨k, htimer, hpend⟩ := (reachable_inv hr).coherent.timed.playing hp
  refine ⟨k, htimer, fun env hu => ?_⟩
  have hfire : ∃ r, roomStep env s.room (.timer k) = some r := by
    simp [roomStep, fireTimer, hpend]
  obtain ⟨r, hfire⟩ := hfire
  refine ⟨⟨r.1, env.uuid :: s.issued⟩, r.2, ?_⟩
  simp only [roomSystem, Machine.ofFunction, stepRoomState, if_neg hu, hfire, Option.map_some]

theorem removed_room_untimed {self : ShardIdentity} {s t : Server} {i : Env × ServerInput}
    {os : List Effect} (hr : Machine.Reachable (serverSystem self) s)
    (hs : (serverSystem self).step s i t os) {room : Room} (hroom : room ∈ s.rooms.rows)
    (hgone : room.id ∉ t.rooms.keys) :
    ∃ (c : Connection) (id : Uuid) (left : Room), i.2 = .close c.socket ∧
      c.joinedRoomId = some room.id ∧ c.playerId = some id ∧
      left = (leaveRoom ((s.markClosed c.socket).see i.1) room id).1 ∧ left.size = 0 ∧
      left.timers.pending = [] ∧ left.clearRoundTimer.timers.pending = [] := by
  obtain ⟨hu, u, hstep, rfl⟩ := server_step hs
  obtain ⟨c, id, hinput, hc, hid, hsize⟩ := serverStep_removed hstep hroom hgone
  have hrun := server_room_reachable hr room hroom
  have hleave : roomStep ((s.markClosed c.socket).see i.1) room (.leave id) =
      some (leaveRoom ((s.markClosed c.socket).see i.1) room id) := rfl
  have hleft := hrun.step ((s.markClosed c.socket).see i.1) hu hleave
  obtain ⟨hpend, hclear⟩ := hleft.coherent.dropped hsize
  exact ⟨c, id, _, hinput, hc, hid, rfl, hsize, hpend, hclear⟩

/-- In every run a playing room awaits exactly one timer, the right one of the round that is
on; other rooms, and rooms that the process forgets, await none; and no timer fires in a
round other than its own. -/
theorem one_timer (self : ShardIdentity) :
    (∀ s, Machine.Reachable (serverSystem self) s → ∀ room ∈ s.rooms.rows, room.Timed) ∧
    (∀ s i t os, Machine.Reachable (serverSystem self) s → (serverSystem self).step s i t os →
      ∀ room ∈ s.rooms.rows, room.id ∉ t.rooms.keys →
        ∃ (c : Connection) (id : Uuid) (left : Room), i.2 = .close c.socket ∧
          c.joinedRoomId = some room.id ∧ c.playerId = some id ∧
          left = (leaveRoom ((s.markClosed c.socket).see i.1) room id).1 ∧ left.size = 0 ∧
          left.timers.pending = [] ∧ left.clearRoundTimer.timers.pending = []) ∧
    ∀ id capacity s, Machine.Reachable (originSystem id capacity) s →
      s.1.room.Timed ∧
      (s.1.room.phase = .playing → ∃ k, s.1.room.roundTimer = some k ∧
        s.2 k = s.1.room.gameRound ∧ ∀ env : Env, env.uuid ∉ s.1.issued →
          ∃ t os, (roomSystem id capacity).step s.1 (env, .timer k) t os) ∧
      ∀ env k t os, (roomSystem id capacity).step s.1 (env, .timer k) t os →
        s.2 k = s.1.room.gameRound ∧ s.1.room.phase = .playing ∧ s.1.room.roundTimer = some k ∧
          s.1.room.timers.pending = [⟨k, s.1.room.awaited⟩] := by
  refine ⟨fun s hr room hroom => (server_room_coherent hr room hroom).timed,
    fun s i t os hr hs room hroom hgone => removed_room_untimed hr hs hroom hgone,
    fun id capacity s hr => ?_⟩
  have htimed := (reachable_inv hr.of_observe).coherent.timed
  refine ⟨htimed, fun hp => ?_, fun env k t os hs => fired_in_its_round hr hs⟩
  obtain ⟨k, htimer, hfire⟩ := timer_can_fire hr.of_observe hp
  obtain ⟨n, hn, hpend⟩ := htimed.playing hp
  obtain rfl : n = k := Option.some.inj (hn.symm.trans htimer)
  have hcur := reachable_current hr ⟨n, s.1.room.awaited⟩
    (by rw [hpend]; exact List.mem_singleton_self _)
  exact ⟨n, htimer, hcur.2, hfire⟩

end

/-- The drawer leaves, which cancels the timer of the round, and the intermission ends. -/
def drawerLeaves : List RoomInput :=
  [.join 0 none (utf16 "a"), .join 1 none (utf16 "b"), .join 2 none (utf16 "c"), .startGame,
   .leave ⟨1⟩, .timer 1]

theorem drawerLeaves_timer : ∃ s os,
    Machine.Run (@originSystem plainRuntime (utf16 "AB3DE") DEFAULT_ROOM_CAPACITY)
      (numbered drawerLeaves) s os ∧
    s.1.room.gameRound = ⟨some ⟨3⟩, 2⟩ ∧ s.1.room.timers.pending = [⟨2, .endRound⟩] ∧
      s.1.room.Timed :=
  ⟨_, _, Machine.exec_observe_run (by decide +kernel), by decide +kernel, by decide +kernel,
    ((@one_timer plainRuntime ⟨utf16 "4001", utf16 "localhost", 4001⟩).2.2 _ _ _
      ⟨_, _, Machine.exec_observe_run (by decide +kernel)⟩).1⟩

end GachaMind.GameSession
