import GachaMind.GameSession.RoomInvariant

/-!
# The results a room publishes

A recorder notes the id of each game started, the rounds since the last start and the
events published. The ids of the published events are those of the games started, in
order, without the game that is still running, if any.
-/

namespace GachaMind.GameSession
open GachaMind.Js GachaMind.Shared KeyedTable

/-! ### The recorder -/

structure GameLog where
  games : List Uuid
  rounds : ℕ
  events : List GameFinishedEvent

def logMark (after : Room) (log : GameLog) : GameMark → GameLog
  | .gameStarted _ => { log with games := log.games ++ after.gameId.toList, rounds := 0 }
  | .roundStarted _ => { log with rounds := log.rounds + 1 }
  | .published event => { log with events := log.events ++ [event] }
  | _ => log

def recordGames (log : GameLog) (_ : RoomState) (_ : Env × RoomInput) (t : RoomState)
    (os : List Effect) : GameLog :=
  (marks os).foldl (logMark t.room) log

/-! ### The players of an event -/

def resultSummary (p : GameResultPlayer) : PlayerSummary := ⟨p.playerId, p.nickname, p.score⟩

theorem map_rankFrom {β : Type} {f : GameResultPlayer → β} {g : Player → β}
    (hfg : ∀ (p : Player) rank, f ⟨p.id, p.userId, p.nickname, p.score, rank⟩ = g p)
    (index rank : ℕ) (previousScore : Option ℤ) (players : List Player) :
    (rankFrom index rank previousScore players).map f = players.map g := by
  induction players generalizing index rank previousScore with
  | nil => rfl
  | cons p players ih => simp only [rankFrom, List.map_cons, ih, hfg]

theorem toResultPlayers_map {β : Type} {f : GameResultPlayer → β} {g : Player → β}
    (hfg : ∀ (p : Player) rank, f ⟨p.id, p.userId, p.nickname, p.score, rank⟩ = g p)
    (room : Room) : ((toResultPlayers room).map f).Perm (room.players.rows.map g) := by
  rw [toResultPlayers, map_rankFrom hfg]
  exact (List.perm_insertionSort _ _).map _

theorem toResultPlayers_perm (room : Room) :
    ((toResultPlayers room).map resultSummary).Perm room.summaries :=
  toResultPlayers_map (fun _ _ => rfl) room

/-- The event lists the players of the room, of whom there are some, with the scores of the
game-ended broadcast. -/
structure EventMatches (event : GameFinishedEvent) (after : Room) (os : List Effect) : Prop where
  announced : ∃ recipients, .broadcast (.gameEnded after.summaries) recipients ∈ os
  players : (event.players.map resultSummary).Perm after.summaries
  nonempty : event.players ≠ []

theorem gameEnded_mem_marks {os : List Effect} {players : List PlayerSummary} :
    GameMark.gameEnded players ∈ marks os ↔
      ∃ recipients, .broadcast (.gameEnded players) recipients ∈ os := by
  simp only [marks, List.mem_flatMap, Option.mem_toList]
  constructor
  · intro hs
    obtain ⟨e, he, hp⟩ := hs
    cases e with
    | broadcast m recipients =>
      cases m <;> simp [Effect.mark, messageMark] at hp
      subst hp
      exact ⟨recipients, he⟩
    | _ => simp [Effect.mark] at hp
  · intro hs
    obtain ⟨recipients, h⟩ := hs
    exact ⟨_, h, rfl⟩

def GameMark.event? : GameMark → Option GameFinishedEvent
  | .published event => some event
  | _ => none

theorem publishedEvents_eq (os : List Effect) :
    publishedEvents os = (marks os).filterMap GameMark.event? := by
  induction os with
  | nil => rfl
  | cons e os ih =>
    rw [marks_cons, List.filterMap_append, ← ih]
    cases e with
    | broadcast m recipients => cases m <;> rfl
    | _ => rfl

theorem toResultPlayers_ne_nil {room : Room} (h : 0 < room.size) : toResultPlayers room ≠ [] := by
  have hlen := (toResultPlayers_perm room).length_eq
  rw [List.length_map, Room.summaries, List.length_map] at hlen
  have hpos : 0 < (toResultPlayers room).length := hlen ▸ h
  exact List.ne_nil_of_length_pos hpos

/-! ### One step -/

/-- What a step does to the log: it starts a game, finishes one, or does neither. -/
inductive ResultStep (env : Env) (room t : Room) : List GameMark → Prop
  | start (total : ℕ) (hp : room.phase ≠ .playing) (ht : t.phase = .playing) (hr : t.round = 1)
      (hg : t.gameId = some env.uuid) :
      ResultStep env room t [.gameStarted total, .roundStarted 1]
  | nextRound (k : ℕ) (hp : room.phase = .playing) (ht : t.phase = .playing)
      (hr : t.round = room.round + 1) (hg : t.gameId = room.gameId) :
      ResultStep env room t [.roundStarted k]
  | finish (event : GameFinishedEvent) (hp : room.phase = .playing) (ht : t.phase = .ended)
      (hg : room.gameId = some event.gameId) (hg' : t.gameId = none)
      (hr : event.roundsPlayed = room.round) (he : event.players = toResultPlayers t)
      (hs : 0 < t.size) :
      ResultStep env room t [.gameEnded t.summaries, .published event]
  | other {ms : List GameMark} (hp : t.phase = room.phase) (hr : t.round = room.round)
      (hg : t.gameId = room.gameId)
      (hm : ∀ m ∈ ms, ∀ after log, logMark after log m = log) : ResultStep env room t ms

theorem gameStep_result {env : Env} {room t : Room} {input : RoomInput} {ms : List GameMark}
    (hs : GameStep env room input t ms) : ResultStep env room t ms := by
  cases hs with
  | quiet strokes _ => exact .other rfl rfl rfl (by simp)
  | join _ =>
    rw [Room.seatPlayer_eq]
    exact .other rfl rfl rfl (by simp)
  | start hp hsize _ _ => exact .start _ hp rfl rfl rfl
  | guess _ _ _ _ _ => exact .other rfl rfl rfl (by simp [logMark])
  | lastGuess _ _ _ _ _ => exact .other rfl rfl rfl (by simp [logMark])
  | timeUp _ => exact .other rfl rfl rfl (by simp [logMark])
  | nextRound hi _ _ => exact .nextRound _ hi.phase hi.phase rfl rfl
  | gameOver hi _ hg =>
    exact .finish _ hi.phase rfl hg rfl rfl rfl
      (Nat.pos_of_ne_zero (size_ne_zero_of_enough hi.enough))
  | leave _ => exact .other rfl rfl rfl (by simp)
  | @leaveGame id _ hp _ hg =>
    have hsize : MIN_PLAYERS_TO_START ≤ room.size := hp.enough
    have hdrop : room.size ≤ (room.removePlayer id).size + 1 := size_le_size_erase _ _
    have hmin : 1 < MIN_PLAYERS_TO_START := by decide
    exact .finish _ hp.phase rfl hg rfl rfl rfl (show 0 < (room.removePlayer id).size by omega)
  | leaveRound _ _ => exact .other rfl rfl rfl (by simp [logMark])
  | leaveSolved _ _ _ => exact .other rfl rfl rfl (by simp [logMark])

theorem filterMap_event_of_unlogged (room : Room) {ms : List GameMark}
    (h : ∀ m ∈ ms, ∀ after log, logMark after log m = log) : ms.filterMap GameMark.event? = [] := by
  rw [List.filterMap_eq_nil_iff]
  intro m hm
  cases m with
  | published event =>
    have hlog := h _ hm room ⟨[], 0, []⟩
    simp [logMark] at hlog
  | _ => rfl

theorem foldl_logMark_of_unlogged {ms : List GameMark} {after : Room} {log : GameLog}
    (h : ∀ m ∈ ms, ∀ after log, logMark after log m = log) :
    ms.foldl (logMark after) log = log := by
  induction ms with
  | nil => rfl
  | cons m ms ih =>
    rw [List.foldl_cons, h m List.mem_cons_self]
    exact ih fun m hm => h m (List.mem_cons_of_mem _ hm)

theorem events_foldl_logMark (after : Room) (ms : List GameMark) (log : GameLog) :
    (ms.foldl (logMark after) log).events = log.events ++ ms.filterMap GameMark.event? := by
  induction ms generalizing log with
  | nil => simp
  | cons m ms ih =>
    rw [List.foldl_cons, ih]
    cases m with
    | published event => simp [logMark, GameMark.event?]
    | _ => rfl

/-! ### Runs -/

structure GameLog.Matches (log : GameLog) (s : RoomState) : Prop where
  issued : ∀ g ∈ log.games, g ∈ s.issued
  nodup : log.games.Nodup
  games : log.games = log.events.map GameFinishedEvent.gameId ++ s.room.gameId.toList
  rounds : s.room.phase = .playing → log.rounds = s.room.round

theorem result_matches {env : Env} {s t : RoomState} {ms : List GameMark} {log : GameLog}
    (h : log.Matches s) (hi : s.Inv) (hu : env.uuid ∉ s.issued)
    (ht : t.issued = env.uuid :: s.issued) (hs : ResultStep env s.room t.room ms) :
    (ms.foldl (logMark t.room) log).Matches t := by
  have hissued : ∀ g ∈ log.games, g ∈ t.issued := fun g hg => by
    rw [ht]
    exact List.mem_cons_of_mem _ (h.issued g hg)
  cases hs with
  | start total hp hpt hr hg =>
    have hnone : s.room.gameId = none := hi.coherent.consistent.idle_clear hp |>.1
    have hgames : log.games = log.events.map GameFinishedEvent.gameId := by
      simpa [hnone] using h.games
    simp only [List.foldl_cons, List.foldl_nil, logMark, hg, Option.toList_some]
    refine ⟨?_, ?_, ?_, ?_⟩
    · intro g hm
      rcases List.mem_append.mp hm with hm | hm
      · exact hissued g hm
      · rw [ht, List.mem_singleton.mp hm]
        exact List.mem_cons_self
    · refine List.nodup_append.mpr ⟨h.nodup, List.nodup_singleton _, ?_⟩
      intro a ha b hb hx
      obtain rfl := hx
      rw [List.mem_singleton.mp hb] at ha
      exact hu (h.issued _ ha)
    · simp only [hg, Option.toList_some, hgames]
    · exact fun _ => hr.symm
  | nextRound k hp hpt hr hg =>
    refine ⟨hissued, h.nodup, ?_, ?_⟩
    · simpa [logMark, hg] using h.games
    · intro _
      simp [logMark, h.rounds hp, hr]
  | finish event hp hpt hg hg' hr he hsize =>
    refine ⟨hissued, h.nodup, ?_, ?_⟩
    · simpa [logMark, hg, hg'] using h.games
    · intro hc
      rw [hpt] at hc
      cases hc
  | other hp hr hg hm =>
    rw [foldl_logMark_of_unlogged hm]
    exact ⟨hissued, h.nodup, by rw [hg]; exact h.games, fun hc => by
      rw [h.rounds (hp ▸ hc), hr]⟩

section
variable [Runtime] {id : RoomId} {capacity : ℕ}

def resultSystem (id : RoomId) (capacity : ℕ) :
    Machine.System (RoomState × GameLog) (Env × RoomInput) Effect :=
  (roomSystem id capacity).observe ⟨[], 0, []⟩ recordGames

theorem result_step {s t : RoomState} {i : Env × RoomInput} {os : List Effect} (h : s.Inv)
    (hs : (roomSystem id capacity).step s i t os) :
    i.1.uuid ∉ s.issued ∧ t.issued = i.1.uuid :: s.issued ∧
      ResultStep i.1 s.room t.room (marks os) := by
  obtain ⟨hu, -, -⟩ := roomSystem_step hs
  obtain ⟨-, hg, ht⟩ := step_marks h hs
  exact ⟨hu, ht, gameStep_result hg⟩

theorem result_inv {s : RoomState × GameLog}
    (hr : Machine.Reachable (resultSystem id capacity) s) : s.2.Matches s.1 := by
  refine hr.recorded_free (I := fun s log => GameLog.Matches log s)
    (fun _ hr => reachable_inv hr) ?_ ?_
  · intro s h
    obtain rfl := h
    exact ⟨by simp, List.nodup_nil, rfl, fun hp => by simp [newRoom] at hp⟩
  · intro s log i t os hi hm hs
    obtain ⟨hu, ht, hstep⟩ := result_step hi hs
    exact result_matches hm hi hu ht hstep

/-- Every game publishes at most one event, in the step that ends it, and the event says what
the game was. -/
theorem game_results (id : RoomId) (capacity : ℕ) (s : RoomState × GameLog)
    (hr : Machine.Reachable (resultSystem id capacity) s) :
    s.2.games.Nodup ∧ s.2.events.map GameFinishedEvent.gameId <+: s.2.games ∧
    ∀ i t os, (resultSystem id capacity).step s i t os →
      (s.1.room.phase = .playing ∧ t.1.room.phase = .ended → ∃ event,
        publishedEvents os = [event] ∧ s.2.games.getLast? = some event.gameId ∧
        event.roundsPlayed = s.2.rounds ∧ EventMatches event t.1.room os) ∧
      (¬ (s.1.room.phase = .playing ∧ t.1.room.phase = .ended) → publishedEvents os = []) := by
  have hm := result_inv hr
  refine ⟨hm.nodup, ⟨_, hm.games.symm⟩, fun i t os hs => ?_⟩
  obtain ⟨-, -, hstep⟩ := result_step (reachable_inv hr.of_observe) hs.1
  rw [publishedEvents_eq]
  generalize hms : marks os = ms at hstep
  cases hstep with
  | start total hp ht _ _ => exact ⟨fun h => absurd h.1 hp, fun _ => rfl⟩
  | nextRound k hp ht _ _ =>
    refine ⟨fun h => ?_, fun _ => rfl⟩
    rw [ht] at h
    exact absurd h.2 (by simp)
  | finish event hp ht hg _ hrounds he hsize =>
    refine ⟨fun _ => ⟨event, rfl, ?_, ?_, ?_, ?_, ?_⟩, fun h => absurd ⟨hp, ht⟩ h⟩
    · rw [hm.games, hg]
      simp
    · rw [hm.rounds hp, hrounds]
    · exact gameEnded_mem_marks.mp (by rw [hms]; exact List.mem_cons_self)
    · rw [he]
      exact toResultPlayers_perm _
    · rw [he]
      exact toResultPlayers_ne_nil hsize
  | other hp _ _ hun =>
    refine ⟨fun h => ?_, fun _ => filterMap_event_of_unlogged t.1.room hun⟩
    rw [hp, h.1] at h
    exact absurd h.2 (by simp)

theorem recorded_events {is : List (Env × RoomInput)} {s : RoomState × GameLog} {os : List Effect}
    (hr : Machine.Run (resultSystem id capacity) is s os) : s.2.events = publishedEvents os := by
  induction hr with
  | nil h =>
    rw [h.2]
    rfl
  | snoc _ h ih =>
    rw [h.2, recordGames, events_foldl_logMark, ih, publishedEvents_append,
      ← publishedEvents_eq]

/-- No game of a run is published twice. -/
theorem published_once {is : List (Env × RoomInput)} {s : RoomState} {os : List Effect}
    (hr : Machine.Run (roomSystem id capacity) is s os) :
    ((publishedEvents os).map GameFinishedEvent.gameId).Nodup := by
  obtain ⟨log, hlog⟩ := hr.observed ⟨[], 0, []⟩ recordGames
  have hm := result_inv ⟨is, os, hlog⟩
  have hprefix : log.events.map GameFinishedEvent.gameId <+: log.games := ⟨_, hm.games.symm⟩
  rw [← recorded_events hlog]
  exact hm.nodup.sublist hprefix.sublist

end

def twoGames : List RoomInput :=
  [.join 0 none (utf16 "a"), .join 1 none (utf16 "b"), .startGame, .leave ⟨0⟩,
   .join 2 none (utf16 "c"), .startGame]

theorem twoGames_results : ∃ s os,
    Machine.Run (@resultSystem plainRuntime (utf16 "AB3DE") DEFAULT_ROOM_CAPACITY)
      (numbered twoGames) s os ∧
    s.2.games = [⟨2⟩, ⟨5⟩] ∧ s.2.events.length = 1 ∧
    s.2.events.map GameFinishedEvent.gameId <+: s.2.games :=
  ⟨_, _, Machine.exec_observe_run (by decide +kernel), by decide +kernel, by decide +kernel,
    (@game_results plainRuntime _ _ _
      ⟨_, _, Machine.exec_observe_run (by decide +kernel)⟩).2.1⟩

end GachaMind.GameSession
