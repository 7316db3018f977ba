import GachaMind.GameSession.RoomInvariant

/-!
# How many rounds a game plays

`totalRounds` is fixed at the start of a game, the rounds played are decided by the
queue of drawers. The two agree while the rounds played and the drawers still queued
add up to at most `totalRounds`; only a join of a running game adds to this sum.
-/

namespace GachaMind.GameSession
open GachaMind.Js GachaMind.Shared KeyedTable

/-- The rounds played and the drawers still waiting fit in the rounds announced. -/
def Room.WithinRounds (room : Room) : Prop :=
  room.phase = .playing →
    room.round + room.drawerQueue.length ≤ room.totalRounds ∧ room.totalRounds ≤ MAX_ROUNDS

/-- A join of a running game finds a round left that no queued drawer will take. -/
def LateJoinFits (room : Room) : RoomInput → Prop
  | .join _ _ _ => room.isFull = false → room.phase = .playing →
      room.round + room.drawerQueue.length < room.totalRounds
  | _ => True

instance (room : Room) : ∀ input, Decidable (LateJoinFits room input)
  | .join _ _ _ => inferInstanceAs (Decidable (_ → _))
  | .leave _ | .chat _ _ | .draw _ _ | .drawClear _ | .startGame | .timer _ =>
    inferInstanceAs (Decidable True)

theorem Room.WithinRounds.openRound {env : Env} {room : Room} {drawer : Player}
    (h : room.WithinRounds) (hq : room.drawerQueue.head? = some drawer.id) :
    (room.openRound env drawer).WithinRounds := by
  intro hp
  have hsum := h hp
  have hcons := congrArg List.length (List.eq_cons_of_mem_head? hq)
  rw [List.length_cons] at hcons
  show room.round + 1 + room.drawerQueue.tail.length ≤ _ ∧ _
  refine ⟨?_, hsum.2⟩
  calc room.round + 1 + room.drawerQueue.tail.length
      = room.round + room.drawerQueue.length := by omega
    _ ≤ room.totalRounds := hsum.1

theorem Room.beginGame_withinRounds (env : Env) (room : Room) :
    (room.beginGame env).WithinRounds := by
  intro _
  rw [Room.beginGame_queue_length]
  exact ⟨(Nat.zero_add _).le, min_le_right _ _⟩

theorem Room.WithinRounds.removePlayer {room : Room} (h : room.WithinRounds) (id : Uuid) :
    (room.removePlayer id).WithinRounds := by
  intro hp
  have hsum := h hp
  have hlen : (room.drawerQueue.filter (· ≠ id)).length ≤ room.drawerQueue.length :=
    List.length_filter_le _ _
  exact ⟨(Nat.add_le_add_left hlen _).trans hsum.1, hsum.2⟩

theorem Room.finishGame_withinRounds (room : Room) : room.finishGame.WithinRounds :=
  fun hp => absurd hp (by simp [Room.finishGame])

theorem gameStep_withinRounds {env : Env} {room t : Room} {input : RoomInput}
    {ms : List GameMark} (h : room.WithinRounds) (hf : LateJoinFits room input)
    (hs : GameStep env room input t ms) : t.WithinRounds := by
  cases hs with
  | quiet strokes _ => exact h
  | join hfull =>
    rw [Room.seatPlayer_eq]
    intro hp
    have hroom := hf hfull hp
    have hsum := h hp
    simp only [show room.phase = .playing from hp, if_true, List.length_append,
      List.length_singleton]
    exact ⟨by omega, hsum.2⟩
  | start _ _ hq _ => exact (Room.beginGame_withinRounds env room).openRound hq
  | guess _ _ _ _ _ => exact h
  | lastGuess _ _ _ _ _ => exact h
  | timeUp _ => exact h
  | @nextRound id _ _ hq _ =>
    have hfired : (room.timerFired id).WithinRounds := h
    exact hfired.openRound hq
  | gameOver _ _ _ => exact Room.finishGame_withinRounds _
  | leave _ => exact h.removePlayer _
  | leaveGame _ _ _ => exact Room.finishGame_withinRounds _
  | leaveRound _ _ => exact h.removePlayer _
  | leaveSolved _ _ _ => exact h.removePlayer _

theorem gameStep_published {env : Env} {room t : Room} {input : RoomInput} {ms : List GameMark}
    (hs : GameStep env room input t ms) {event : GameFinishedEvent}
    (he : .published event ∈ ms) : room.phase = .playing ∧ event.roundsPlayed = room.round := by
  cases hs <;> simp only [List.mem_cons, reduceCtorEq, List.not_mem_nil, or_false, false_or,
    GameMark.published.injEq] at he
  case gameOver hi _ _ =>
    subst he
    exact ⟨hi.phase, rfl⟩
  case leaveGame hp _ _ =>
    subst he
    exact ⟨hp.phase, rfl⟩

section
variable [Runtime] {id : RoomId} {capacity : ℕ}

abbrev LateJoinsFit (s : RoomState) (i : Env × RoomInput) : Prop := LateJoinFits s.room i.2

theorem reachable_withinRounds {s : RoomState}
    (hr : Machine.Reachable ((roomSystem id capacity).restrict LateJoinsFit) s) :
    s.room.WithinRounds := by
  refine hr.invariant_of (J := RoomState.Inv) (I := fun s => s.room.WithinRounds)
    (fun _ hr => reachable_inv hr.of_restrict) ?_ ?_
  · intro s h
    obtain rfl := h
    simp [Room.WithinRounds, newRoom]
  · intro s i t os hi hw h
    obtain ⟨hf, hs⟩ := h
    exact gameStep_withinRounds hw hf (step_marks hi hs).2.1

/-- As long as no player joins a running game whose rounds are all taken, no game plays
more rounds than it announced, nor more than `MAX_ROUNDS`. -/
theorem rounds_bounded (id : RoomId) (capacity : ℕ) (is : List (Env × RoomInput)) (s : RoomState)
    (os : List Effect)
    (hr : Machine.Run ((roomSystem id capacity).restrict LateJoinsFit) is s os) :
    (s.room.phase = .playing →
      s.room.round ≤ s.room.totalRounds ∧ s.room.totalRounds ≤ MAX_ROUNDS) ∧
    ∀ event ∈ publishedEvents os, event.roundsPlayed ≤ MAX_ROUNDS := by
  constructor
  · intro hp
    obtain ⟨hsum, hmax⟩ := reachable_withinRounds ⟨is, os, hr⟩ hp
    exact ⟨(Nat.le_add_right _ _).trans hsum, hmax⟩
  · intro event he
    rw [mem_publishedEvents] at he
    refine hr.outputs (P := fun o => ∀ event, o = .publishGameEvent event →
      event.roundsPlayed ≤ MAX_ROUNDS) ?_ _ he event rfl
    intro s i t ps hreach h o ho event hevent
    subst hevent
    have hg := (step_marks (reachable_inv hreach.of_restrict) h.2).2.1
    obtain ⟨hp, hrounds⟩ := gameStep_published hg (published_mem_marks.mpr ho)
    obtain ⟨hsum, hmax⟩ := reachable_withinRounds hreach hp
    rw [hrounds]
    exact (Nat.le_add_right _ _).trans (hsum.trans hmax)

end

/-- A game of three players: the third one leaves, a fourth one joins in the place left. -/
def lateJoinInPlace : List RoomInput :=
  [.join 0 none (utf16 "a"), .join 1 none (utf16 "b"), .join 2 none (utf16 "c"), .startGame,
   .leave ⟨0⟩, .join 3 none (utf16 "d"), .timer 0]

theorem lateJoinInPlace_bounded : ∃ s os,
    Machine.Run (plainSystem.restrict LateJoinsFit) (numbered lateJoinInPlace) s os ∧
      s.room.round ≤ s.room.totalRounds :=
  ⟨_, _, Machine.exec_restrict_run (by decide +kernel),
    ((@rounds_bounded plainRuntime _ _ _ _ _ (Machine.exec_restrict_run (by decide +kernel))).1
      (by decide +kernel)).1⟩

def eleventhJoins : List RoomInput :=
  (List.range 10).map (fun n => .join n none (utf16 "p")) ++ [.startGame, .join 10 none (utf16 "q")]

/-- The eleventh round is played, announced as round 11 of 10, and published. -/
theorem eleventh_round :
    (∃ s os, Machine.Run plainSystem (numbered (eleventhJoins ++ (List.range 20).map .timer)) s os ∧
      s.room.phase = .playing ∧ s.room.totalRounds = 10 ∧ s.room.round = 11) ∧
    ∃ s os, Machine.Run plainSystem (numbered (eleventhJoins ++ (List.range 22).map .timer)) s os ∧
      ∃ event ∈ publishedEvents os, MAX_ROUNDS < event.roundsPlayed :=
  ⟨⟨_, _, Machine.exec_get_run (by decide +kernel), by decide +kernel, by decide +kernel,
      by decide +kernel⟩,
    _, _, Machine.exec_get_run (by decide +kernel), by decide +kernel⟩

end GachaMind.GameSession
