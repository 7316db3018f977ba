import GachaMind.Web.Clients

/-!
# The scoreboard

Every message that follows a change of the players or of their scores carries the change, but
for one: `game-started` does not say that the scores begin again at zero.
-/

namespace GachaMind.Web
open GachaMind.Js GachaMind.Shared GachaMind.GameSession KeyedTable Replica

/-- A game that starts finds nobody with points left from an earlier one. -/
def FreshStart (room : Room) : RoomInput → Prop
  | .startGame => room.phase ≠ .playing → MIN_PLAYERS_TO_START ≤ room.size →
      ∀ p ∈ room.players.rows, p.score = 0
  | _ => True

instance (room : Room) : ∀ input, Decidable (FreshStart room input)
  | .startGame => inferInstanceAs (Decidable (_ → _))
  | .join _ _ _ | .leave _ | .chat _ _ | .draw _ _ | .drawClear _ | .timer _ =>
    inferInstanceAs (Decidable True)

theorem summaries_addStroke (room : Room) (stroke : StrokeSegment) :
    (room.addStroke stroke).summaries = room.summaries := by
  rw [Room.addStroke_eq]
  rfl

theorem summaries_seatPlayer {room : Room} {player : Player}
    (hf : player.id ∉ room.players.keys) : (seatPlayer room player).summaries =
      room.summaries ++ [⟨player.id, player.nickname, player.score⟩] := by
  rw [Room.seatPlayer_eq]
  simp [Room.summaries, rows_set_of_new hf]

theorem summaries_removePlayer (room : Room) (left : Uuid) :
    (room.removePlayer left).summaries = room.summaries.filter fun p => p.id ≠ left := by
  simp [Room.summaries, Room.removePlayer, List.filter_map, Function.comp_def]

theorem summaries_beginGame {env : Env} {room : Room} (h : ∀ p ∈ room.players.rows, p.score = 0) :
    (room.beginGame env).summaries = room.summaries := by
  simp only [Room.summaries, Room.beginGame, Room.resetScores, rows_mapRows, List.map_map]
  refine List.map_congr_left fun p hp => ?_
  simp [h p hp]

theorem summaries_ids (room : Room) : room.summaries.map PlayerSummary.id = room.players.keys := by
  simp [Room.summaries, Table.keys]

theorem players_heard {env : Env} {room t : Room} {id : Uuid} {input : RoomInput}
    {ms : List ServerToClientMessage} {ks : List GameMark} (hs : Heard env room id input t ms ks)
    (hf : FreshStart room input) : ms.foldl playersAfter room.summaries = t.summaries := by
  cases hs with
  | aside h => exact foldl_aside playersAfter_aside h _
  | draw stroke _ =>
    rw [summaries_addStroke]
    split_ifs <;> rfl
  | drawClear _ => split_ifs <;> rfl
  | @join _ _ _ player _ _ hnew h0 h =>
    rw [List.foldl_cons, foldl_aside playersAfter_aside h, summaries_seatPlayer hnew, h0]
    have hany : (room.summaries.any fun p => decide (p.id = player.id)) = false := by
      rw [List.any_eq_false]
      intro p hp hid
      rw [decide_eq_true_eq] at hid
      exact hnew (by rw [← summaries_ids, ← hid]; exact List.mem_map_of_mem hp)
    simp [playersAfter, hany]
  | start hp hs =>
    show room.summaries = (room.beginGame env).summaries
    rw [summaries_beginGame (hf hp hs)]
  | answer _ _ => rfl
  | lastAnswer _ _ => rfl
  | close _ => rfl
  | next _ => rfl
  | finish _ => rfl
  | leave h =>
    rw [List.foldl_cons, foldl_aside playersAfter_aside h, summaries_removePlayer]
    rfl
  | leaveGame _ h =>
    rw [List.foldl_append]
    rfl
  | leaveRound _ h =>
    rw [List.foldl_append]
    rfl

section
variable [Runtime]

abbrev FreshStarts (s : Clients) (i : Env × RoomInput) : Prop := FreshStart s.1.room i.2

/-- As long as every game starts with scores of zero, the page of every connected player lists
the players of the room, in order and with their scores. -/
theorem scoreboard_shown (id : RoomId) (capacity : ℕ) (s : Clients)
    (hr : Machine.Reachable ((clientSystem id capacity).restrict FreshStarts) s) (p : Uuid)
    (ms : List ServerToClientMessage) (hp : s.2 p = some ms) (clock : ℕ → ℤ) (page : RoomSocket) :
    (pageAfter clock page ms).players = s.1.room.summaries := by
  refine clients_rule (R := fun s _ _ page => page.players = s.room.summaries)
    (fun _ hr => reachable_inv hr) ?_ ?_ hr hp clock page
  · intro env s t player ms clock page _ _ _ _ _ hms
    rw [players_pageAfter, List.foldl_cons, foldl_aside playersAfter_aside hms]
    rfl
  · intro env input s inbox t p ns ms ks clock page _ _ _ hf hs hrel
    rw [players_pageAfter, hrel]
    exact players_heard hs hf

end

def oneGame : List RoomInput :=
  [.join 0 none (utf16 "a"), .join 1 none (utf16 "b"), .startGame,
   .chat ⟨0⟩ (some (.str (utf16 "사과"))), .leave ⟨1⟩, .join 2 none (utf16 "c")]

theorem oneGame_shown : ∃ s os ms,
    Machine.Run (plainClients.restrict FreshStarts) (numbered oneGame) s os ∧
      s.2 ⟨5⟩ = some ms ∧ (pageAfter (fun _ => 0) {} ms).players = s.1.room.summaries :=
  ⟨_, _, _, Machine.exec_observe_restrict_run (by decide +kernel),
    (Option.some_get (by decide +kernel)).symm,
    @scoreboard_shown plainRuntime _ _ _
      ⟨_, _, Machine.exec_observe_restrict_run (by decide +kernel)⟩
      _ _ (Option.some_get (by decide +kernel)).symm _ _⟩

/-- The winner of the first game starts the second one with a score that only the pages keep. -/
theorem secondGame_stale : ∃ s os page,
    Machine.Run plainClients (numbered (oneGame ++ [.startGame])) s os ∧
      s.page ⟨0⟩ = some page ∧ page.players ≠ s.1.room.summaries :=
  ⟨_, _, _, Machine.exec_observe_run (by decide +kernel),
    (Option.some_get (by decide +kernel)).symm, by decide +kernel⟩

end GachaMind.Web
