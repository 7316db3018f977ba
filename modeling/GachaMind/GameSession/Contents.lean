import GachaMind.GameSession.Publications
import GachaMind.GameSession.Scores

/-!
# What an event holds

The bounds on the data of an event, from the rooms and the joins that they come from: a room
code is normalised, a room seats no more than its capacity, no score is negative.
-/

namespace GachaMind.GameSession
open GachaMind.Js GachaMind.Shared KeyedTable

/-! ### Players and scores -/

structure Room.Extent (room : Room) : Prop where
  size : room.size ≤ room.capacity
  scores : ∀ p ∈ room.players.rows, 0 ≤ p.score

theorem gameStep_size {env : Env} {room t : Room} {input : RoomInput} {ms : List GameMark}
    (hs : GameStep env room input t ms) (hf : env.uuid ∉ room.players.keys)
    (h : room.size ≤ room.capacity) : t.size ≤ room.capacity := by
  rw [← Room.length_seats] at h ⊢
  by_cases hi : input.Inside
  · rw [gameStep_seats hs hi]
    exact h
  · cases input with
    | join socket identity nickname =>
      cases hs with
      | quiet _ _ => exact h
      | join hfull =>
        rw [seats_seatPlayer hf, List.length_append, List.length_singleton, Room.length_seats]
        exact not_le.mp (of_decide_eq_false hfull)
    | leave id =>
      rw [gameStep_leave_seats hs]
      exact (List.length_filter_le _ _).trans h
    | _ => exact absurd trivial hi

theorem answerAward_pos (env : Env) (room : Room) :
    0 ≤ answerAward ((room.remainingMs (env.now .guess)).getD 0) := by
  have hremaining : 0 ≤ (room.remainingMs (env.now .guess)).getD 0 := by
    unfold Room.remainingMs
    cases room.roundEndsAt with
    | none => exact le_rfl
    | some endsAt => exact le_max_left _ _
  have hbase := answerAward_mono le_rfl hremaining
  rw [answerAward_zero] at hbase
  exact le_trans (by decide) hbase

theorem scoreGuess_scores {env : Env} {room : Room} {solver d : Uuid}
    (h : ∀ p ∈ room.players.rows, 0 ≤ p.score) :
    ∀ p ∈ (room.scoreGuess env solver d).players.rows, 0 ≤ p.score := by
  intro p hp
  obtain ⟨q, hq, -, hscore⟩ := mem_rows_scoreGuess hp
  have hold := h q hq
  have haward := answerAward_pos env room
  have hdrawer : 0 ≤ DRAWER_SCORE_PER_SOLVER := by decide
  rw [hscore]
  split_ifs <;> omega

theorem gameStep_scores {env : Env} {room t : Room} {input : RoomInput} {ms : List GameMark}
    (hs : GameStep env room input t ms) (h : ∀ p ∈ room.players.rows, 0 ≤ p.score) :
    ∀ p ∈ t.players.rows, 0 ≤ p.score := by
  cases hs with
  | quiet _ _ => exact h
  | join _ =>
    rw [Room.seatPlayer_eq]
    intro p hp
    rcases mem_rows_set.mp hp with rfl | ⟨hp, -⟩
    · exact le_rfl
    · exact h p hp
  | start _ _ _ _ =>
    intro p hp
    obtain ⟨q, -, rfl⟩ := List.mem_map.mp hp
    exact le_rfl
  | guess _ _ _ _ _ => exact scoreGuess_scores h
  | lastGuess _ _ _ _ _ => exact scoreGuess_scores h
  | timeUp _ => exact h
  | nextRound _ _ _ => exact h
  | gameOver _ _ _ => exact h
  | leave _ => exact fun p hp => h p (List.mem_of_mem_filter hp)
  | leaveGame _ _ _ => exact fun p hp => h p (List.mem_of_mem_filter hp)
  | leaveRound _ _ => exact fun p hp => h p (List.mem_of_mem_filter hp)
  | leaveSolved _ _ _ => exact fun p hp => h p (List.mem_of_mem_filter hp)

theorem room_extent [Runtime] {id : RoomId} {capacity : ℕ} {s : RoomState}
    (hr : Machine.Reachable (roomSystem id capacity) s) :
    s.room.capacity = capacity ∧ s.room.Extent := by
  refine hr.invariant_of (J := RoomState.Inv)
    (I := fun s => s.room.capacity = capacity ∧ s.room.Extent) (fun _ h => reachable_inv h) ?_ ?_
  · intro s h
    obtain rfl := h
    exact ⟨rfl, Nat.zero_le _, fun p hp => absurd hp List.not_mem_nil⟩
  · intro s i t os hi h hs
    obtain ⟨hf, hstep, -⟩ := step_marks hi hs
    have hcapacity := (gameStep_room hstep).2
    exact ⟨hcapacity.trans h.1, hcapacity ▸ gameStep_size hstep hf h.2.size,
      gameStep_scores hstep h.2.scores⟩

theorem RoomRun.extent [Runtime] {issued : List Uuid} {room : Room} (h : RoomRun issued room) :
    room.size ≤ DEFAULT_ROOM_CAPACITY ∧ ∀ p ∈ room.players.rows, 0 ≤ p.score := by
  obtain ⟨drawn, -, hr⟩ := h
  obtain ⟨hcapacity, hextent⟩ := room_extent hr
  exact ⟨hextent.size.trans_eq hcapacity, hextent.scores⟩

/-! ### Ranks -/

theorem rankFrom_ranks (players : List Player) : ∀ {index rank : ℕ} {previousScore : Option ℤ},
    previousScore = none ∨ 1 ≤ rank → rank ≤ index →
    ∀ p ∈ rankFrom index rank previousScore players,
      1 ≤ p.rank ∧ p.rank ≤ index + players.length := by
  induction players with
  | nil =>
    intro index rank previousScore _ _ p hp
    cases hp
  | cons player players ih =>
    intro index rank previousScore hfirst hrank p hp
    rw [rankFrom, List.mem_cons] at hp
    rw [List.length_cons]
    by_cases hsame : previousScore = some player.score
    · have hpos : 1 ≤ rank := hfirst.resolve_left fun hnone => by cases hnone.symm.trans hsame
      simp only [hsame, ne_eq, not_true_eq_false, decide_false, Bool.false_eq_true, if_false] at hp
      rcases hp with rfl | hp
      · exact ⟨hpos, by dsimp only; omega⟩
      · have hrest := ih (.inr hpos) (hrank.trans (Nat.le_succ _)) p hp
        omega
    · simp only [hsame, ne_eq, not_false_eq_true, decide_true, if_true] at hp
      rcases hp with rfl | hp
      · exact ⟨Nat.le_add_left _ _, by dsimp only; omega⟩
      · have hrest := ih (.inr (Nat.le_add_left 1 index)) le_rfl p hp
        omega

/-! ### The event of a step -/

theorem gameStep_event {env : Env} {room t : Room} {input : RoomInput} {ms : List GameMark}
    (hs : GameStep env room input t ms) :
    ∀ e ∈ ms.filterMap GameMark.event?, e.roomId = room.id ∧ e.finishedAt = env.now .finish ∧
      e.players = toResultPlayers t := by
  cases hs with
  | gameOver _ _ _ =>
    intro e he
    obtain rfl := List.mem_singleton.mp he
    exact ⟨rfl, rfl, rfl⟩
  | leaveGame _ _ _ =>
    intro e he
    obtain rfl := List.mem_singleton.mp he
    exact ⟨rfl, rfl, rfl⟩
  | _ => exact fun e he => absurd he List.not_mem_nil

/-! ### Room codes -/

theorem enter_waiting {u t : Server} {env : Env} {os : List Effect} {call : JoinCall}
    {identity : Option Identity}
    {roomId : RoomId} {room : Room} (h : u.enter env call identity roomId room = .ok (t, os)) :
    t.waiting = u.waiting := by
  unfold Server.enter at h
  split_ifs at h with hf
  · cases h
    rfl
  · obtain ⟨nickname, -, h⟩ := bind_eq_ok.mp h
    cases h
    rfl

theorem getOrCreate_waiting (s : Server) (roomId : RoomId) :
    (s.getOrCreate roomId).1.waiting = s.waiting := by
  unfold Server.getOrCreate
  cases s.rooms.get? roomId <;> rfl

section
variable [Runtime]

def IsCode (roomId : RoomId) : Prop := ∃ text, roomId = normalizeRoomCode text

def Waiting.AsksCode (w : Waiting) : Prop :=
  ∀ call identity roomId answer, w = .assignment call identity roomId answer → IsCode roomId

theorem IsCode.nul {roomId : RoomId} (h : IsCode roomId) : 0 ∉ roomId := by
  obtain ⟨text, rfl⟩ := h
  intro hmem
  obtain ⟨c, hc, hfold⟩ := List.mem_map.mp hmem
  have hcode := (List.mem_filter.mp hc).2
  unfold foldLookalike at hfold
  split_ifs at hfold
  · cases hfold
  · cases hfold
  · rw [hfold] at hcode
    cases hcode

theorem Waiting.AsksCode.granted {w : Waiting} (h : w.AsksCode) {roomId : RoomId}
    (hg : w.granted = some roomId) : IsCode roomId := by
  cases w with
  | identity call => cases hg
  | assignment call identity code answer =>
    cases answer with
    | none => cases hg
    | some answer =>
      cases answer with
      | false => cases hg
      | true => exact Option.some.inj hg ▸ h _ _ _ _ rfl

theorem Waiting.AsksCode.answered {w : Waiting} (h : w.AsksCode) (answer : Bool) :
    (w.answered answer).AsksCode := by
  cases w with
  | identity call => exact h
  | assignment call identity code a =>
    cases a with
    | some a => exact h
    | none =>
      intro call' identity' roomId' answer' he
      cases he
      exact h _ _ _ _ rfl

theorem resume_asks {s t : Server} {env : Env} {os : List Effect} {socket : SocketId}
    (h : s.resume env socket = some (t, os))
    (hw : ∀ w ∈ s.waiting, w.AsksCode) : ∀ w ∈ t.waiting, w.AsksCode := by
  obtain ⟨w, -, h⟩ := Option.bind_eq_some_iff.mp h
  obtain ⟨x, hx, h⟩ := Option.bind_eq_some_iff.mp h
  have hok := toOption_eq_some h
  have hrest : ∀ w ∈ (s.without socket).waiting, w.AsksCode :=
    fun w hm => hw w (List.mem_of_mem_eraseP hm)
  cases w with
  | identity call =>
    obtain rfl := Option.some.inj hx
    obtain ⟨identity, -, h⟩ := bind_eq_ok.mp hok
    split_ifs at h with hopen
    · cases h
      exact hrest
    · obtain ⟨text, -, h⟩ := bind_eq_ok.mp h
      dsimp only at h
      split at h
      · rw [enter_waiting h]
        exact hrest
      · cases h
        intro w hm
        rcases List.mem_append.mp hm with hm | hm
        · exact hrest w hm
        · intro call' identity' roomId' answer' he
          cases (List.mem_singleton.mp hm).symm.trans he
          exact ⟨text, rfl⟩
  | assignment call identity roomId answer =>
    cases answer with
    | none => cases hx
    | some answer =>
      obtain rfl := Option.some.inj hx
      unfold Server.afterAssignment at hok
      split_ifs at hok with hanswer hopen
      · cases hok
        exact hrest
      · cases hok
        exact hrest
      · rw [enter_waiting hok, getOrCreate_waiting]
        exact hrest

structure Server.Coded (s : Server) : Prop where
  rooms : ∀ room ∈ s.rooms.rows, IsCode room.id
  waiting : ∀ w ∈ s.waiting, w.AsksCode

theorem serverStep_rooms {s t : Server} {env : Env} {input : ServerInput} {os : List Effect}
    (h : s.Coded) (hrun : ∀ room ∈ s.rooms.rows, room.Coherent)
    (hs : ServerStep s env input t os) : ∀ room ∈ t.rooms.rows, IsCode room.id := by
  cases hs with
  | play hroom _ hstep =>
    intro r hr
    rcases rows_setRoom hr with rfl | hr
    · have hheld := (get?_eq_some.mp hroom).1
      rw [(gameStep_room (roomStep_cases (hrun _ hheld) hstep)).1]
      exact h.rooms _ hheld
    · exact h.rooms r hr
  | @seat w identity nickname room _ hw _ hoffer _ ht _ _ =>
    intro r hr
    rcases rows_setRoom hr with rfl | hr
    · rw [ht, seatPlayer_id]
      rcases hoffer with hheld | ⟨-, -, hgranted⟩
      · exact h.rooms room (get?_eq_some.mp hheld).1
      · exact (h.waiting w hw).granted hgranted
    · exact h.rooms r hr
  | @closeMember c room _ playerId _ _ hc _ _ hroom hl _ _ =>
    intro r hr
    rcases rows_setRoom hr with rfl | hr
    · have hid := leaveRoom_id ((s.markClosed c.socket).see env) room playerId
      rw [hl] at hid
      rw [hid]
      exact h.rooms room (get?_eq_some.mp hroom).1
    · exact h.rooms r hr
  | closeLast _ _ _ _ _ _ _ _ => exact fun r hr => h.rooms r (List.mem_of_mem_filter hr)
  | _ => exact h.rooms

theorem handle_waiting {s t : Server} {env : Env} {input : ServerInput} {os : List Effect}
    (h : ∀ w ∈ s.waiting, w.AsksCode) (hs : s.handle env input = some (t, os)) :
    ∀ w ∈ t.waiting, w.AsksCode := by
  cases input with
  | resume socket => exact resume_asks hs h
  | settle socket roomId answer =>
    cases hs
    intro w hw
    obtain ⟨v, hv, rfl⟩ := List.mem_map.mp hw
    split_ifs
    · exact (h v hv).answered answer
    · exact h v hv
  | message socket raw =>
    cases handle_cases hs with
    | startJoin _ _ _ =>
      intro w hw
      rcases List.mem_append.mp hw with hw | hw
      · exact h w hw
      · intro call identity roomId answer he
        cases (List.mem_singleton.mp hw).symm.trans he
    | _ => exact h
  | _ => cases handle_cases hs <;> exact h

theorem server_coded {self : ShardIdentity} {s : Server}
    (hr : Machine.Reachable (serverSystem self) s) : s.Coded := by
  refine hr.invariant_of (J := fun s => ∀ room ∈ s.rooms.rows, room.Coherent)
    (I := Server.Coded) (fun _ h => server_room_coherent h) ?_ ?_
  · intro s h
    obtain rfl := h
    exact ⟨fun room hroom => absurd hroom List.not_mem_nil, fun w hw => absurd hw List.not_mem_nil⟩
  · intro s i t os hrun h hs
    simp only [serverSystem, Machine.ofFunction, Server.step] at hs
    split_ifs at hs with hu
    obtain ⟨r, hr, he⟩ := Option.map_eq_some_iff.mp hs
    cases he
    have hrooms := serverStep_rooms h hrun (handle_cases hr)
    have hwaiting := handle_waiting h.waiting hr
    exact ⟨hrooms, hwaiting⟩

/-! ### The events of a run -/

/-- What is known of the data of an event, whatever the clients sent. -/
structure Bounded (e : GameFinishedEvent) : Prop where
  roomId : 0 ∉ e.roomId
  players : e.players ≠ []
  length : e.players.length ≤ DEFAULT_ROOM_CAPACITY
  scores : ∀ p ∈ e.players, 0 ≤ p.score
  ranks : ∀ p ∈ e.players, 1 ≤ p.rank ∧ p.rank ≤ e.players.length

theorem toResultPlayers_bounds {room : Room} {issued : List Uuid} (h : RoomRun issued room) :
    (toResultPlayers room).length ≤ DEFAULT_ROOM_CAPACITY ∧
      (∀ p ∈ toResultPlayers room, 0 ≤ p.score) ∧
      ∀ p ∈ toResultPlayers room, 1 ≤ p.rank ∧ p.rank ≤ (toResultPlayers room).length := by
  obtain ⟨hsize, hscores⟩ := h.extent
  have hperm : ((toResultPlayers room).map GameResultPlayer.score).Perm
      (room.players.rows.map Player.score) := toResultPlayers_map (fun _ _ => rfl) room
  have hlength : (toResultPlayers room).length = room.size := by
    have := hperm.length_eq
    rwa [List.length_map, List.length_map] at this
  have hsorted : (sortedByScore room).length = room.size :=
    (List.perm_insertionSort _ _).length_eq
  refine ⟨hlength ▸ hsize, fun p hp => ?_, fun p hp => ?_⟩
  · have hmem := hperm.mem_iff.mp (List.mem_map_of_mem hp)
    obtain ⟨q, hq, hscore⟩ := List.mem_map.mp hmem
    exact hscore ▸ hscores q hq
  · have hranks := rankFrom_ranks (sortedByScore room) (.inl rfl) le_rfl p hp
    rw [hlength, ← hsorted]
    omega

theorem run_bounded {self : ShardIdentity} {A : Server → Env × ServerInput → Prop}
    {is : List (Env × ServerInput)} {s : Server} {os : List Effect}
    (hr : Machine.Run ((serverSystem self).restrict A) is s os) (clock : ℤ → Prop)
    (hclock : ∀ s i, A s i → clock (i.1.now .finish)) :
    ∀ e ∈ publishedEvents os, Bounded e ∧ clock e.finishedAt := by
  have houtputs : ∀ o ∈ os, ∀ e, o = .publishGameEvent e → Bounded e ∧ clock e.finishedAt := by
    refine hr.outputs fun s i t ps hreach hs o ho e he => ?_
    subst he
    obtain ⟨ha, hs⟩ := hs
    have hrun := server_room_reachable hreach.of_restrict
    obtain ⟨u, room, r, inside, ls, hrow, hstep, hmem, -⟩ :=
      server_published hrun hs (mem_publishedEvents.mpr ho)
    have hgame := (hrun room hrow).gameStep hstep
    obtain ⟨hu, -, -⟩ := server_rooms hrun hs
    have hafter := (hrun room hrow).step (u.see i.1) hu hstep
    rw [publishedEvents_eq] at hmem
    obtain ⟨hroom, hfinished, hplayers⟩ := gameStep_event hgame e hmem
    obtain ⟨hlength, hscores, hranks⟩ := toResultPlayers_bounds hafter
    have hcode := (server_coded hreach.of_restrict).rooms room hrow
    refine ⟨⟨hroom ▸ hcode.nul, ?_, hplayers ▸ hlength, hplayers ▸ hscores, hplayers ▸ hranks⟩, ?_⟩
    · rw [hplayers]
      exact toResultPlayers_ne_nil ((gameStep_result hgame).size_pos (List.ne_nil_of_mem hmem))
    · rw [hfinished]
      exact hclock s i ha
  exact fun e he => houtputs _ (mem_publishedEvents.mp he) e rfl

end

end GachaMind.GameSession
