import GachaMind.GameSession.RoomInvariant

/-!
# Who draws

The queue of drawers against a log of the game: who has drawn, and who was ever queued.
The players who have drawn and those who wait stay apart, so nobody draws twice, and a game
that runs out of drawers has served everyone who is still there.
-/

namespace GachaMind.GameSession
open GachaMind.Js GachaMind.Shared KeyedTable

/-- The current game, or the last one: its drawers in order, and everyone queued in it. -/
structure DrawLog where
  drawn : List Uuid
  queued : Finset Uuid
  deriving DecidableEq

/-- `drawer` is the player who draws after the step. -/
def DrawLog.mark (drawer : Option Uuid) (log : DrawLog) : GameMark → DrawLog
  | .gameStarted _ => ⟨[], ∅⟩
  | .roundStarted _ => { log with drawn := log.drawn ++ drawer.toList }
  | _ => log

/-- Whoever draws was queued before, if only inside the step. -/
def DrawLog.enqueue (log : DrawLog) (queue : List Uuid) : DrawLog :=
  { log with queued := log.queued ∪ log.drawn.toFinset ∪ queue.toFinset }

def DrawLog.update (log : DrawLog) (t : Room) (ms : List GameMark) : DrawLog :=
  (ms.foldl (DrawLog.mark t.drawerId) log).enqueue t.drawerQueue

def recordDraws (log : DrawLog) (_ : RoomState) (_ : Env × RoomInput) (t : RoomState)
    (os : List Effect) : DrawLog :=
  log.update t.room (marks os)

/-! ### The invariant -/

structure DrawLog.Matches (log : DrawLog) (s : RoomState) : Prop where
  nodup : log.drawn.Nodup
  drawn_issued : ∀ id ∈ log.drawn, id ∈ s.issued
  queued_issued : ∀ id ∈ log.queued, id ∈ s.issued
  waiting : ∀ id ∈ s.room.drawerQueue, id ∉ log.drawn
  served : s.room.phase = .playing → ∀ id ∈ log.queued, id ∈ s.room.players.keys →
    id ∈ log.drawn ∨ id ∈ s.room.drawerQueue

theorem DrawLog.mem_enqueue {log : DrawLog} {queue : List Uuid} {id : Uuid} :
    id ∈ (log.enqueue queue).queued ↔ id ∈ log.queued ∨ id ∈ log.drawn ∨ id ∈ queue := by
  simp [DrawLog.enqueue]

theorem DrawLog.Matches.fresh (s : RoomState) : DrawLog.Matches ⟨[], ∅⟩ s :=
  ⟨List.nodup_nil, by simp, by simp, by simp, by simp⟩

theorem DrawLog.Matches.quiet {log : DrawLog} {s t : RoomState} (h : log.Matches s)
    (hi : s.issued ⊆ t.issued) (ht : ∀ id ∈ t.room.drawerQueue, id ∈ t.issued)
    (hq : ∀ id ∈ t.room.drawerQueue, id ∈ s.room.drawerQueue ∨ id ∉ s.issued)
    (hk : ∀ id ∈ t.room.players.keys, id ∈ s.room.players.keys ∨ id ∉ s.issued)
    (hp : t.room.phase = .playing → s.room.phase = .playing ∧
      ∀ id ∈ s.room.drawerQueue, id ∈ t.room.players.keys → id ∈ t.room.drawerQueue) :
    (log.enqueue t.room.drawerQueue).Matches t where
  nodup := h.nodup
  drawn_issued id hid := hi (h.drawn_issued id hid)
  queued_issued id hid := by
    rcases mem_enqueue.mp hid with hid | hid | hid
    · exact hi (h.queued_issued id hid)
    · exact hi (h.drawn_issued id hid)
    · exact ht id hid
  waiting id hid hd := by
    rcases hq id hid with hid | hnew
    · exact h.waiting id hid hd
    · exact hnew (h.drawn_issued id hd)
  served hplay id hid hkey := by
    obtain ⟨hplaying, hstay⟩ := hp hplay
    rcases mem_enqueue.mp hid with hid | hid | hid
    · rcases hk id hkey with hkey' | hnew
      · rcases h.served hplaying id hid hkey' with hd | hw
        · exact .inl hd
        · exact .inr (hstay id hw hkey)
      · exact absurd (h.queued_issued id hid) hnew
    · exact .inl hid
    · exact .inr hid

theorem DrawLog.Matches.draw {log : DrawLog} {s t : RoomState} {d : Uuid} (h : log.Matches s)
    (hi : s.issued ⊆ t.issued) (hs : ∀ id ∈ s.room.drawerQueue, id ∈ s.issued)
    (hn : s.room.drawerQueue.Nodup) (hd : s.room.drawerQueue.head? = some d)
    (hq : t.room.drawerQueue = s.room.drawerQueue.tail)
    (hk : t.room.players.keys = s.room.players.keys) (hp : s.room.phase = .playing) :
    (DrawLog.enqueue { log with drawn := log.drawn ++ [d] } t.room.drawerQueue).Matches t := by
  have hcons := List.eq_cons_of_mem_head? hd
  rw [← hq] at hcons
  rw [hcons] at hn hs
  have hfresh : d ∉ log.drawn := h.waiting d (by rw [hcons]; exact List.mem_cons_self)
  have hdrawn : ∀ id ∈ log.drawn ++ [d], id ∈ t.issued := by
    intro id hid
    rcases List.mem_append.mp hid with hid | hid
    · exact hi (h.drawn_issued id hid)
    · rw [List.mem_singleton.mp hid]
      exact hi (hs d List.mem_cons_self)
  refine ⟨?_, hdrawn, ?_, ?_, ?_⟩
  · exact List.nodup_append.mpr ⟨h.nodup, List.nodup_singleton d, fun a ha b hb he =>
      hfresh (by rw [← List.mem_singleton.mp hb, ← he]; exact ha)⟩
  · intro id hid
    rcases mem_enqueue.mp hid with hid | hid | hid
    · exact hi (h.queued_issued id hid)
    · exact hdrawn id hid
    · exact hi (hs id (List.mem_cons_of_mem d hid))
  · intro id hid hmem
    rcases List.mem_append.mp hmem with hmem | hmem
    · exact h.waiting id (by rw [hcons]; exact List.mem_cons_of_mem d hid) hmem
    · rw [List.mem_singleton.mp hmem] at hid
      exact (List.nodup_cons.mp hn).1 hid
  · intro _ id hid hkey
    rw [hk] at hkey
    rcases mem_enqueue.mp hid with hid | hid | hid
    · rcases h.served hp id hid hkey with hdr | hw
      · exact .inl (List.mem_append_left _ hdr)
      · rw [hcons, List.mem_cons] at hw
        rcases hw with rfl | hw
        · exact .inl (List.mem_append_right _ (List.mem_singleton_self _))
        · exact .inr hw
    · exact .inl hid
    · exact .inr hid

/-! ### One step -/

/-- What a step does to the queue: a round starts, or players leave the queue only by leaving
the room and only a new player enters it. -/
inductive DrawStep (env : Env) (room : Room) : Room → List GameMark → Prop
  | calm {t : Room} {ms : List GameMark}
      (hm : ∀ m ∈ ms, (∀ n, m ≠ .gameStarted n) ∧ ∀ n, m ≠ .roundStarted n)
      (hq : ∀ id ∈ t.drawerQueue, id ∈ room.drawerQueue ∨ id = env.uuid)
      (hp : t.phase = .playing → room.phase = .playing ∧
        ∀ id ∈ room.drawerQueue, id ∈ t.players.keys → id ∈ t.drawerQueue) :
      DrawStep env room t ms
  | start {drawer : Player} {n : ℕ}
      (hq : (room.beginGame env).drawerQueue.head? = some drawer.id) :
      DrawStep env room ((room.beginGame env).openRound env drawer)
        [.gameStarted n, .roundStarted 1]
  | next {id n : ℕ} {drawer : Player} (hp : room.phase = .playing)
      (hq : room.drawerQueue.head? = some drawer.id) :
      DrawStep env room ((room.timerFired id).openRound env drawer) [.roundStarted n]

theorem DrawStep.same {env : Env} {room t : Room} {ms : List GameMark}
    (hm : ∀ m ∈ ms, (∀ n, m ≠ .gameStarted n) ∧ ∀ n, m ≠ .roundStarted n)
    (hq : t.drawerQueue = room.drawerQueue) (hp : t.phase = room.phase) :
    DrawStep env room t ms :=
  .calm hm (fun _ hid => .inl (by rwa [hq] at hid))
    fun hplay => ⟨hp ▸ hplay, fun _ hid _ => by rwa [hq]⟩

theorem DrawStep.over {env : Env} {room t : Room} {ms : List GameMark}
    (hm : ∀ m ∈ ms, (∀ n, m ≠ .gameStarted n) ∧ ∀ n, m ≠ .roundStarted n) :
    DrawStep env room t.finishGame ms := by
  refine .calm hm (fun id hid => ?_) fun hp => ?_
  · exact absurd hid List.not_mem_nil
  · exact absurd hp (by simp [Room.finishGame])

theorem DrawStep.gone {env : Env} {room t : Room} {ms : List GameMark} {left : Uuid}
    (hm : ∀ m ∈ ms, (∀ n, m ≠ .gameStarted n) ∧ ∀ n, m ≠ .roundStarted n)
    (hq : t.drawerQueue = (room.removePlayer left).drawerQueue)
    (hk : t.players = (room.removePlayer left).players) (hp : t.phase = room.phase) :
    DrawStep env room t ms := by
  refine .calm hm (fun id hid => .inl ?_) fun hplay => ⟨hp ▸ hplay, fun id hid hkey => ?_⟩
  · rw [hq] at hid
    exact List.mem_of_mem_filter hid
  · rw [hk] at hkey
    rw [hq]
    exact List.mem_filter.mpr ⟨hid, by simpa using (mem_keys_erase.mp hkey).2⟩

theorem gameStep_draws {env : Env} {room t : Room} {input : RoomInput} {ms : List GameMark}
    (hs : GameStep env room input t ms) : DrawStep env room t ms := by
  cases hs with
  | quiet _ _ => exact .same (by simp) rfl rfl
  | join _ =>
    rw [Room.seatPlayer_eq]
    refine .calm (by simp) (fun id hid => ?_) fun hp => ⟨hp, fun id hid _ => ?_⟩
    · dsimp only at hid
      split_ifs at hid
      · rcases List.mem_append.mp hid with hid | hid
        · exact .inl hid
        · exact .inr (List.mem_singleton.mp hid)
      · exact .inl hid
    · dsimp only at hp ⊢
      rw [if_pos hp]
      exact List.mem_append_left _ hid
  | start _ _ hq _ => exact .start hq
  | guess _ _ _ _ _ => exact .same (by simp) rfl rfl
  | lastGuess _ _ _ _ _ => exact .same (by simp) rfl rfl
  | timeUp _ => exact .same (by simp) rfl rfl
  | nextRound hi hq _ => exact .next hi.phase hq
  | gameOver _ _ _ => exact .over (by simp)
  | leave _ => exact .gone (by simp) rfl rfl rfl
  | leaveGame _ _ _ => exact .over (by simp)
  | leaveRound _ _ => exact .gone (by simp) rfl rfl rfl
  | leaveSolved _ _ _ => exact .gone (by simp) rfl rfl rfl

theorem DrawLog.update_calm {log : DrawLog} {t : Room} {ms : List GameMark}
    (h : ∀ m ∈ ms, (∀ n, m ≠ .gameStarted n) ∧ ∀ n, m ≠ .roundStarted n) :
    log.update t ms = log.enqueue t.drawerQueue := by
  have hfold : ms.foldl (DrawLog.mark t.drawerId) log = log := by
    induction ms with
    | nil => rfl
    | cons m ms ih =>
      have hm := h m List.mem_cons_self
      have hlog : log.mark t.drawerId m = log := by
        cases m with
        | gameStarted n => exact absurd rfl (hm.1 n)
        | roundStarted n => exact absurd rfl (hm.2 n)
        | _ => rfl
      rw [List.foldl_cons, hlog]
      exact ih fun m hm => h m (List.mem_cons_of_mem _ hm)
  rw [DrawLog.update, hfold]

theorem drawLog_step {env : Env} {s t : RoomState} {input : RoomInput} {ms : List GameMark}
    {log : DrawLog} (h : log.Matches s) (hi : s.Inv) (ht : t.Inv) (hu : env.uuid ∉ s.issued)
    (hissued : t.issued = env.uuid :: s.issued) (hs : GameStep env s.room input t.room ms) :
    (log.update t.room ms).Matches t := by
  have hsub : s.issued ⊆ t.issued := by
    rw [hissued]
    exact List.subset_cons_self _ _
  have hkeys : ∀ id ∈ t.room.players.keys, id ∈ s.room.players.keys ∨ id ∉ s.issued := by
    intro id hid
    rcases gameStep_keys hs hid with rfl | hid
    · exact .inr hu
    · exact .inl hid
  have htqueue : ∀ id ∈ t.room.drawerQueue, id ∈ t.issued :=
    fun id hid => ht.players_issued id (ht.coherent.1.queue_present id hid)
  obtain ⟨room, issued⟩ := t
  cases gameStep_draws hs with
  | calm hm hq hp =>
    rw [DrawLog.update_calm hm]
    exact h.quiet hsub htqueue
      (fun id hid => (hq id hid).imp_right fun he => by rwa [he]) hkeys hp
  | start hq =>
    have hb := Room.beginGame_base env hi.coherent.1
    refine (DrawLog.Matches.fresh ⟨s.room.beginGame env, s.issued⟩).draw hsub ?_ hb.queue_nodup hq
      rfl rfl rfl
    intro id hid
    exact hi.players_issued id (by simpa using hb.queue_present id hid)
  | next hp hq =>
    exact h.draw hsub (fun id hid => hi.players_issued id (hi.coherent.1.queue_present id hid))
      hi.coherent.1.queue_nodup hq rfl rfl hp

section
variable [Runtime] {id : RoomId} {capacity : ℕ}

def drawSystem (id : RoomId) (capacity : ℕ) :
    Machine.System (RoomState × DrawLog) (Env × RoomInput) Effect :=
  (roomSystem id capacity).observe ⟨[], ∅⟩ recordDraws

theorem reachable_draws {s : RoomState × DrawLog}
    (hr : Machine.Reachable (drawSystem id capacity) s) : s.2.Matches s.1 := by
  refine hr.recorded_free (I := fun s log => DrawLog.Matches log s)
    (fun _ hr => reachable_inv hr) ?_ ?_
  · intro s _
    exact .fresh s
  · intro s log i t os hi hm hs
    obtain ⟨-, hg, hissued⟩ := step_marks hi hs
    exact drawLog_step hm hi (step_inv hi hs) (roomSystem_step hs).1 hissued hg

/-! ### Every player draws once -/

/-- `startRound` finds its drawer whenever it is called, so it opens a round. -/
theorem startRound_opens {s : RoomState} (hr : Machine.Reachable (roomSystem id capacity) s)
    (env : Env) :
    (s.room.phase ≠ .playing → MIN_PLAYERS_TO_START ≤ s.room.size →
      ∃ drawer ∈ (s.room.beginGame env).players.rows,
        (s.room.beginGame env).drawerQueue.head? = some drawer.id ∧
        (startRound env (s.room.beginGame env)).1 = (s.room.beginGame env).openRound env drawer) ∧
    (s.room.drawerQueue ≠ [] → ∀ k, ∃ drawer ∈ s.room.players.rows,
        s.room.drawerQueue.head? = some drawer.id ∧
        (startRound env (s.room.timerFired k)).1 = (s.room.timerFired k).openRound env drawer) := by
  have hb := (reachable_inv hr).coherent.1
  refine ⟨fun _ hsize => ?_, fun hq k => ?_⟩
  · have hq : (s.room.beginGame env).drawerQueue ≠ [] := by
      rw [← List.length_pos_iff, Room.beginGame_queue_length]
      exact Room.beginGame_totalRounds_pos env hsize
    obtain ⟨drawer, hd, hhead⟩ := Room.exists_drawer (Room.beginGame_base env hb) hq
    exact ⟨drawer, hd, hhead, by rw [startRound_head env _ drawer hhead hd]⟩
  · obtain ⟨drawer, hd, hhead⟩ := Room.exists_drawer hb hq
    exact ⟨drawer, hd, hhead, by rw [startRound_head env (s.room.timerFired k) drawer hhead hd]⟩

omit [Runtime] in
theorem game_over_served {env : Env} {room t : Room} {input : RoomInput} {ms : List GameMark}
    (hs : GameStep env room input t ms) (hp : room.phase = .playing) (ht : t.phase = .ended)
    (hsize : MIN_PLAYERS_TO_START ≤ t.size) :
    room.drawerQueue = [] ∧ t.players = room.players ∧ t.drawerQueue = [] ∧
      ∀ m ∈ ms, (∀ n, m ≠ .gameStarted n) ∧ ∀ n, m ≠ .roundStarted n := by
  cases hs with
  | quiet _ _ => exact absurd (hp.symm.trans ht) (by simp)
  | join _ =>
    rw [Room.seatPlayer_eq] at ht
    exact absurd (hp.symm.trans ht) (by simp)
  | start hn _ _ _ => exact absurd hp hn
  | guess _ _ _ _ _ => exact absurd (hp.symm.trans ht) (by simp)
  | lastGuess _ _ _ _ _ => exact absurd (hp.symm.trans ht) (by simp)
  | timeUp _ => exact absurd (hp.symm.trans ht) (by simp)
  | nextRound _ _ _ => exact absurd (hp.symm.trans ht) (by simp)
  | gameOver _ hq _ => exact ⟨hq, rfl, rfl, by simp⟩
  | leave _ => exact absurd (hp.symm.trans ht) (by simp)
  | leaveGame _ hs _ => exact absurd hsize (not_le.mpr hs)
  | leaveRound _ _ => exact absurd (hp.symm.trans ht) (by simp)
  | leaveSolved _ _ _ => exact absurd (hp.symm.trans ht) (by simp)

/-- The queue holds present players who have not drawn, each once; `startRound` always finds
its drawer, nobody draws twice, and a game that ends with enough players has let everyone
queued in it and still present draw exactly once. -/
theorem everyone_draws_once (id : RoomId) (capacity : ℕ) (s : RoomState × DrawLog)
    (hr : Machine.Reachable (drawSystem id capacity) s) :
    s.1.room.drawerQueue.Nodup ∧
    (∀ p ∈ s.1.room.drawerQueue, p ∈ s.1.room.players.keys ∧ p ∉ s.2.drawn) ∧
    (∀ env : Env,
      (s.1.room.phase ≠ .playing → MIN_PLAYERS_TO_START ≤ s.1.room.size →
        ∃ drawer ∈ (s.1.room.beginGame env).players.rows,
          (s.1.room.beginGame env).drawerQueue.head? = some drawer.id ∧
          (startRound env (s.1.room.beginGame env)).1 =
            (s.1.room.beginGame env).openRound env drawer) ∧
      (s.1.room.drawerQueue ≠ [] → ∀ k, ∃ drawer ∈ s.1.room.players.rows,
          s.1.room.drawerQueue.head? = some drawer.id ∧
          (startRound env (s.1.room.timerFired k)).1 =
            (s.1.room.timerFired k).openRound env drawer)) ∧
    s.2.drawn.Nodup ∧
    ∀ i t os, (drawSystem id capacity).step s i t os →
      s.1.room.phase = .playing → t.1.room.phase = .ended →
      MIN_PLAYERS_TO_START ≤ t.1.room.size →
      ∀ p ∈ t.2.queued, p ∈ t.1.room.players.keys → t.2.drawn.count p = 1 := by
  have hm := reachable_draws hr
  have hi := reachable_inv hr.of_observe
  refine ⟨hi.coherent.1.queue_nodup,
    fun p hp => ⟨hi.coherent.1.queue_present p hp, hm.waiting p hp⟩,
    fun env => startRound_opens hr.of_observe env, hm.nodup, ?_⟩
  intro i t os hs hp ht hsize p hqueued hkey
  obtain ⟨hstep, hlog⟩ := hs
  obtain ⟨hq, hplayers, htq, hmarks⟩ := game_over_served (step_marks hi hstep).2.1 hp ht hsize
  rw [recordDraws, DrawLog.update_calm hmarks, htq] at hlog
  rw [hlog] at hqueued ⊢
  have hdrawn : p ∈ s.2.drawn := by
    rcases DrawLog.mem_enqueue.mp hqueued with hqueued | hd | hw
    · rw [hplayers] at hkey
      rcases hm.served hp p hqueued hkey with hd | hw
      · exact hd
      · rw [hq] at hw
        exact absurd hw List.not_mem_nil
    · exact hd
    · exact absurd hw List.not_mem_nil
  exact List.count_eq_one_of_mem hm.nodup hdrawn

end

/-- A latecomer queues up behind the second player, and the game ends after their rounds. -/
def lateDrawer : List RoomInput :=
  [.join 0 none (utf16 "a"), .join 1 none (utf16 "b"), .startGame, .join 2 none (utf16 "c"),
   .timer 0, .timer 1, .timer 2, .timer 3, .timer 4, .timer 5]

theorem lateDrawer_drawn : ∃ s os,
    Machine.Run (@drawSystem plainRuntime (utf16 "AB3DE") DEFAULT_ROOM_CAPACITY)
      (numbered lateDrawer) s os ∧
    s.1.room.phase = .ended ∧ s.2.drawn = [⟨1⟩, ⟨0⟩, ⟨3⟩] ∧ s.2.drawn.Nodup :=
  ⟨_, _, Machine.exec_observe_run (by decide +kernel), by decide +kernel, by decide +kernel,
    (@everyone_draws_once plainRuntime (utf16 "AB3DE") DEFAULT_ROOM_CAPACITY _
      ⟨_, _, Machine.exec_observe_run (by decide +kernel)⟩).2.2.2.1⟩

end GachaMind.GameSession
