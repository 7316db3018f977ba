import GachaMind.GameSession.ServerSteps

/-!
# The rooms of a process are rooms

Every room that a reachable process holds has gone through a run of `roomSystem`, so
all that is proved of the runs of one room holds in the process.
-/

namespace GachaMind.GameSession
open GachaMind.Js GachaMind.Shared KeyedTable

section
variable [Runtime] {issued : List Uuid} {room t : Room} {env : Env}

/-- The room has a run of its own, which drew some of the UUIDs that the process has drawn. -/
def RoomRun (issued : List Uuid) (room : Room) : Prop :=
  ∃ drawn ⊆ issued, Machine.Reachable (roomSystem room.id DEFAULT_ROOM_CAPACITY) ⟨room, drawn⟩

theorem newRoom_run (issued : List Uuid) (id : RoomId) :
    RoomRun issued (newRoom id DEFAULT_ROOM_CAPACITY) :=
  ⟨[], List.nil_subset _, .start rfl⟩

theorem RoomRun.issue (h : RoomRun issued room) (id : Uuid) : RoomRun (id :: issued) room := by
  obtain ⟨drawn, hd, hr⟩ := h
  exact ⟨drawn, fun u hu => List.mem_cons_of_mem _ (hd hu), hr⟩

theorem RoomRun.coherent (h : RoomRun issued room) : room.Coherent := by
  obtain ⟨drawn, -, hr⟩ := h
  exact (reachable_inv hr).coherent

theorem RoomRun.keys_issued (h : RoomRun issued room) : ∀ id ∈ room.players.keys, id ∈ issued := by
  obtain ⟨drawn, hd, hr⟩ := h
  exact fun id hid => hd ((reachable_inv hr).players_issued id hid)

theorem RoomRun.gameStep {input : RoomInput} {os : List Effect} (h : RoomRun issued room)
    (hs : roomStep env room input = some (t, os)) : GameStep env room input t (marks os) :=
  roomStep_cases h.coherent hs

theorem RoomRun.step (env : Env) {input : RoomInput} {os : List Effect} (h : RoomRun issued room)
    (hu : env.uuid ∉ issued) (hs : roomStep env room input = some (t, os)) :
    RoomRun (env.uuid :: issued) t := by
  have hid := (gameStep_room (h.gameStep hs)).1
  obtain ⟨drawn, hd, hr⟩ := h
  refine ⟨env.uuid :: drawn, List.cons_subset_cons _ hd, ?_⟩
  rw [hid]
  have hstep : stepRoomState ⟨room, drawn⟩ (env, input) = some (⟨t, env.uuid :: drawn⟩, os) := by
    rw [stepRoomState, if_neg fun hm => hu (hd hm), hs]
    rfl
  exact hr.step hstep

theorem roomStep_join (env : Env) (socket : SocketId) (identity : Option Identity)
    (nickname : JsString) (h : room.isFull = false) :
    ∃ os, roomStep env room (.join socket identity nickname) =
      some (seatPlayer room (joiningPlayer env socket identity nickname), os) := by
  simp only [roomStep, joinRoom, h, Bool.false_eq_true, if_false]
  exact ⟨_, rfl⟩

end

theorem rows_setRoom {s : Server} {room r : Room} (h : r ∈ (s.setRoom room).rooms.rows) :
    r = room ∨ r ∈ s.rooms.rows :=
  (mem_rows_set.mp h).imp_right And.left

theorem serverStep_runs [Runtime] {s t : Server} {env : Env} {input : ServerInput}
    {os : List Effect} {issued : List Uuid} (h : ∀ room ∈ s.rooms.rows, RoomRun issued room)
    (hu : env.uuid ∉ issued) (hs : ServerStep s env input t os) :
    ∀ room ∈ t.rooms.rows, RoomRun (env.uuid :: issued) room := by
  have hkeep : ∀ room ∈ s.rooms.rows, RoomRun (env.uuid :: issued) room :=
    fun room hr => (h room hr).issue _
  cases hs with
  | still _ => exact hkeep
  | connect _ => exact hkeep
  | leaveOpen _ => exact hkeep
  | settle _ _ _ => exact hkeep
  | startJoin _ _ _ => exact hkeep
  | play hroom _ hstep =>
    intro r hr
    rcases rows_setRoom hr with rfl | hr
    · have hrun := h _ (get?_eq_some.mp hroom).1
      exact hrun.step (s.see env) hu hstep
    · exact hkeep r hr
  | abandon _ => exact hkeep
  | refuse _ _ => exact hkeep
  | ask _ _ => exact hkeep
  | @seat w identity nickname room _ _ _ hroom hfull ht _ _ =>
    intro r hr
    rcases rows_setRoom hr with rfl | hr
    · have hrun : RoomRun issued room := by
        rcases hroom with hroom | ⟨-, hnew, -⟩
        · exact h _ (get?_eq_some.mp hroom).1
        · rw [hnew]
          exact newRoom_run issued _
      obtain ⟨os, hj⟩ := roomStep_join (s.see env) w.call.socket identity nickname hfull
      rw [ht]
      exact hrun.step (s.see env) hu hj
    · exact hkeep r hr
  | closeOut _ _ => exact hkeep
  | @closeMember c room _ playerId _ _ hc _ _ hroom hl _ _ =>
    intro r hr
    rcases rows_setRoom hr with rfl | hr
    · have hrun := h _ (get?_eq_some.mp hroom).1
      have hstep : roomStep ((s.markClosed c.socket).see env) room (.leave playerId) =
          some (r, _) := congrArg some hl
      exact hrun.step ((s.markClosed c.socket).see env) hu hstep
    · exact hkeep r hr
  | closeLast _ _ _ _ _ _ _ _ =>
    intro r hr
    exact hkeep r (List.mem_of_mem_filter hr)

section
variable [Runtime] {self : ShardIdentity}

theorem server_step {s t : Server} {i : Env × ServerInput} {os : List Effect}
    (hs : (serverSystem self).step s i t os) :
    i.1.uuid ∉ s.issued ∧ ∃ u, ServerStep s i.1 i.2 u os ∧
      t = { u with issued := i.1.uuid :: s.issued } := by
  simp only [serverSystem, Machine.ofFunction, Server.step] at hs
  split_ifs at hs with hu
  obtain ⟨r, hr, he⟩ := Option.map_eq_some_iff.mp hs
  cases he
  exact ⟨hu, r.1, handle_cases hr, rfl⟩

theorem server_room_reachable {s : Server} (hr : Machine.Reachable (serverSystem self) s) :
    ∀ room ∈ s.rooms.rows, RoomRun s.issued room := by
  refine hr.invariant (I := fun s => ∀ room ∈ s.rooms.rows, RoomRun s.issued room) ?_ ?_
  · intro s h room hroom
    obtain rfl := h
    exact absurd hroom List.not_mem_nil
  · intro s i t os h hs
    obtain ⟨hu, u, hstep, rfl⟩ := server_step hs
    intro room hroom
    exact serverStep_runs h hu hstep room hroom

theorem server_room_coherent {s : Server} (hr : Machine.Reachable (serverSystem self) s) :
    ∀ room ∈ s.rooms.rows, room.Coherent :=
  fun room hroom => (server_room_reachable hr room hroom).coherent

end

end GachaMind.GameSession
