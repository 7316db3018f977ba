import GachaMind.Timed.Expiry

/-!
# What a process reports

A step that opens a room reports it, no step reports a room that is held neither before it nor
after it, and a load is reported under the name of the process. The refreshes that a process
issues follow from that.
-/

namespace GachaMind.Timed
open GachaMind.Js GachaMind.Shared GachaMind.GameSession KeyedTable

/-! ### What a process reports -/

def reports : Effect → Option RedisKey
  | .syncOccupancy roomId _ => some (.room roomId)
  | .publishSessionLoad load => some (.session load.shard)
  | _ => none

def refreshes (key : RedisKey) (pipe : List (ℕ × TimedCommand)) : List ℕ :=
  pipe.filterMap fun c => if c.2.refreshes = some key then some c.1 else none

@[simp] theorem refreshes_append (key : RedisKey) (pipe new : List (ℕ × TimedCommand)) :
    refreshes key (pipe ++ new) = refreshes key pipe ++ refreshes key new :=
  List.filterMap_append

theorem mem_refreshes {key : RedisKey} {pipe : List (ℕ × TimedCommand)} {x : ℕ} :
    x ∈ refreshes key pipe ↔ (x, .expire key) ∈ pipe := by
  simp only [refreshes, List.mem_filterMap]
  constructor
  · rintro ⟨⟨y, c⟩, hc, hx⟩
    cases c with
    | data c => simp [TimedCommand.refreshes] at hx
    | expire l =>
      simp only [TimedCommand.refreshes, Option.some.injEq] at hx
      split_ifs at hx with hl
      rw [← hl, ← Option.some.inj hx]
      exact hc
  · intro hx
    exact ⟨_, hx, by simp [TimedCommand.refreshes]⟩

theorem mem_stamp {now x : ℕ} {os : List Effect} {key : RedisKey} :
    (x, .expire key) ∈ stamp now os ↔ x = now ∧ ∃ e ∈ os, reports e = some key := by
  have hone : ∀ e : Effect, .expire key ∈ timedCommands e ↔ reports e = some key := by
    intro e
    cases e <;> simp [timedCommands, reports, eq_comm]
  simp only [stamp, List.mem_map, List.mem_flatMap, Prod.mk.injEq]
  constructor
  · rintro ⟨c, ⟨e, he, hc⟩, rfl, rfl⟩
    exact ⟨rfl, e, he, (hone e).mp hc⟩
  · rintro ⟨rfl, e, he, hr⟩
    exact ⟨_, ⟨e, he, (hone e).mpr hr⟩, rfl, rfl⟩

theorem refreshes_stamp {now : ℕ} {os : List Effect} {key : RedisKey} :
    ∀ x ∈ refreshes key (stamp now os), x = now :=
  fun _ hx => (mem_stamp.mp (mem_refreshes.mp hx)).1

theorem refreshes_stamp_ne {now : ℕ} {os : List Effect} {key : RedisKey} :
    refreshes key (stamp now os) ≠ [] ↔ ∃ e ∈ os, reports e = some key := by
  rw [ne_eq, List.eq_nil_iff_forall_not_mem, not_forall_not]
  constructor
  · rintro ⟨x, hx⟩
    exact (mem_stamp.mp (mem_refreshes.mp hx)).2
  · intro h
    exact ⟨now, mem_refreshes.mpr (mem_stamp.mpr ⟨rfl, h⟩)⟩

/-- The keys that a process keeps alive. -/
def Process.keeps (p : Process) : RedisKey → Bool
  | .room roomId => decide (roomId ∈ p.server.rooms.keys)
  | .session shard => decide (shard = p.shard)

theorem keeps_room {p : Process} {roomId : RoomId} :
    p.keeps (.room roomId) = true ↔ roomId ∈ p.server.rooms.keys := decide_eq_true_iff

theorem keeps_session {p : Process} {shard : ShardId} :
    p.keeps (.session shard) = true ↔ shard = p.shard := decide_eq_true_iff

section
variable [Runtime] {s t : Server} {env : Env} {input : ServerInput} {os : List Effect}

/-- Redis as it is when all the reports of a process have got there, and nothing else has. -/
def mirror (s : Server) : Redis where
  room roomId := (s.rooms.get? roomId).elim {} fun room => hashOf (projection s.self.shardId room)
  joinable := ((s.rooms.rows.filter fun room => !room.isFull).map Room.id).toFinset
  session shard := if shard = s.self.shardId then some s.sessionLoad else none

omit [Runtime] in
theorem mirrored_mirror (s : Server) : Mirrored s (mirror s) where
  load := if_pos rfl
  rooms room hroom := by
    refine ⟨?_, ?_⟩
    · simp [mirror, get?_of_mem hroom]
    · simp only [mirror, List.mem_toFinset, List.mem_map, List.mem_filter]
      constructor
      · rintro ⟨u, ⟨hu, hf⟩, hid⟩
        rw [← rows_inj hu hroom hid]
        simpa using hf
      · intro hf
        exact ⟨room, ⟨hroom, by simp [hf]⟩, rfl⟩

omit [Runtime] in
theorem room_after {r : Redis} {roomId : RoomId} {cs : List Command}
    (h : ∀ p, .recordRoom roomId p ∉ cs) : (r.after cs).room roomId = r.room roomId := by
  induction cs generalizing r with
  | nil => rfl
  | cons c cs ih =>
    have hc : (JoinableIndex.runCommand r c).room roomId = r.room roomId := by
      cases c with
      | recordRoom l p =>
        have hne : roomId ≠ l := by
          rintro rfl
          exact h p List.mem_cons_self
        simp [JoinableIndex.runCommand, Redis.recordRoom, hne]
      | indexRoom l full => rfl
      | checkAssigned socket l => rfl
      | publishSessionLoad load => rfl
    exact (ih fun p hp => h p (List.mem_cons_of_mem c hp)).trans hc

/-- The step that opens a room reports it. -/
theorem opened_reported (hrun : ∀ room ∈ s.rooms.rows, room.Coherent)
    (h : s.handle env input = some (t, os)) {roomId : RoomId} (hs : roomId ∉ s.rooms.keys)
    (ht : roomId ∈ t.rooms.keys) : ∃ e ∈ os, reports e = some (.room roomId) := by
  by_contra hno
  have hmirrored := handle_mirrored (mirrored_mirror s) hrun h
  obtain ⟨room, hroom, rfl⟩ := mem_keys.mp ht
  have hshown := (hmirrored.rooms room hroom).hash
  rw [room_after] at hshown
  · have hnone : s.rooms.get? room.id = none := get?_eq_none.mpr hs
    have hshard : ((mirror s).room room.id).shard = some t.self.shardId :=
      congrArg RoomHash.shard hshown
    simp [mirror, hnone] at hshard
  · intro p hp
    exact hno ⟨_, mem_commands hp, rfl⟩

/-- A room that a step reports is held before it or after it. -/
theorem reported_held (h : ServerStep s env input t os) {roomId : RoomId}
    (he : ∃ e ∈ os, reports e = some (.room roomId)) :
    roomId ∈ s.rooms.keys ∨ roomId ∈ t.rooms.keys := by
  obtain ⟨e, he, hr⟩ := he
  cases e with
  | syncOccupancy l projection =>
    obtain rfl : l = roomId := by simpa [reports] using hr
    have hknown : AllKnown s os → l ∈ s.rooms.keys := fun hos => (hos _ he).1
    cases h with
    | still hos => exact .inl (hknown hos)
    | play hroom _ hstep =>
      exact .inl (hknown ((roomStep_local hstep).known (mem_keys_of_get? hroom) rfl))
    | seat _ _ _ _ _ hos => exact .inr (hos _ he).1
    | closeMember _ _ _ _ _ _ hos => exact .inl (hknown hos)
    | closeLast _ _ _ _ _ _ hos hps =>
      rcases List.mem_append.mp he with he | he
      · exact .inl (hos _ he).1
      · rcases List.mem_cons.mp he with he | he
        · cases he
        · exact .inl (hps _ he).1
    | refuse _ _ => simp at he
    | ask _ _ => simp at he
    | _ => cases he
  | publishSessionLoad load => simp [reports] at hr
  | _ => cases hr

/-- Whatever is reported of a load is reported under the name `shard`. -/
def LoadsOf (shard : ShardId) (os : List Effect) : Prop :=
  ∀ load, .publishSessionLoad load ∈ os → load.shard = shard

omit [Runtime] in
theorem LoadsOf.append {shard : ShardId} {ps : List Effect} (h : LoadsOf shard os)
    (h' : LoadsOf shard ps) : LoadsOf shard (os ++ ps) := by
  intro load hl
  rcases List.mem_append.mp hl with hl | hl
  · exact h load hl
  · exact h' load hl

omit [Runtime] in
theorem LoadsOf.cons {shard : ShardId} {e : Effect} (h : LoadsOf shard os)
    (he : ∀ load, e ≠ .publishSessionLoad load) : LoadsOf shard (e :: os) := by
  intro load hl
  rcases List.mem_cons.mp hl with hl | hl
  · exact absurd hl.symm (he load)
  · exact h load hl

omit [Runtime] in
theorem loadsOf_of_commands {shard : ShardId}
    (h : ∀ load, .publishSessionLoad load ∉ commands os) : LoadsOf shard os := by
  intro load hl
  exact absurd (List.mem_flatMap.mpr ⟨_, hl, List.mem_singleton_self _⟩) (h load)

omit [Runtime] in
theorem report_loads (s : Server) : LoadsOf s.self.shardId s.report := by
  intro load hl
  simp only [Server.report, List.mem_cons, Effect.publishSessionLoad.injEq, reduceCtorEq,
    List.not_mem_nil, or_false] at hl
  rw [hl]
  rfl

omit [Runtime] in
theorem transition_loads {shard : ShardId} {room u : Room} {inside : RoomInput}
    (h : Transition env room inside u os) : LoadsOf shard os := by
  refine loadsOf_of_commands fun load hl => ?_
  rcases transition_commands h with ⟨hnone, -⟩ | hsync
  · rw [hnone] at hl
    cases hl
  · rw [hsync] at hl
    simp [syncCommands] at hl

omit [Runtime] in
theorem enter_loads {call : JoinCall} {identity : Option Identity} {roomId : RoomId} {room : Room}
    (h : s.enter env call identity roomId room = .ok (t, os)) : LoadsOf s.self.shardId os := by
  unfold Server.enter at h
  split_ifs at h with hf
  · cases h
    exact loadsOf_of_commands fun load hl => by cases hl
  · obtain ⟨nickname, -, h⟩ := bind_eq_ok.mp h
    cases h
    refine (LoadsOf.cons ?_ fun load he => by cases he).append ?_
    · exact report_loads _
    · refine loadsOf_of_commands fun load hl => ?_
      rw [commands_welcome] at hl
      cases hl

omit [Runtime] in
theorem afterAssignment_loads {call : JoinCall} {identity : Option Identity} {roomId : RoomId}
    {answer : Bool} (h : s.afterAssignment env call identity roomId answer = .ok (t, os)) :
    LoadsOf s.self.shardId os := by
  unfold Server.afterAssignment at h
  split_ifs at h with hanswer hopen
  · cases h
    exact loadsOf_of_commands fun load hl => by cases hl
  · cases h
    exact loadsOf_of_commands fun load hl => by cases hl
  · have hself : (s.getOrCreate roomId).1.self = s.self := by
      unfold Server.getOrCreate
      split <;> rfl
    rw [← hself]
    exact enter_loads h

theorem resume_loads {socket : SocketId} (h : s.resume env socket = some (t, os)) :
    LoadsOf s.self.shardId os := by
  obtain ⟨w, -, h⟩ := Option.bind_eq_some_iff.mp h
  obtain ⟨x, hx, h⟩ := Option.bind_eq_some_iff.mp h
  have hok := toOption_eq_some h
  change LoadsOf (s.without socket).self.shardId os
  cases w with
  | assignment call identity roomId answer =>
    cases answer with
    | none => cases hx
    | some answer =>
      obtain rfl := Option.some.inj hx
      exact afterAssignment_loads hok
  | identity call =>
    obtain rfl := Option.some.inj hx
    obtain ⟨identity, -, hok⟩ := bind_eq_ok.mp hok
    split_ifs at hok with hopen
    · cases hok
      exact loadsOf_of_commands fun load hl => by cases hl
    · obtain ⟨text, -, hok⟩ := bind_eq_ok.mp hok
      dsimp only at hok
      split at hok
      · exact enter_loads hok
      · cases hok
        exact loadsOf_of_commands fun load hl => by simp [commands, Command.ofEffect] at hl

theorem message_loads {c : Connection} {raw : Option Json}
    (hrun : ∀ room ∈ s.rooms.rows, room.Coherent)
    (h : s.handleMessage env c raw = .ok (t, os)) : LoadsOf s.self.shardId os := by
  have hnone : LoadsOf s.self.shardId [] := fun _ hl => by cases hl
  cases raw with
  | none =>
    cases h
    exact hnone
  | some message =>
    obtain ⟨type, -, h⟩ := bind_eq_ok.mp h
    split_ifs at h with hjoin
    · cases h
      exact hnone
    · rcases handleMember_eq s env c message with ⟨room, id, hm, he⟩ | ⟨-, he⟩
      · obtain ⟨x, hx, hok⟩ := bind_eq_ok.mp (he.symm.trans h)
        cases hok
        rcases memberMessage_cases hx with ⟨-, hos⟩ | ⟨inside, -, hstep⟩
        · rw [hos]
          exact hnone
        · exact transition_loads
            (roomStep_transition (hrun room (get?_eq_some.mp hm.held).1) hstep)
      · cases he.symm.trans h
        exact hnone

omit [Runtime] in
theorem close_loads {c : Connection} (hrun : ∀ room ∈ s.rooms.rows, room.Coherent)
    (h : s.close env c = (t, os)) : LoadsOf s.self.shardId os := by
  have hnone : LoadsOf s.self.shardId [] := fun _ hl => by cases hl
  unfold Server.close Server.handleClose at h
  split at h
  · split_ifs at h with hnil
    · cases h
      exact hnone
    · rename_i roomId playerId _ _
      cases hroom : (s.markClosed c.socket).rooms.get? roomId with
      | none =>
        rw [hroom] at h
        cases h
        exact hnone
      | some room =>
        rw [hroom] at h
        cases hl : leaveRoom ((s.markClosed c.socket).see env) room playerId with
        | mk left ls =>
          have hleft : LoadsOf s.self.shardId ls :=
            transition_loads (leaveRoom_cases (hrun room (get?_eq_some.mp hroom).1) hl)
          dsimp only at h
          rw [hl] at h
          unfold Server.removeIfEmpty at h
          dsimp only at h
          split_ifs at h with hsize
          · cases h
            exact hleft.append ((report_loads _).cons fun load he => by cases he)
          · cases h
            exact hleft.append ((report_loads _).cons fun load he => by cases he)
  · cases h
    exact hnone

theorem handle_loads (hrun : ∀ room ∈ s.rooms.rows, room.Coherent)
    (h : s.handle env input = some (t, os)) : LoadsOf s.self.shardId os := by
  have hnone : LoadsOf s.self.shardId [] := fun _ hl => by cases hl
  cases input with
  | connect socket identity =>
    obtain ⟨u, -, he⟩ := Option.map_eq_some_iff.mp h
    cases he
    exact hnone
  | message socket raw =>
    obtain ⟨c, hc, hm⟩ := Option.bind_eq_some_iff.mp h
    exact message_loads hrun (toOption_eq_some hm)
  | resume socket => exact resume_loads h
  | settle socket roomId answer =>
    cases h
    exact hnone
  | leaveOpen socket =>
    cases h
    exact hnone
  | close socket =>
    obtain ⟨c, -, hm⟩ := Option.map_eq_some_iff.mp h
    exact close_loads hrun hm
  | timer roomId id =>
    obtain ⟨room, hroom, hm⟩ := Option.bind_eq_some_iff.mp h
    obtain ⟨x, hx, he⟩ := Option.map_eq_some_iff.mp hm
    cases he
    obtain rfl := (get?_eq_some.mp hroom).2
    have hstep : roomStep (s.see env) room (.timer id) = some x := hx
    exact transition_loads (roomStep_transition (hrun room (get?_eq_some.mp hroom).1) hstep)
  | heartbeat =>
    cases h
    refine LoadsOf.append (fun load hl => ?_) (report_loads s)
    obtain ⟨room, -, he⟩ := List.mem_map.mp hl
    cases he

end

/-! ### Refreshes of a process -/

section
variable [Runtime] {p q : Process} {env : Env} {input : ServerInput} {os : List Effect}
  {key : RedisKey}

theorem step_handle {s t : Server} (h : s.step (env, input) = some (t, os)) :
    ∃ u, s.handle env input = some (u, os) ∧ t.rooms = u.rooms ∧ t.self = u.self := by
  simp only [Server.step] at h
  split_ifs at h with hu
  obtain ⟨r, hr, he⟩ := Option.map_eq_some_iff.mp h
  cases he
  exact ⟨r.1, hr, rfl, rfl⟩

theorem step_self {s t : Server} (h : s.step (env, input) = some (t, os)) : t.self = s.self := by
  obtain ⟨u, hu, -, hself⟩ := step_handle h
  exact hself.trans (serverStep_self (handle_cases hu))

/-- A key that a process begins to keep is refreshed at once. -/
theorem begun_reported (hrun : ∀ room ∈ p.server.rooms.rows, room.Coherent)
    (h : p.server.step (env, input) = some (q.server, os)) (hp : p.keeps key = false)
    (hq : q.keeps key = true) : ∃ e ∈ os, reports e = some key := by
  obtain ⟨u, hu, hrooms, hself⟩ := step_handle h
  cases key with
  | room roomId =>
    rw [← Bool.not_eq_true, keeps_room] at hp
    rw [keeps_room, hrooms] at hq
    exact opened_reported hrun hu hp hq
  | session shard =>
    rw [← Bool.not_eq_true, keeps_session] at hp
    rw [keeps_session, Process.shard, step_self h] at hq
    exact absurd hq hp

/-- A key is refreshed only if the process keeps it before the step or after it. -/
theorem reported_kept (hrun : ∀ room ∈ p.server.rooms.rows, room.Coherent)
    (h : p.server.step (env, input) = some (q.server, os)) (he : ∃ e ∈ os, reports e = some key) :
    p.keeps key = true ∨ q.keeps key = true := by
  obtain ⟨u, hu, hrooms, hself⟩ := step_handle h
  cases key with
  | room roomId =>
    rw [keeps_room, keeps_room, hrooms]
    exact reported_held (handle_cases hu) he
  | session shard =>
    obtain ⟨e, he, hr⟩ := he
    left
    cases e with
    | publishSessionLoad load =>
      obtain rfl : load.shard = shard := by simpa [reports] using hr
      exact keeps_session.mpr (handle_loads hrun hu load he)
    | syncOccupancy roomId projection => simp [reports] at hr
    | _ => cases hr

/-- A heartbeat refreshes every key that the process keeps. -/
theorem heartbeat_reports {t : Server}
    (h : p.server.step (env, .heartbeat) = some (t, os)) (hk : p.keeps key = true) :
    ∃ e ∈ os, reports e = some key := by
  obtain ⟨u, hu, -, -⟩ := step_handle h
  cases hu
  cases key with
  | room roomId =>
    obtain ⟨room, hroom, rfl⟩ := mem_keys.mp (keeps_room.mp hk)
    refine ⟨syncOccupancy (p.server.see env) room, ?_, rfl⟩
    exact List.mem_append_left _ (List.mem_map_of_mem hroom)
  | session shard =>
    obtain rfl := keeps_session.mp hk
    refine ⟨.publishSessionLoad p.server.sessionLoad, ?_, rfl⟩
    exact List.mem_append_right _ List.mem_cons_self

end

end GachaMind.Timed
