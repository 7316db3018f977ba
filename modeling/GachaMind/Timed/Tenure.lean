import GachaMind.Timed.Upkeep

/-!
# Rooms stay with their shard while heartbeats are in time

With a clock, only two events can take a record away from the shard that claims it: a close
callback, and an expiry that falls on a join, between the check of the code and the first
report of the room that the join opens. Without these the cluster follows the rules of `Lease`.
-/

namespace GachaMind.Timed
open GachaMind.Js GachaMind.Shared GachaMind.GameSession KeyedTable Refresh

/-! ### Claims -/

def TimedCommand.syncs : TimedCommand → Option RoomId
  | .data c => c.syncs
  | .expire _ => none

/-- A running process claims the codes of its rooms and of the joins it has let in; what is on
its way claims the codes it reports, even if the process is dead. -/
def Process.Claims (p : Process) (roomId : RoomId) : Prop :=
  (p.died = none ∧ Server.Claims p.server roomId) ∨ ∃ c ∈ p.pipe, c.2.syncs = some roomId

instance (p : Process) (roomId : RoomId) : Decidable (p.Claims roomId) :=
  inferInstanceAs (Decidable (_ ∨ _))

namespace TimedCluster

def lease (w : TimedCluster) : Lease.State RoomId ShardId where
  owner roomId := (w.redis.room roomId).shard
  claims shard := {roomId | ∃ p ∈ w.processes.get? shard, p.Claims roomId}

/-- The shard that the record of a code names does not claim the code. -/
def RecordFree (w : TimedCluster) (roomId : RoomId) : Prop :=
  ∀ shard ∈ (w.redis.room roomId).shard, ∀ p ∈ w.processes.get? shard, ¬ p.Claims roomId

instance (w : TimedCluster) (roomId : RoomId) : Decidable (w.RecordFree roomId) :=
  inferInstanceAs (Decidable (∀ shard ∈ (w.redis.room roomId).shard, _))

end TimedCluster

/-- The shard that the record of a code names is not letting anyone into a room of that code: no
join waits that passed the check, and the room was not opened just now. -/
def NoneEntering (t : Timing) (w : TimedCluster) (g : Seen) (roomId : RoomId) : Prop :=
  ∀ shard ∈ (w.redis.room roomId).shard, ∀ p ∈ w.processes.get? shard,
    (p.died = none → ∀ x ∈ p.server.waiting, x.granted ≠ some roomId) ∧
      ∀ o ∈ g.since shard (.room roomId), o + t.delay < w.now

instance (t : Timing) (w : TimedCluster) (g : Seen) (roomId : RoomId) :
    Decidable (NoneEntering t w g roomId) :=
  inferInstanceAs (Decidable (∀ shard ∈ (w.redis.room roomId).shard, _))

/-- A close callback strikes no record that is claimed, and no expiry falls on a join. -/
def Spares [Runtime] (t : Timing) (w : TimedCluster) (g : Seen) : TimedInput → Prop
  | .deliver roomId => w.RecordFree (normalizeRoomCode roomId)
  | .expire (.room roomId) => NoneEntering t w g roomId
  | _ => True

instance [Runtime] (t : Timing) (w : TimedCluster) (g : Seen) :
    ∀ input, Decidable (Spares t w g input)
  | .deliver roomId => inferInstanceAs (Decidable (w.RecordFree (normalizeRoomCode roomId)))
  | .expire (.room roomId) => inferInstanceAs (Decidable (NoneEntering t w g roomId))
  | .expire (.session _) | .tick _ | .start _ | .process _ _ _ | .redis _ _ | .crash _ _
  | .pick _ | .assign _ _ | .unindex _ => inferInstanceAs (Decidable True)

/-- Besides, nothing is overdue. -/
def Orderly [Runtime] (t : Timing) (w : TimedCluster) (g : Seen) (input : TimedInput) : Prop :=
  InTime t w input ∧ Spares t w g input

instance [Runtime] (t : Timing) (w : TimedCluster) (g : Seen) (input : TimedInput) :
    Decidable (Orderly t w g input) := inferInstanceAs (Decidable (_ ∧ _))

/-! ### An expiry leaves what is claimed alone -/

section
variable {t : Timing} {w v : TimedCluster} {g : Seen} {p : Process} {roomId : RoomId}

theorem Whole.expire_mem {pipe : List (ℕ × TimedCommand)} (h : Whole pipe) {x : ℕ} {c : Command}
    {key : RedisKey} (hc : (x, .data c) ∈ pipe) (hw : writes c = some key) :
    (x, .expire key) ∈ pipe := by
  induction h with
  | nil => cases hc
  | plain hn _ ih =>
    rcases List.mem_cons.mp hc with he | hc
    · cases he
      cases hn.symm.trans hw
    · exact List.mem_cons_of_mem _ (ih hc)
  | pair hn _ ih =>
    rcases List.mem_cons.mp hc with he | hc
    · cases he
      obtain rfl := Option.some.inj (hn.symm.trans hw)
      exact List.mem_cons_of_mem _ List.mem_cons_self
    · rcases List.mem_cons.mp hc with he | hc
      · cases he
      · exact List.mem_cons_of_mem _ (List.mem_cons_of_mem _ (ih hc))

theorem InFlight.expire_mem {keys : RedisKey → Key} {pipe : List (ℕ × TimedCommand)}
    (h : InFlight keys pipe) {x : ℕ} {c : Command} {key : RedisKey} (hc : (x, .data c) ∈ pipe)
    (hw : writes c = some key) : (x, .expire key) ∈ pipe := by
  rcases h with h | ⟨y, l, rest, rfl, -, h⟩
  · exact h.expire_mem hc hw
  · rcases List.mem_cons.mp hc with he | hc
    · cases he
    · exact List.mem_cons_of_mem _ (h.expire_mem hc hw)

theorem syncs_writes {c : TimedCommand} (h : c.syncs = some roomId) :
    ∃ d, c = .data d ∧ writes d = some (.room roomId) := by
  cases c with
  | expire key => cases h
  | data d =>
    refine ⟨d, rfl, ?_⟩
    cases d with
    | recordRoom l projection =>
      obtain rfl := Option.some.inj h
      rfl
    | _ => cases h

theorem ready_of_deadline {key : RedisKey} (h : ∀ d ∈ w.deadline key, w.now ≤ d) :
    w.ready key = true := by
  unfold TimedCluster.ready
  cases hd : w.deadline key with
  | none => rfl
  | some d => exact decide_eq_true (h d hd)

/-- What a process claims and did not begin to keep just now has not passed its deadline. -/
theorem Sound.ready (h : Sound t w g p) (hsmall : t.period + t.delay ≤ ttl)
    (hc : p.Claims roomId)
    (hwait : p.died = none → ∀ x ∈ p.server.waiting, x.granted ≠ some roomId)
    (hold : ∀ o ∈ g.since p.shard (.room roomId), o + t.delay < w.now) :
    w.ready (.room roomId) = true := by
  have hdue : ∀ x ∈ refreshes (.room roomId) p.pipe, w.now ≤ x + t.delay :=
    fun x hx => h.commands _ (mem_refreshes.mp hx)
  refine ready_of_deadline ?_
  rcases hc with ⟨hd, hk | ⟨x, hx, hg⟩⟩ | ⟨⟨x, c⟩, hmem, hsync⟩
  · obtain ⟨o, ho, hkept⟩ := (h.upheld (.room roomId)).kept hd (keeps_room.mpr hk)
    exact (hkept.alive (fun _ => h.beats hd) hdue hsmall (hold o ho)).1
  · exact absurd hg (hwait hd x hx)
  · obtain ⟨d, rfl, hw⟩ := syncs_writes hsync
    have hx : x ∈ refreshes (.room roomId) p.pipe :=
      mem_refreshes.mpr (h.pipe.expire_mem hmem hw)
    have hne : refreshes (.room roomId) p.pipe ≠ [] := List.ne_nil_of_mem hx
    cases ho : g.since p.shard (.room roomId) with
    | none => exact absurd ((h.upheld _).issued ho) hne
    | some o =>
      have hlate := hold o ho
      rcases (h.upheld _).loose o ho with hbefore | hkept
      · have hxo := hbefore x hx
        have hxd := hdue x hx
        omega
      · exact (hkept.alive (fun hnil => absurd hnil hne) hdue hsmall hlate).1

end

/-! ### The cluster follows the rules -/

/-- Every projection on its way bears the name of its process. -/
def Process.Named (p : Process) : Prop :=
  ∀ x roomId projection, (x, .data (.recordRoom roomId projection)) ∈ p.pipe →
    projection.shard = p.shard

structure Owned (w : TimedCluster) : Prop where
  named : ∀ p ∈ w.processes.rows, p.Named
  backed : w.lease.Backed

section
variable {t : Timing} {w v : TimedCluster} {g : Seen} {p : Process} {roomId : RoomId}

theorem claims_set {q : Process} (hv : v.processes = w.processes.set q)
    {shard : ShardId} (hc : roomId ∈ v.lease.claims shard) :
    (shard = q.shard ∧ q.Claims roomId) ∨ (shard ≠ q.shard ∧ roomId ∈ w.lease.claims shard) := by
  obtain ⟨p, hp, hc⟩ := hc
  rw [hv, get?_set] at hp
  split_ifs at hp with hs
  · obtain rfl := Option.some.inj hp
    exact .inl ⟨hs, hc⟩
  · exact .inr ⟨hs, p, hp, hc⟩

/-- The claims of the other processes stay, so only the new ones of `q` matter. -/
theorem claims_subset {q : Process} (hp : w.processes.get? p.shard = some p)
    (hv : v.processes = w.processes.set q) (hs : q.shard = p.shard)
    (hq : ∀ roomId, q.Claims roomId → p.Claims roomId) (shard : ShardId) :
    v.lease.claims shard ⊆ w.lease.claims shard := by
  intro l hl
  rcases claims_set hv hl with ⟨rfl, hc⟩ | ⟨-, hc⟩
  · exact ⟨p, hs ▸ hp, hq l hc⟩
  · exact hc

theorem claims_congr (hv : v.processes = w.processes) (shard : ShardId) :
    v.lease.claims shard ⊆ w.lease.claims shard := by
  intro l hl
  rwa [TimedCluster.lease, hv] at hl

theorem Process.Claims.pop {x : ℕ} {c : TimedCommand} {pipe : List (ℕ × TimedCommand)}
    (hq : p.pipe = (x, c) :: pipe) (h : Process.Claims { p with pipe := pipe } roomId) :
    p.Claims roomId := by
  rcases h with h | ⟨d, hd, hs⟩
  · exact .inl h
  · exact .inr ⟨d, hq ▸ List.mem_cons_of_mem _ hd, hs⟩

theorem syncs_stamp {now x : ℕ} {os : List Effect} {c : TimedCommand}
    (hc : (x, c) ∈ stamp now os) (hs : c.syncs = some roomId) :
    ∃ projection, .syncOccupancy roomId projection ∈ os ∧
      c = .data (.recordRoom roomId projection) := by
  obtain ⟨d, hd, he⟩ := List.mem_map.mp hc
  cases he
  obtain ⟨e, he, hd⟩ := List.mem_flatMap.mp hd
  cases e with
  | syncOccupancy l projection =>
    simp only [timedCommands, List.mem_cons, List.not_mem_nil, or_false] at hd
    rcases hd with rfl | rfl | rfl
    · obtain rfl := Option.some.inj hs
      exact ⟨projection, he, rfl⟩
    · cases hs
    · cases hs
  | publishSessionLoad load =>
    simp only [timedCommands, List.mem_cons, List.not_mem_nil, or_false] at hd
    rcases hd with rfl | rfl <;> cases hs
  | checkAssigned socket l =>
    obtain rfl := List.mem_singleton.mp hd
    cases hs
  | _ => cases hd

theorem owner_advance (w : TimedCluster) (a : Assign) (code : RoomId) :
    (w.advance a code).lease.owner = w.lease.owner ∨
      w.lease.owner code = none ∧
        (w.advance a code).lease.owner = Function.update w.lease.owner code (some a.shard) := by
  unfold TimedCluster.advance
  split
  · cases hr : (w.redis.room code).shard with
    | some owner =>
      left
      have hsame : (w.redis.claimRoomCode code a.shard).1 = w.redis := by
        simp [Redis.claimRoomCode, hr]
      exact congrArg (fun r k => (r.room k).shard) hsame
    | none =>
      refine .inr ⟨hr, funext fun k => ?_⟩
      rw [Function.update_apply]
      exact Redis.shard_claimRoomCode _ _ _ _ hr
  · left
    exact congrArg (fun r k => (r.room k).shard) (redis_expireKeyNew _ _)
  · exact .inl (funext fun k => Redis.shard_reserve _ _ _)
  · exact .inl (congrArg (fun r k => (r.room k).shard) (redis_expireKey _ _))

variable [Runtime] {input : TimedInput} {os : List Effect}

/-- Redis runs a command of the process `p`. -/
theorem data_lease {env : Env} {x : ℕ} {c : Command} {pipe : List (ℕ × TimedCommand)} {s : Server}
    (h : Owned w) (hp : w.processes.get? p.shard = some p) (hq : p.pipe = (x, .data c) :: pipe)
    (ha : TimedCluster.answer w.redis p env c = some (s, os))
    (hv : v.processes = w.processes.set { p with server := s, pipe := pipe })
    (hr : v.redis = JoinableIndex.runCommand w.redis c) : Lease.Step w.lease v.lease := by
  have hshard : ({ p with server := s, pipe := pipe } : Process).shard = p.shard := by
    rw [Process.shard, (answer_frame ha).2, Process.shard]
  have howner : ∀ k, v.lease.owner k = ((JoinableIndex.runCommand w.redis c).room k).shard :=
    fun k => by rw [← hr]; rfl
  cases c with
  | recordRoom roomId projection =>
    cases ha
    have hmem : (x, .data (.recordRoom roomId projection)) ∈ p.pipe := hq ▸ List.mem_cons_self
    refine .refresh (a := p.shard) (k := roomId) ⟨p, hp, .inr ⟨_, hmem, rfl⟩⟩
      (claims_subset hp hv rfl fun _ hc => hc.pop hq) (funext fun k => ?_)
    rw [howner, Function.update_apply,
      ← h.named p (get?_eq_some.mp hp).1 x roomId projection hmem]
    exact Redis.shard_recordRoom _ _ _ _
  | indexRoom roomId full =>
    cases ha
    exact .drop (claims_subset hp hv rfl fun _ hc => hc.pop hq) (funext howner)
  | publishSessionLoad load =>
    cases ha
    exact .drop (claims_subset hp hv rfl fun _ hc => hc.pop hq) (funext howner)
  | checkAssigned socket roomId =>
    unfold TimedCluster.answer at ha
    split_ifs at ha with hd
    · cases ha
      exact .drop (claims_subset hp hv rfl fun _ hc => hc.pop hq) (funext howner)
    · obtain ⟨rfl, -⟩ := step_settle ha
      have hgain : ∀ shard l, l ∈ v.lease.claims shard → l ∈ w.lease.claims shard ∨
          (w.redis.isRoomAssignedHere p.shard roomId = true ∧ shard = p.shard ∧ l = roomId) := by
        intro shard l hl
        rcases claims_set hv hl with ⟨rfl, hc⟩ | ⟨-, hc⟩
        · rcases hc with ⟨hd', hc⟩ | hc
          · have hserver : Server.Claims (p.server.settle socket roomId
                (w.redis.isRoomAssignedHere p.shard roomId)) l := hc
            rcases settle_claims hserver with hc | ⟨hyes, hl⟩
            · exact .inl ⟨p, hp, .inl ⟨hd', hc⟩⟩
            · exact .inr ⟨hyes, rfl, hl⟩
          · exact .inl ⟨p, hp, Process.Claims.pop hq (.inr hc)⟩
        · exact .inl hc
      cases hyes : w.redis.isRoomAssignedHere p.shard roomId with
      | false =>
        refine .drop (fun shard l hl => ?_) (funext howner)
        exact (hgain shard l hl).resolve_right fun hno => by simp [hyes] at hno
      | true =>
        exact .check (of_decide_eq_true hyes)
          (fun shard l hl => (hgain shard l hl).imp_right And.right) (funext howner)

theorem timedStep_lease (hsmall : t.period + t.delay ≤ ttl) (hi : Inv t w g)
    (hrun : ∀ p ∈ w.processes.rows, ∀ room ∈ p.server.rooms.rows, RoomRun p.server.issued room)
    (h : Owned w) (hok : Spares t w g input) (hs : TimedStep w input v os) :
    Lease.Step w.lease v.lease := by
  cases hs with
  | tick _ => exact .drop (fun _ => subset_rfl) rfl
  | @start identity hnew =>
    refine .drop (fun shard l hl => ?_) rfl
    rcases claims_set rfl hl with ⟨-, hc⟩ | ⟨-, hc⟩
    · rcases hc with ⟨-, hk | ⟨x, hx, -⟩⟩ | ⟨c, hc, hsync⟩
      · cases hk
      · cases hx
      · obtain ⟨projection, hmem, -⟩ := syncs_stamp hc hsync
        simp at hmem
    · exact hc
  | @process p env input s os hp hd hi' hstep =>
    obtain ⟨hself, hclaims, hsyncs⟩ :=
      process_claims (hrun p (get?_eq_some.mp hp).1) hi' hstep
    refine .drop (claims_subset hp rfl ?_ fun l hc => ?_) rfl
    · rw [Process.shard, hself, Process.shard]
    · rcases hc with ⟨-, hc⟩ | ⟨c, hc, hsync⟩
      · exact .inl ⟨hd, hclaims l hc⟩
      · rcases List.mem_append.mp hc with hc | hc
        · exact .inr ⟨c, hc, hsync⟩
        · obtain ⟨projection, hmem, -⟩ := syncs_stamp hc hsync
          exact .inl ⟨hd, (hsyncs l projection hmem).1⟩
  | @refresh p env x l pipe hp hq hr =>
    refine .drop (claims_subset hp (proc_expireKey _ _).1 rfl fun _ hc => hc.pop hq) ?_
    exact congrArg (fun r k => (r.room k).shard) (redis_expireKey _ _)
  | data hp hq _ ha => exact data_lease h hp hq ha rfl rfl
  | @crash p n hp hd hcut =>
    refine .drop (claims_subset hp rfl rfl fun l hc => ?_) rfl
    rcases hc with ⟨hd, -⟩ | ⟨c, hc, hsync⟩
    · cases hd
    · exact .inr ⟨c, List.mem_of_mem_take hc, hsync⟩
  | pick _ _ => exact .drop (fun _ => subset_rfl) rfl
  | @assign a code ha hr =>
    have hclaims := claims_congr (advance_frame { w with assigns := w.assigns.erase a } a code).1
    rcases owner_advance { w with assigns := w.assigns.erase a } a code with ho | ⟨hnone, ho⟩
    · exact .drop hclaims ho
    · exact .take hnone hclaims ho
  | @deliver roomId _ =>
    refine .strike (k := normalizeRoomCode roomId) (fun shard hc => ?_) (fun _ => subset_rfl)
      (funext fun k => ?_)
    · obtain ⟨p, hp, hclaim⟩ := hc
      exact hok shard (h.backed shard _ ⟨p, hp, hclaim⟩) p hp hclaim
    · rw [Function.update_apply]
      exact Redis.shard_expireRoom _ _ _
  | unindex _ => exact .drop (fun _ => subset_rfl) rfl
  | @expire key hr =>
    cases key with
    | session shard => exact .drop (fun _ => subset_rfl) rfl
    | room roomId =>
      refine .strike (k := roomId) (fun shard hc => ?_) (fun _ => subset_rfl) (funext fun k => ?_)
      · obtain ⟨p, hp, hclaim⟩ := hc
        obtain ⟨hwait, hold⟩ := hok shard (h.backed shard _ ⟨p, hp, hclaim⟩) p hp
        obtain ⟨hmem, rfl⟩ := get?_eq_some.mp hp
        have hready := (hi.processes p hmem).ready hsmall hclaim hwait hold
        cases hr.symm.trans hready
      · rw [Function.update_apply]
        exact Redis.shard_expireRoom _ _ _

omit [Runtime] in
theorem Owned.same (h : Owned w) (hv : v.processes = w.processes) (hb : v.lease.Backed) :
    Owned v := ⟨hv ▸ h.named, hb⟩

omit [Runtime] in
theorem Owned.set {q : Process} (h : Owned w) (hv : v.processes = w.processes.set q)
    (hq : q.Named) (hb : v.lease.Backed) : Owned v where
  named p hp := by
    rw [hv, mem_rows_set] at hp
    rcases hp with rfl | ⟨hp, -⟩
    · exact hq
    · exact h.named p hp
  backed := hb

omit [Runtime] in
theorem Process.Named.pop {q : Process} (h : p.Named) (hs : q.shard = p.shard)
    (hq : ∀ c ∈ q.pipe, c ∈ p.pipe) : q.Named :=
  fun x roomId projection hm => (h x roomId projection (hq _ hm)).trans hs.symm

theorem timedStep_owned (hsmall : t.period + t.delay ≤ ttl) (hi : Inv t w g)
    (hrun : ∀ p ∈ w.processes.rows, ∀ room ∈ p.server.rooms.rows, RoomRun p.server.issued room)
    (h : Owned w) (hok : Spares t w g input) (hs : TimedStep w input v os) : Owned v := by
  have hb := (timedStep_lease hsmall hi hrun h hok hs).backed h.backed
  cases hs with
  | tick _ => exact h.same rfl hb
  | @start identity _ =>
    refine h.set rfl (fun x roomId projection hm => ?_) hb
    obtain ⟨c, hc, -⟩ := syncs_stamp hm rfl
    simp at hc
  | @process p env input s os hp _ hi' hstep =>
    have hmem := (get?_eq_some.mp hp).1
    obtain ⟨hself, -, hsyncs⟩ := process_claims (hrun p hmem) hi' hstep
    refine h.set rfl (fun x roomId projection hm => ?_) hb
    have hname : projection.shard = p.shard := by
      rcases List.mem_append.mp hm with hm | hm
      · exact h.named p hmem x roomId projection hm
      · obtain ⟨proj, hc, he⟩ := syncs_stamp hm rfl
        cases he
        exact (hsyncs roomId projection hc).2
    rw [hname, Process.shard, Process.shard, hself]
  | @refresh p _ _ l pipe hp hq _ =>
    have hmem := (get?_eq_some.mp hp).1
    refine h.set (proc_expireKey (w.setProcess { p with pipe := pipe }) l).1 ?_ hb
    exact (h.named p hmem).pop rfl fun c hc => hq ▸ List.mem_cons_of_mem _ hc
  | @data p _ _ _ pipe _ _ hp hq _ ha =>
    have hmem := (get?_eq_some.mp hp).1
    refine h.set rfl ((h.named p hmem).pop ?_ fun c hc => hq ▸ List.mem_cons_of_mem _ hc) hb
    rw [Process.shard, (answer_frame ha).2, Process.shard]
  | @crash p _ hp _ _ =>
    have hmem := (get?_eq_some.mp hp).1
    exact h.set rfl ((h.named p hmem).pop rfl fun c hc => List.mem_of_mem_take hc) hb
  | pick _ _ => exact h.same rfl hb
  | @assign a code _ _ =>
    exact h.same (advance_frame { w with assigns := w.assigns.erase a } a code).1 hb
  | deliver _ => exact h.same rfl hb
  | unindex _ => exact h.same rfl hb
  | expire _ => exact h.same rfl hb

end

/-! ### Runs -/

section
variable [Runtime]

def orderlySystem (t : Timing) : Machine.System (TimedCluster × Seen) TimedInput Effect :=
  (timedSystem.observe unseen Seen.record).restrict fun s => Orderly t s.1 s.2

theorem kept_of_orderly {t : Timing} {s : TimedCluster × Seen}
    (hr : Machine.Reachable (orderlySystem t) s) : Machine.Reachable (keptSystem t) s := by
  obtain ⟨is, os, hr⟩ := hr
  exact ⟨is, os, hr.restrict_mono fun _ _ _ h => h.1⟩

theorem timed_owned {t : Timing} (hsmall : t.period + t.delay ≤ ttl) {s : TimedCluster × Seen}
    (hr : Machine.Reachable (orderlySystem t) s) : Owned s.1 := by
  refine hr.invariant_of (J := fun s => Inv t s.1 s.2 ∧ ∀ p ∈ s.1.processes.rows,
    ∀ room ∈ p.server.rooms.rows, RoomRun p.server.issued room) (I := fun s => Owned s.1) ?_ ?_ ?_
  · intro s hs
    refine ⟨timed_inv (kept_of_orderly hs), fun p hp => ?_⟩
    exact server_room_reachable (timed_servers hs.of_observe_restrict p hp)
  · intro s hs
    obtain ⟨hs, -⟩ := hs
    change s.1 = newTimedCluster at hs
    rw [hs]
    refine ⟨fun p hp => (by cases hp), fun shard roomId hc => ?_⟩
    obtain ⟨p, hp, -⟩ := hc
    cases hp
  · intro s i v os hj h hs
    obtain ⟨⟨-, hok⟩, hstep, -⟩ := hs
    exact timedStep_owned hsmall hj.1 hj.2 h hok (timed_step hstep)

/-- If heartbeats and commands are in time, no close callback strikes a claimed record and no
expiry falls on a join, then no two running processes hold a room of one code, and every room
that a running process holds has its record, under the name of that process. -/
theorem rooms_unsplit_in_time (t : Timing) (hsmall : t.period + t.delay ≤ ttl) (w : TimedCluster)
    (g : Seen) (hr : Machine.Reachable (orderlySystem t) (w, g)) :
    ∀ p ∈ w.processes.rows, p.died = none → ∀ roomId ∈ p.server.rooms.keys,
      (w.redis.room roomId).shard = some p.shard ∧
        ∀ q ∈ w.processes.rows, q.died = none → roomId ∈ q.server.rooms.keys → q = p := by
  intro p hp hd roomId hk
  have howned := timed_owned hsmall hr
  have hclaim : ∀ q ∈ w.processes.rows, q.died = none → roomId ∈ q.server.rooms.keys →
      roomId ∈ w.lease.claims q.shard :=
    fun q hq hdq hkq => ⟨q, get?_of_mem hq, .inl ⟨hdq, .inl hkq⟩⟩
  refine ⟨howned.backed p.shard roomId (hclaim p hp hd hk), fun q hq hdq hkq => ?_⟩
  exact rows_inj hq hp
    (howned.backed.exclusive (hclaim q hq hdq hkq) (hclaim p hp hd hk))

end

/-! ### Runs on fixed inputs -/

theorem eightySeconds_orderly : ∃ s os,
    Machine.Run (@orderlySystem plainRuntime calm) eightySeconds s os ∧
      ∃ p ∈ s.1.processes.rows, p.died = none ∧ utf16 "AB3DE" ∈ p.server.rooms.keys :=
  ⟨_, _, @Machine.exec_observe_restrict_run _ _ _ _ newTimedCluster
    (@TimedCluster.step plainRuntime) unseen (@Seen.record plainRuntime)
    (fun s => @Orderly plainRuntime calm s.1 s.2) _ eightySeconds (by decide +kernel),
    by decide +kernel⟩

theorem eightySeconds_unsplit : ∃ w g os,
    Machine.Run (@orderlySystem plainRuntime calm) eightySeconds (w, g) os ∧
      ∃ p ∈ w.processes.rows, (w.redis.room (utf16 "AB3DE")).shard = some p.shard ∧
        ∀ q ∈ w.processes.rows, q.died = none → utf16 "AB3DE" ∈ q.server.rooms.keys → q = p := by
  obtain ⟨⟨w, g⟩, os, hrun, p, hp, hd, hk⟩ := eightySeconds_orderly
  have hown := @rooms_unsplit_in_time plainRuntime calm (by decide) w g ⟨_, os, hrun⟩ p hp hd _ hk
  exact ⟨w, g, os, hrun, p, hp, hown⟩

end GachaMind.Timed
