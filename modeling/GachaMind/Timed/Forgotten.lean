import GachaMind.Timed.Upkeep

/-!
# What is left of a dead process

Every key that exists has a deadline, or the `EXPIRE` that gives it one is on its way. So the
load of a dead process is gone when its last report has run out, no new room is placed on it
any more, and a while later no record names it.
-/

namespace GachaMind.Timed
open GachaMind.Js GachaMind.Shared GachaMind.GameSession KeyedTable Refresh

/-! ### How a process goes on -/

/-- The next command of the process is the `EXPIRE` of the key, issued at `x`. -/
def Process.Waits (p : Process) (x : ℕ) (key : RedisKey) : Prop :=
  p.pipe.head? = some (x, .expire key)

/-- The process as it may be after a step in which Redis runs none of its commands. -/
inductive Process.Becomes (now : ℕ) (p : Process) : Process → Prop
  | rest : Process.Becomes now p p
  | issue {s : Server} {os : List Effect} {beat : ℕ} (hd : p.died = none)
      (hl : LoadsOf p.shard os)
      (hr : ∀ roomId projection, .syncOccupancy roomId projection ∈ os →
        projection.shard = p.shard)
      (hs : s.self = p.server.self) :
      Process.Becomes now p ⟨s, p.pipe ++ stamp now os, beat, none⟩
  | crash {n : ℕ} (hd : p.died = none)
      (hcut : ∀ c ∈ (p.pipe.drop n).head?, c.2.refreshes = none) :
      Process.Becomes now p { p with died := some now, pipe := p.pipe.take n }

section
variable {now x : ℕ} {p q : Process} {key : RedisKey}

theorem head_stamp {now : ℕ} {os : List Effect} {c : ℕ × TimedCommand}
    (h : (stamp now os).head? = some c) : c.2.refreshes = none := by
  have hw := whole_stamp now os
  generalize stamp now os = pipe at h hw
  cases hw with
  | nil => cases h
  | plain _ _ =>
    obtain rfl := Option.some.inj h
    rfl
  | pair _ _ =>
    obtain rfl := Option.some.inj h
    rfl

theorem Process.Becomes.shard (h : p.Becomes now q) : q.shard = p.shard := by
  cases h with
  | rest => rfl
  | issue _ _ _ hs => rw [Process.shard, hs, Process.shard]
  | crash _ _ => rfl

theorem Process.Becomes.waits_iff (h : p.Becomes now q) : q.Waits x key ↔ p.Waits x key := by
  cases h with
  | rest => exact Iff.rfl
  | @issue s os beat _ _ _ _ =>
    simp only [Process.Waits]
    cases hp : p.pipe with
    | cons c pipe => simp
    | nil =>
      rw [List.nil_append]
      refine ⟨fun h => ?_, fun h => by cases h⟩
      have hno := head_stamp h
      cases hno
  | @crash n _ hcut =>
    simp only [Process.Waits]
    cases n with
    | succ n => rw [List.head?_take, if_neg (Nat.succ_ne_zero n)]
    | zero =>
      refine ⟨fun h => by simp at h, fun h => ?_⟩
      rw [List.drop_zero, h] at hcut
      have hno := hcut _ rfl
      cases hno

theorem Process.Becomes.died (h : p.Becomes now q) {c : ℕ} (hc : c ∈ q.died) :
    c ∈ p.died ∨ p.died = none ∧ c = now := by
  cases h with
  | rest => exact .inl hc
  | issue _ _ _ _ => cases hc
  | crash hd _ => exact .inr ⟨hd, (Option.some.inj hc).symm⟩

end

/-- A step in which Redis runs no command of a process. -/
def Undisturbed (w v : TimedCluster) : Prop :=
  ∀ q ∈ v.processes.rows, (∃ p ∈ w.processes.rows, p.Becomes w.now q) ∨
    ∃ identity : ShardIdentity,
      identity.shardId ∉ w.processes.keys ∧ q = newProcess w.now identity

theorem undisturbed_set {w v : TimedCluster} {p q : Process} (hp : p ∈ w.processes.rows)
    (hv : v.processes = w.processes.set q) (h : p.Becomes w.now q) : Undisturbed w v := by
  intro r hr
  rw [hv, mem_rows_set] at hr
  rcases hr with rfl | ⟨hr, -⟩
  · exact .inl ⟨p, hp, h⟩
  · exact .inl ⟨r, hr, .rest⟩

theorem undisturbed_same {w v : TimedCluster} (hv : v.processes = w.processes) :
    Undisturbed w v :=
  fun r hr => .inl ⟨r, hv ▸ hr, .rest⟩

/-! ### Loads of dead processes -/

/-- The shard that a command names: in a record, in a load or in the key of a load. -/
def TimedCommand.session : TimedCommand → Option ShardId
  | .data (.recordRoom _ projection) => some projection.shard
  | .data (.publishSessionLoad load) => some load.shard
  | .expire (.session shard) => some shard
  | _ => none

structure Fading (t : Timing) (w : TimedCluster) : Prop where
  stamps : ∀ p ∈ w.processes.rows, ∀ c ∈ p.died, c ≤ w.now ∧ ∀ x ∈ p.pipe, x.1 ≤ c
  own : ∀ p ∈ w.processes.rows, ∀ x ∈ p.pipe, ∀ shard ∈ x.2.session, shard = p.shard
  near : ∀ key, ∀ d ∈ w.deadline key, d ≤ w.now + ttl
  bound : ∀ p ∈ w.processes.rows, ∀ c ∈ p.died, ∀ d ∈ w.deadline (.session p.shard),
    d ≤ c + t.delay + ttl
  owed : ∀ p ∈ w.processes.rows, holds w.redis (.session p.shard) = true →
    w.deadline (.session p.shard) = none → ∃ x, p.Waits x (.session p.shard)
  unknown : ∀ shard, shard ∉ w.processes.keys → holds w.redis (.session shard) = false
  picked : ∀ a ∈ w.assigns, ∀ p ∈ w.processes.rows, p.shard = a.shard → ∀ c ∈ p.died,
    a.since ≤ c + t.delay + ttl

section
variable {t : Timing} {w v : TimedCluster} {g : Seen} {p q : Process}

theorem ready_deadline {key : RedisKey} (h : w.ready key = true) {d : ℕ}
    (hd : d ∈ w.deadline key) : w.now ≤ d := by
  rw [TimedCluster.ready, Option.mem_def.mp hd] at h
  exact of_decide_eq_true h

theorem mem_of_waits {x : ℕ} {key : RedisKey} (h : p.Waits x key) : (x, .expire key) ∈ p.pipe :=
  List.mem_of_mem_head? h

/-- The load of a process that died is seen until its last report has run out, and no longer. -/
theorem Fading.seen (h : Fading t w) (hi : Inv t w g) (hp : p ∈ w.processes.rows) {c : ℕ}
    (hc : c ∈ p.died) (hh : holds w.redis (.session p.shard) = true)
    (hr : w.ready (.session p.shard) = true) : w.now ≤ c + t.delay + ttl := by
  cases hd : w.deadline (.session p.shard) with
  | some d => exact (ready_deadline hr hd).trans (h.bound p hp c hc d hd)
  | none =>
    obtain ⟨x, hx⟩ := h.owed p hp hh hd
    have hmem := mem_of_waits hx
    have hbefore := (h.stamps p hp c hc).2 _ hmem
    have hdue := (hi.processes p hp).commands _ hmem
    dsimp only at hbefore hdue
    omega

theorem Process.Becomes.stamps {now : ℕ} (hb : p.Becomes now q)
    (h : ∀ c ∈ p.died, c ≤ now ∧ ∀ x ∈ p.pipe, x.1 ≤ c) (hnow : ∀ x ∈ p.pipe, x.1 ≤ now) :
    ∀ c ∈ q.died, c ≤ now ∧ ∀ x ∈ q.pipe, x.1 ≤ c := by
  intro c hc
  cases hb with
  | rest => exact h c hc
  | issue _ _ _ _ => cases hc
  | crash _ _ =>
    obtain rfl := Option.some.inj hc
    exact ⟨le_rfl, fun x hx => hnow x (List.mem_of_mem_take hx)⟩

theorem session_stamp {now : ℕ} {shard l : ShardId} {os : List Effect} (hl : LoadsOf shard os)
    (hr : ∀ roomId projection, .syncOccupancy roomId projection ∈ os → projection.shard = shard)
    {x : ℕ × TimedCommand} (hx : x ∈ stamp now os) (hs : l ∈ x.2.session) : l = shard := by
  obtain ⟨c, hc, rfl⟩ := List.mem_map.mp hx
  obtain ⟨e, he, hc⟩ := List.mem_flatMap.mp hc
  cases e with
  | publishSessionLoad load =>
    have hload := hl load he
    simp only [timedCommands, List.mem_cons, List.not_mem_nil, or_false] at hc
    rcases hc with rfl | rfl
    · exact (Option.some.inj hs).symm.trans hload
    · exact (Option.some.inj hs).symm.trans hload
  | syncOccupancy roomId projection =>
    simp only [timedCommands, List.mem_cons, List.not_mem_nil, or_false] at hc
    rcases hc with rfl | rfl | rfl
    · exact (Option.some.inj hs).symm.trans (hr roomId projection he)
    · cases hs
    · cases hs
  | checkAssigned socket roomId =>
    obtain rfl := List.mem_singleton.mp hc
    cases hs
  | _ => cases hc

theorem Process.Becomes.own {now : ℕ} (hb : p.Becomes now q)
    (h : ∀ x ∈ p.pipe, ∀ shard ∈ x.2.session, shard = p.shard) :
    ∀ x ∈ q.pipe, ∀ shard ∈ x.2.session, shard = q.shard := by
  intro x hx shard hs
  rw [hb.shard]
  cases hb with
  | rest => exact h x hx shard hs
  | issue _ hl hr _ =>
    rcases List.mem_append.mp hx with hx | hx
    · exact h x hx shard hs
    · exact session_stamp hl hr hx hs
  | crash _ _ => exact h x (List.mem_of_mem_take hx) shard hs

theorem newProcess_own {now : ℕ} {identity : ShardIdentity} :
    ∀ x ∈ (newProcess now identity).pipe, ∀ shard ∈ x.2.session,
      shard = (newProcess now identity).shard := by
  intro x hx shard hs
  refine session_stamp (fun load hl => ?_) (fun roomId projection hl => ?_) hx hs
  · obtain rfl := Effect.publishSessionLoad.inj (List.mem_singleton.mp hl)
    rfl
  · cases List.mem_singleton.mp hl

/-- A step in which Redis runs no command of a process and no session is written. -/
theorem Fading.quiet (h : Fading t w) (hi : Inv t w g) (hu : Undisturbed w v)
    (hkeys : ∀ shard, shard ∈ w.processes.keys → shard ∈ v.processes.keys) (hn : w.now ≤ v.now)
    (hnear : ∀ key, ∀ d ∈ v.deadline key, d ≤ v.now + ttl)
    (hs : ∀ shard, (holds v.redis (.session shard) = holds w.redis (.session shard) ∧
        v.deadline (.session shard) = w.deadline (.session shard)) ∨
      (holds v.redis (.session shard) = false ∧ v.deadline (.session shard) = none))
    (ha : ∀ a ∈ v.assigns, (∃ b ∈ w.assigns, b.shard = a.shard ∧ b.since = a.since) ∨
      (a.since = w.now ∧ holds w.redis (.session a.shard) = true ∧
        w.ready (.session a.shard) = true)) : Fading t v := by
  have hdeadline : ∀ shard, ∀ d ∈ v.deadline (.session shard), d ∈ w.deadline (.session shard) := by
    intro shard d hd
    rcases hs shard with ⟨-, he⟩ | ⟨-, he⟩
    · rwa [he] at hd
    · rw [he] at hd
      cases hd
  have hholds : ∀ shard, holds v.redis (.session shard) = true →
      holds w.redis (.session shard) = true ∧
        v.deadline (.session shard) = w.deadline (.session shard) := by
    intro shard hh
    rcases hs shard with ⟨he, hd⟩ | ⟨he, -⟩
    · exact ⟨he ▸ hh, hd⟩
    · cases he.symm.trans hh
  refine ⟨fun q hq c hc => ?_, fun q hq => ?_, hnear, fun q hq c hc d hd => ?_,
    fun q hq hh hd => ?_, fun shard hk => ?_, fun a ha' q hq hqa c hc => ?_⟩
  · rcases hu q hq with ⟨p, hp, hb⟩ | ⟨identity, -, rfl⟩
    · obtain ⟨hle, hall⟩ := hb.stamps (h.stamps p hp) (hi.processes p hp).stamps c hc
      exact ⟨hle.trans hn, hall⟩
    · cases hc
  · rcases hu q hq with ⟨p, hp, hb⟩ | ⟨identity, -, rfl⟩
    · exact hb.own (h.own p hp)
    · exact newProcess_own
  · rcases hu q hq with ⟨p, hp, hb⟩ | ⟨identity, -, rfl⟩
    · rw [hb.shard] at hd
      have hold := hdeadline p.shard d hd
      rcases hb.died hc with hc | ⟨-, rfl⟩
      · exact h.bound p hp c hc d hold
      · have hlate := h.near _ d hold
        omega
    · cases hc
  · obtain ⟨hh, he⟩ := hholds q.shard hh
    rcases hu q hq with ⟨p, hp, hb⟩ | ⟨identity, hnew, rfl⟩
    · rw [hb.shard] at hh hd he ⊢
      obtain ⟨x, hx⟩ := h.owed p hp hh (he ▸ hd)
      exact ⟨x, hb.waits_iff.mpr hx⟩
    · cases (h.unknown identity.shardId hnew).symm.trans hh
  · have hno : shard ∉ w.processes.keys := fun hk' => hk (hkeys shard hk')
    cases hv : holds v.redis (.session shard) with
    | false => rfl
    | true => cases (h.unknown shard hno).symm.trans (hholds shard hv).1
  · rcases hu q hq with ⟨p, hp, hb⟩ | ⟨identity, -, rfl⟩
    · rw [hb.shard] at hqa
      rcases ha a ha' with ⟨b, hb', hshard, hsince⟩ | ⟨hsince, hh, hr⟩
      · rw [← hsince]
        rcases hb.died hc with hc | ⟨-, rfl⟩
        · exact h.picked b hb' p hp (hqa.trans hshard.symm) c hc
        · have hasked := (hi.requests b hb').1
          omega
      · rw [hsince]
        rcases hb.died hc with hc | ⟨-, rfl⟩
        · rw [← hqa] at hh hr
          exact h.seen hi hp hc hh hr
        · omega
    · cases hc

/-- Redis runs the next command of the process `p`, which is `q` after it. -/
theorem Fading.pop {c : ℕ × TimedCommand} (h : Fading t w) (hi : Inv t w g)
    (hp : w.processes.get? p.shard = some p) (hv : v.processes = w.processes.set q)
    (hshard : q.shard = p.shard) (hpipe : p.pipe = c :: q.pipe) (hdied : q.died = p.died)
    (hn : v.now = w.now) (ha : v.assigns = w.assigns)
    (hdeadline : ∀ key, ∀ d ∈ v.deadline key, d ∈ w.deadline key ∨ d = w.now + ttl)
    (hother : ∀ shard, shard ≠ p.shard →
      holds v.redis (.session shard) = holds w.redis (.session shard) ∧
        v.deadline (.session shard) = w.deadline (.session shard))
    (howed : holds v.redis (.session p.shard) = true → v.deadline (.session p.shard) = none →
      ∃ x, q.Waits x (.session p.shard)) : Fading t v := by
  have hmem := (get?_eq_some.mp hp).1
  have hsub : ∀ x ∈ q.pipe, x ∈ p.pipe := fun x hx => hpipe ▸ List.mem_cons_of_mem _ hx
  have hrow : ∀ r ∈ v.processes.rows, r = q ∨ r ∈ w.processes.rows ∧ r.shard ≠ p.shard := by
    intro r hr
    rw [hv, mem_rows_set, hshard] at hr
    exact hr
  refine ⟨fun r hr => ?_, fun r hr => ?_, fun key d hd => ?_, fun r hr a har d hd => ?_,
    fun r hr hh hd => ?_, fun shard hk => ?_, fun a haa r hr hra b hb => ?_⟩
  · rw [hn]
    rcases hrow r hr with rfl | ⟨hr, -⟩
    · intro a har
      rw [hdied] at har
      obtain ⟨hle, hall⟩ := h.stamps p hmem a har
      exact ⟨hle, fun x hx => hall x (hsub x hx)⟩
    · exact h.stamps r hr
  · rcases hrow r hr with rfl | ⟨hr, -⟩
    · rw [hshard]
      exact fun x hx => h.own p hmem x (hsub x hx)
    · exact h.own r hr
  · rw [hn]
    rcases hdeadline key d hd with hd | hd
    · exact h.near key d hd
    · exact hd.le
  · rcases hrow r hr with rfl | ⟨hr, hne⟩
    · rw [hdied] at har
      rw [hshard] at hd
      rcases hdeadline _ d hd with hd | hd
      · exact h.bound p hmem a har d hd
      · have hhead : c ∈ p.pipe := hpipe ▸ List.mem_cons_self
        have hbefore := (h.stamps p hmem a har).2 c hhead
        have hdue := (hi.processes p hmem).commands c hhead
        omega
    · rw [(hother r.shard hne).2] at hd
      exact h.bound r hr a har d hd
  · rcases hrow r hr with rfl | ⟨hr, hne⟩
    · rw [hshard] at hh hd ⊢
      exact howed hh hd
    · obtain ⟨hsame, hkeep⟩ := hother r.shard hne
      exact h.owed r hr (hsame ▸ hh) (hkeep ▸ hd)
  · rw [hv, mem_keys_set, not_or, hshard] at hk
    rw [(hother shard hk.1).1]
    exact h.unknown shard hk.2
  · rw [ha] at haa
    rcases hrow r hr with rfl | ⟨hr, -⟩
    · exact h.picked a haa p hmem (hshard ▸ hra) b (hdied ▸ hb)
    · exact h.picked a haa r hr hra b hb

end

section
variable [Runtime] {t : Timing} {w v : TimedCluster} {g : Seen} {input : TimedInput}
  {os : List Effect}

omit [Runtime] in
theorem session_advance (w : TimedCluster) (a : Assign) (code : RoomId) (shard : ShardId) :
    holds (w.advance a code).redis (.session shard) = holds w.redis (.session shard) ∧
      (w.advance a code).deadline (.session shard) = w.deadline (.session shard) := by
  unfold TimedCluster.advance
  split
  · refine ⟨?_, rfl⟩
    unfold Redis.claimRoomCode
    split <;> rfl
  · unfold TimedCluster.expireKeyNew
    split_ifs
    · exact ⟨by rw [redis_expireKey], deadline_expireKey _ session_ne_room⟩
    · exact ⟨rfl, rfl⟩
  · exact ⟨rfl, rfl⟩
  · exact ⟨by rw [redis_expireKey], deadline_expireKey _ session_ne_room⟩

omit [Runtime] in
theorem session_of_writes {c : Command} {shard : ShardId} (h : writes c = some (.session shard)) :
    shard ∈ (TimedCommand.data c).session := by
  cases c with
  | publishSessionLoad load =>
    cases h
    rfl
  | recordRoom roomId projection => cases h
  | indexRoom roomId full => cases h
  | checkAssigned socket roomId => cases h

omit [Runtime] in
theorem InFlight.next {keys : RedisKey → Key} {pipe rest : List (ℕ × TimedCommand)} {x : ℕ}
    {c : Command} {key : RedisKey} (h : InFlight keys pipe) (hq : pipe = (x, .data c) :: rest)
    (hw : writes c = some key) : rest.head? = some (x, .expire key) := by
  subst hq
  rcases h with h | ⟨y, l, r, he, -, -⟩
  · cases h with
    | plain hc _ => cases hc.symm.trans hw
    | pair hc _ =>
      obtain rfl := Option.some.inj (hc.symm.trans hw)
      rfl
  · cases he

theorem step_deadline (hs : TimedStep w input v os) (key : RedisKey) :
    ∀ d ∈ v.deadline key, d ∈ w.deadline key ∨ d = w.now + ttl :=
  fun _ hd => (step_act (g := unseen) hs key).deadline hd

theorem process_becomes {p : Process} {env : Env} {input : ServerInput} {s : Server}
    (now beat : ℕ) (hrun : ∀ room ∈ p.server.rooms.rows, room.Coherent) (hd : p.died = none)
    (hstep : p.server.step (env, input) = some (s, os)) :
    p.Becomes now ⟨s, p.pipe ++ stamp now os, beat, p.died⟩ := by
  obtain ⟨u, hu, -, -⟩ := step_handle hstep
  rw [hd]
  exact .issue hd (handle_loads hrun hu)
    (fun _ _ he => (serverStep_syncs (handle_cases hu) he).2) (step_self hstep)

theorem timedStep_fading
    (hrun : ∀ p ∈ w.processes.rows, ∀ room ∈ p.server.rooms.rows, room.Coherent)
    (hi : Inv t w g) (h : Fading t w) (hs : TimedStep w input v os) : Fading t v := by
  have hsame : ∀ shard, holds w.redis (.session shard) = holds w.redis (.session shard) ∧
      w.deadline (.session shard) = w.deadline (.session shard) := fun _ => ⟨rfl, rfl⟩
  have hold : ∀ a ∈ w.assigns, ∃ b ∈ w.assigns, b.shard = a.shard ∧ b.since = a.since :=
    fun a ha => ⟨a, ha, rfl, rfl⟩
  have hnear : ∀ key, ∀ d ∈ v.deadline key, w.now ≤ v.now → d ≤ v.now + ttl := by
    intro key d hd hn
    rcases step_deadline hs key d hd with hd | rfl
    · exact (h.near key d hd).trans (Nat.add_le_add_right hn _)
    · exact Nat.add_le_add_right hn _
  have hdeadline := step_deadline hs
  cases hs with
  | tick ms =>
    exact h.quiet hi (undisturbed_same rfl) (fun _ => id) (Nat.le_add_right _ _)
      (fun key d hd => hnear key d hd (Nat.le_add_right _ _)) (fun shard => .inl (hsame shard))
      fun a ha => .inl (hold a ha)
  | @start identity hnew =>
    refine h.quiet hi (fun r hr => ?_) (fun _ hk => mem_keys_set.mpr (.inr hk)) le_rfl h.near
      (fun shard => .inl (hsame shard)) fun a ha => .inl (hold a ha)
    rcases mem_rows_set.mp hr with rfl | ⟨hr, -⟩
    · exact .inr ⟨identity, hnew, rfl⟩
    · exact .inl ⟨r, hr, .rest⟩
  | @process p env input s os hp hd hi' hstep =>
    have hmem := (get?_eq_some.mp hp).1
    refine h.quiet hi ?_ (fun _ hk => mem_keys_set.mpr (.inr hk)) le_rfl h.near
      (fun shard => .inl (hsame shard)) fun a ha => .inl (hold a ha)
    exact undisturbed_set hmem rfl (process_becomes _ _ (hrun p hmem) hd hstep)
  | @refresh p env x l pipe hp hq hr =>
    obtain ⟨hv, hn, ha⟩ := proc_expireKey (w.setProcess { p with pipe := pipe }) l
    have hmem := (get?_eq_some.mp hp).1
    have hhead : (x, .expire l) ∈ p.pipe := hq ▸ List.mem_cons_self
    refine h.pop hi hp hv rfl hq rfl hn ha hdeadline (fun shard hne => ⟨?_, ?_⟩)
      fun hh hd => ?_
    · rw [redis_expireKey]
      rfl
    · refine deadline_expireKey _ fun hl => hne ?_
      exact h.own p hmem _ hhead shard (hl ▸ rfl)
    · rw [redis_expireKey] at hh
      by_cases hl : .session p.shard = l
      · subst hl
        rw [TimedCluster.expireKey, if_pos hh] at hd
        cases (Function.update_self _ _ _).symm.trans hd
      · rw [deadline_expireKey _ hl] at hd
        obtain ⟨y, hy⟩ := h.owed p hmem hh hd
        rw [Process.Waits, hq] at hy
        cases hy
        exact absurd rfl hl
  | @data p env x c pipe s os hp hq hr ha =>
    have hmem := (get?_eq_some.mp hp).1
    have hhead : (x, .data c) ∈ p.pipe := hq ▸ List.mem_cons_self
    refine h.pop hi hp rfl ?_ hq rfl rfl rfl hdeadline (fun shard hne => ⟨?_, rfl⟩) fun hh hd => ?_
    · rw [Process.shard, (answer_frame ha).2, Process.shard]
    · change holds (JoinableIndex.runCommand w.redis c) (.session shard) = _
      rw [holds_runCommand, if_neg]
      intro hw
      exact hne (h.own p hmem _ hhead shard (session_of_writes hw))
    · change holds (JoinableIndex.runCommand w.redis c) (.session p.shard) = true at hh
      rw [holds_runCommand] at hh
      split_ifs at hh with hw
      · exact ⟨x, (hi.processes p hmem).pipe.next hq hw⟩
      · obtain ⟨y, hy⟩ := h.owed p hmem hh hd
        rw [Process.Waits, hq] at hy
        cases hy
  | @crash p n hp hd hcut =>
    refine h.quiet hi ?_ (fun _ hk => mem_keys_set.mpr (.inr hk)) le_rfl h.near
      (fun shard => .inl (hsame shard)) fun a ha => .inl (hold a ha)
    exact undisturbed_set (get?_eq_some.mp hp).1 rfl (.crash hd hcut)
  | @pick shard hh hr =>
    refine h.quiet hi (undisturbed_same rfl) (fun _ => id) le_rfl h.near
      (fun shard => .inl (hsame shard)) fun a ha => ?_
    rcases List.mem_cons.mp ha with rfl | ha
    · exact .inr ⟨rfl, hh, hr⟩
    · exact .inl (hold a ha)
  | @assign a code ha hr =>
    obtain ⟨hv, hn, hall⟩ := advance_frame { w with assigns := w.assigns.erase a } a code
    refine h.quiet hi (undisturbed_same hv) (fun _ hk => by rwa [hv]) hn.ge
      (fun key d hd => hnear key d hd hn.ge)
      (fun shard => .inl (session_advance { w with assigns := w.assigns.erase a } a code shard))
      fun b hb => .inl ?_
    rcases hall b hb with ⟨hshard, hsince⟩ | hb
    · exact ⟨a, ha, hshard.symm, hsince.symm⟩
    · exact hold b (List.mem_of_mem_erase hb)
  | @deliver roomId _ =>
    refine h.quiet hi (undisturbed_same rfl) (fun _ => id) le_rfl
      (fun key d hd => hnear key d hd le_rfl) (fun shard => .inl ⟨rfl, ?_⟩)
      fun a ha => .inl (hold a ha)
    change Function.update w.deadline (.room (normalizeRoomCode roomId)) none (.session shard) = _
    exact Function.update_of_ne session_ne_room _ _
  | unindex _ =>
    exact h.quiet hi (undisturbed_same rfl) (fun _ => id) le_rfl h.near
      (fun shard => .inl (hsame shard)) fun a ha => .inl (hold a ha)
  | @expire key _ =>
    refine h.quiet hi (undisturbed_same rfl) (fun _ => id) le_rfl
      (fun key d hd => hnear key d hd le_rfl) (fun shard => ?_) fun a ha => .inl (hold a ha)
    by_cases hk : key = .session shard
    · subst hk
      right
      refine ⟨?_, Function.update_self _ _ _⟩
      change holds (drop w.redis (.session shard)) (.session shard) = false
      rw [holds_drop, if_pos rfl]
    · left
      refine ⟨?_, Function.update_of_ne (Ne.symm hk) _ _⟩
      change holds (drop w.redis key) (.session shard) = _
      rw [holds_drop, if_neg (Ne.symm hk)]

end

/-! ### Records of dead processes -/

/-- The request has written the record of the code and still has to send an `EXPIRE` of it. -/
def Assign.Owes (a : Assign) (roomId : RoomId) : Prop :=
  match a.stage with
  | .picked _ => False
  | .bid l won _ => won = true ∧ l = roomId
  | .won l => l = roomId
  | .recorded l => l = roomId

/-- `written` is a time since which nobody has written the shard of the record. -/
structure Traced (t : Timing) (w : TimedCluster) (roomId : RoomId) (shard : ShardId)
    (written : ℕ) : Prop where
  past : written ≤ w.now
  dead : ∀ p ∈ w.processes.rows, p.shard = shard → ∀ c ∈ p.died,
    written ≤ c + t.delay + ttl + t.handling
  near : ∀ d ∈ w.deadline (.room roomId), d ≤ written + (t.delay + t.handling) + ttl
  heads : ∀ p ∈ w.processes.rows, ∀ x, p.Waits x (.room roomId) → x ≤ written
  owing : ∀ a ∈ w.assigns, a.Owes roomId → a.since ≤ written
  leak : w.deadline (.room roomId) = none →
    (∃ p ∈ w.processes.rows, ∃ x, p.Waits x (.room roomId)) ∨ ∃ a ∈ w.assigns, a.Owes roomId

def Tracing (t : Timing) (w : TimedCluster) : Prop :=
  ∀ roomId, ∀ shard ∈ (w.redis.room roomId).shard, ∃ written, Traced t w roomId shard written

section
variable {t : Timing} {w v : TimedCluster} {g : Seen} {p q : Process} {roomId : RoomId}
  {shard : ShardId} {written : ℕ}

/-- A key without a deadline was written a short while ago. -/
theorem Traced.soon (h : Traced t w roomId shard written) (hi : Inv t w g)
    (hd : w.deadline (.room roomId) = none) : w.now ≤ written + (t.delay + t.handling) := by
  rcases h.leak hd with ⟨p, hp, x, hx⟩ | ⟨a, ha, ho⟩
  · have hbefore := h.heads p hp x hx
    have hdue := (hi.processes p hp).commands _ (mem_of_waits hx)
    dsimp only at hdue
    omega
  · have hbefore := h.owing a ha ho
    have hdue := (hi.requests a ha).2
    omega

/-- The shard of the record has just been written. -/
theorem Traced.now (hf : Fading t w) (hi : Inv t w g)
    (hdead : ∀ p ∈ w.processes.rows, p.shard = shard → ∀ c ∈ p.died,
      w.now ≤ c + t.delay + ttl + t.handling)
    (hleak : w.deadline (.room roomId) = none →
      (∃ p ∈ w.processes.rows, ∃ x, p.Waits x (.room roomId)) ∨ ∃ a ∈ w.assigns, a.Owes roomId) :
    Traced t w roomId shard w.now where
  past := le_rfl
  dead := hdead
  near d hd := (hf.near _ d hd).trans (by omega)
  heads p hp x hx := (hi.processes p hp).stamps _ (mem_of_waits hx)
  owing a ha _ := (hi.requests a ha).1
  leak := hleak

theorem waits_newProcess {now x : ℕ} {identity : ShardIdentity} {key : RedisKey} :
    ¬ (newProcess now identity).Waits x key := by
  intro h
  cases head_stamp h

/-- A step in which Redis runs no command of a process and the record is left alone. -/
theorem Traced.quiet (h : Traced t w roomId shard written) (hu : Undisturbed w v)
    (hrows : ∀ p ∈ w.processes.rows, ∃ q ∈ v.processes.rows, p.Becomes w.now q)
    (hn : w.now ≤ v.now) (hd : v.deadline (.room roomId) = w.deadline (.room roomId))
    (ho : ∀ a ∈ v.assigns, a.Owes roomId → ∃ b ∈ w.assigns, b.Owes roomId ∧ a.since = b.since)
    (ho' : ∀ b ∈ w.assigns, b.Owes roomId → ∃ a ∈ v.assigns, a.Owes roomId) :
    Traced t v roomId shard written where
  past := h.past.trans hn
  dead q hq hs c hc := by
    rcases hu q hq with ⟨p, hp, hb⟩ | ⟨identity, -, rfl⟩
    · rcases hb.died hc with hc | ⟨-, rfl⟩
      · exact h.dead p hp (hb.shard ▸ hs) c hc
      · have hpast := h.past
        omega
    · cases hc
  near := hd ▸ h.near
  heads q hq x hx := by
    rcases hu q hq with ⟨p, hp, hb⟩ | ⟨identity, -, rfl⟩
    · exact h.heads p hp x (hb.waits_iff.mp hx)
    · exact absurd hx waits_newProcess
  owing a ha hao := by
    obtain ⟨b, hb, hbo, hsince⟩ := ho a ha hao
    exact hsince ▸ h.owing b hb hbo
  leak hnone := by
    rcases h.leak (hd ▸ hnone) with ⟨p, hp, x, hx⟩ | ⟨b, hb, hbo⟩
    · obtain ⟨q, hq, hbec⟩ := hrows p hp
      exact .inl ⟨q, hq, x, hbec.waits_iff.mpr hx⟩
    · exact .inr (ho' b hb hbo)

theorem Traced.rest (h : Traced t w roomId shard written) (hv : v.processes = w.processes)
    (hn : w.now ≤ v.now) (hd : v.deadline (.room roomId) = w.deadline (.room roomId))
    (ho : ∀ a ∈ v.assigns, a.Owes roomId → ∃ b ∈ w.assigns, b.Owes roomId ∧ a.since = b.since)
    (ho' : ∀ b ∈ w.assigns, b.Owes roomId → ∃ a ∈ v.assigns, a.Owes roomId) :
    Traced t v roomId shard written :=
  h.quiet (undisturbed_same hv) (fun p hp => ⟨p, hv ▸ hp, .rest⟩) hn hd ho ho'

/-- Redis runs the next command of the process `p`, which writes no record of this code. -/
theorem Traced.pop (h : Traced t w roomId shard written) (hi : Inv t w g)
    (hp : w.processes.get? p.shard = some p) (hv : v.processes = w.processes.set q)
    (hshard : q.shard = p.shard) (hdied : q.died = p.died) (hn : v.now = w.now)
    (ha : v.assigns = w.assigns) (hnext : ∀ x, ¬ q.Waits x (.room roomId))
    (hd : (v.deadline (.room roomId) = w.deadline (.room roomId) ∧
        ∀ x, ¬ p.Waits x (.room roomId)) ∨
      (v.deadline (.room roomId) = some (w.now + ttl) ∧ ∃ x, p.Waits x (.room roomId))) :
    Traced t v roomId shard written := by
  have hmem := (get?_eq_some.mp hp).1
  have hrow : ∀ r ∈ v.processes.rows, r = q ∨ r ∈ w.processes.rows ∧ r.shard ≠ p.shard := by
    intro r hr
    rw [hv, mem_rows_set, hshard] at hr
    exact hr
  refine ⟨hn ▸ h.past, fun r hr hrs c hc => ?_, fun d hde => ?_, fun r hr x hx => ?_,
    fun a haa => h.owing a (ha ▸ haa), fun hnone => ?_⟩
  · rcases hrow r hr with rfl | ⟨hr, -⟩
    · exact h.dead p hmem (hshard ▸ hrs) c (hdied ▸ hc)
    · exact h.dead r hr hrs c hc
  · rcases hd with ⟨hd, -⟩ | ⟨hd, x, hx⟩
    · exact h.near d (hd ▸ hde)
    · rw [hd] at hde
      obtain rfl := Option.some.inj hde
      have hbefore := h.heads p hmem x hx
      have hdue := (hi.processes p hmem).commands _ (mem_of_waits hx)
      dsimp only at hdue
      omega
  · rcases hrow r hr with rfl | ⟨hr, -⟩
    · exact absurd hx (hnext x)
    · exact h.heads r hr x hx
  · rcases hd with ⟨hd, hno⟩ | ⟨hd, -⟩
    · rw [ha]
      refine (h.leak (hd ▸ hnone)).imp_left fun hw => ?_
      obtain ⟨r, hr, x, hx⟩ := hw
      have hne : r.shard ≠ q.shard := by
        intro he
        obtain rfl := rows_inj hr hmem (he.trans hshard)
        exact hno x hx
      exact ⟨r, hv ▸ mem_rows_set.mpr (.inr ⟨hr, hne⟩), x, hx⟩
    · cases hnone.symm.trans hd

/-- A request sends its `EXPIRE` of the record. -/
theorem Traced.touch (h : Traced t w roomId shard written) (hv : v.processes = w.processes)
    (hn : v.now = w.now) (hd : v.deadline (.room roomId) = some (w.now + ttl))
    (hsoon : w.now ≤ written + (t.delay + t.handling))
    (ho : ∀ a ∈ v.assigns, a.Owes roomId → ∃ b ∈ w.assigns, b.Owes roomId ∧ a.since = b.since) :
    Traced t v roomId shard written where
  past := hn ▸ h.past
  dead := hv ▸ h.dead
  near d hde := by
    rw [hd] at hde
    obtain rfl := Option.some.inj hde
    omega
  heads := hv ▸ h.heads
  owing a ha hao := by
    obtain ⟨b, hb, hbo, hsince⟩ := ho a ha hao
    exact hsince ▸ h.owing b hb hbo
  leak hnone := by cases hnone.symm.trans hd

end

section
variable [Runtime] {t : Timing} {w v : TimedCluster} {g g' : Seen} {input : TimedInput}
  {os : List Effect}

omit [Runtime] in
theorem whole_not_waits {p : Process} (h : Whole p.pipe) (x : ℕ) (key : RedisKey) :
    ¬ p.Waits x key := by
  intro hw
  rw [Process.Waits] at hw
  generalize p.pipe = pipe at h hw
  cases h with
  | nil => cases hw
  | plain _ _ => cases hw
  | pair _ _ => cases hw

omit [Runtime] in
theorem deadline_of_shard {roomId : RoomId} {shard : ShardId}
    (h : (w.redis.room roomId).shard = some shard) :
    (w.expireKey (.room roomId)).deadline (.room roomId) = some (w.now + ttl) := by
  have hh : holds w.redis (.room roomId) = true := by
    refine decide_eq_true fun hno => ?_
    rw [hno] at h
    cases h
  rw [TimedCluster.expireKey, if_pos hh]
  exact Function.update_self _ _ _

omit [Runtime] in
theorem Tracing.remove {key : RedisKey} (h : Tracing t w) (hv : v.processes = w.processes)
    (hn : v.now = w.now) (ha : v.assigns = w.assigns) (hr : v.redis = drop w.redis key)
    (hd : v.deadline = Function.update w.deadline key none) : Tracing t v := by
  intro roomId shard hsh
  by_cases hk : key = .room roomId
  · subst hk
    rw [hr, drop, Redis.shard_expireRoom, if_pos rfl] at hsh
    cases hsh
  · have hroom : v.redis.room roomId = w.redis.room roomId := by
      rw [hr]
      cases key with
      | session l => rfl
      | room l =>
        have hne : roomId ≠ l := fun he => hk (he ▸ rfl)
        simp [drop, Redis.expireRoom, hne]
    rw [hroom] at hsh
    obtain ⟨W, hW⟩ := h roomId shard hsh
    refine ⟨W, hW.rest hv hn.ge ?_ (fun a hal ho => ⟨a, ha ▸ hal, ho, rfl⟩)
      fun b hb ho => ⟨b, ha ▸ hb, ho⟩⟩
    rw [hd]
    exact Function.update_of_ne (Ne.symm hk) _ _

omit [Runtime] in
theorem room_runCommand {r : Redis} {c : Command} {roomId : RoomId}
    (h : writes c ≠ some (.room roomId)) :
    (JoinableIndex.runCommand r c).room roomId = r.room roomId := by
  cases c with
  | recordRoom l projection =>
    have hne : roomId ≠ l := by
      rintro rfl
      exact h rfl
    simp [JoinableIndex.runCommand, Redis.recordRoom, hne]
  | _ => rfl

theorem data_tracing {p : Process} {env : Env} {x : ℕ} {c : Command}
    {pipe : List (ℕ × TimedCommand)} {s : Server} (hi : Inv t w g) (hf : Fading t w)
    (h : Tracing t w) (hp : w.processes.get? p.shard = some p)
    (hq : p.pipe = (x, .data c) :: pipe) (ha : TimedCluster.answer w.redis p env c = some (s, os))
    (hv : v = { w.setProcess { p with server := s, pipe := pipe } with
      redis := JoinableIndex.runCommand w.redis c })
    (hi' : Inv t v g') (hf' : Fading t v) : Tracing t v := by
  have hmem := (get?_eq_some.mp hp).1
  have hhead : (x, .data c) ∈ p.pipe := hq ▸ List.mem_cons_self
  have hpipe := (hi.processes p hmem).pipe
  have hshard : ({ p with server := s, pipe := pipe } : Process).shard = p.shard := by
    rw [Process.shard, (answer_frame ha).2, Process.shard]
  intro roomId shard hsh
  have hred : v.redis = JoinableIndex.runCommand w.redis c := by rw [hv]
  rw [hred] at hsh
  by_cases hw : writes c = some (.room roomId)
  · cases c with
    | recordRoom l projection =>
      cases hw
      refine ⟨v.now, Traced.now hf' hi' (fun r hr hrs a har => ?_) fun _ => .inl ?_⟩
      · have hname := hf.own p hmem _ hhead _ rfl
        change ((w.redis.recordRoom roomId projection).room roomId).shard = some shard at hsh
        rw [Redis.shard_recordRoom, if_pos rfl] at hsh
        subst hv
        rcases mem_rows_set.mp hr with rfl | ⟨hr, hne⟩
        · have hbefore := (hf.stamps p hmem a har).2 _ hhead
          have hdue := (hi.processes p hmem).commands _ hhead
          dsimp only at hbefore hdue
          show w.now ≤ _
          omega
        · rw [hrs, ← Option.some.inj hsh, hname, hshard] at hne
          exact absurd rfl hne
      · subst hv
        exact ⟨_, mem_rows_set.mpr (.inl rfl), x, hpipe.next hq rfl⟩
    | _ => cases hw
  · rw [room_runCommand hw] at hsh
    obtain ⟨W, hW⟩ := h roomId shard hsh
    refine ⟨W, hW.pop hi hp (by rw [hv]; rfl) hshard rfl (by rw [hv]; rfl) (by rw [hv]; rfl)
      (fun y hy => ?_) (.inl ⟨by rw [hv]; rfl, fun y hy => ?_⟩)⟩
    · cases hc : writes c with
      | some key =>
        have hnext := hpipe.next hq hc
        rw [Process.Waits, hnext] at hy
        cases hy
        exact hw hc
      | none =>
        rw [hq] at hpipe
        rcases hpipe with hwhole | ⟨z, l, r, he, -, -⟩
        · cases hwhole with
          | plain _ hwhole => exact whole_not_waits hwhole y _ hy
          | pair hc' _ => cases hc.symm.trans hc'
        · cases he
    · rw [Process.Waits, hq] at hy
      cases hy

/-! The next command of a request takes it out of the list and puts what remains of it in. -/

omit [Runtime] in
theorem owed_after {a : Assign} {roomId : RoomId} {next : List Assign} (ha : a ∈ w.assigns)
    (hv : v.assigns = next ++ w.assigns.erase a)
    (hnext : ∀ b ∈ next, b.Owes roomId → a.Owes roomId ∧ b.since = a.since) :
    ∀ b ∈ v.assigns, b.Owes roomId → ∃ c ∈ w.assigns, c.Owes roomId ∧ b.since = c.since := by
  intro b hb ho
  rw [hv] at hb
  rcases List.mem_append.mp hb with hb | hb
  · obtain ⟨hao, hsince⟩ := hnext b hb ho
    exact ⟨a, ha, hao, hsince⟩
  · exact ⟨b, List.mem_of_mem_erase hb, ho, rfl⟩

omit [Runtime] in
theorem owed_before {a : Assign} {roomId : RoomId} {next : List Assign}
    (hv : v.assigns = next ++ w.assigns.erase a)
    (hnext : a.Owes roomId → ∃ b ∈ next, b.Owes roomId) :
    ∀ b ∈ w.assigns, b.Owes roomId → ∃ c ∈ v.assigns, c.Owes roomId := by
  intro b hb ho
  rw [hv]
  by_cases hba : b = a
  · subst hba
    obtain ⟨c, hc, hco⟩ := hnext ho
    exact ⟨c, List.mem_append_left _ hc, hco⟩
  · exact ⟨b, List.mem_append_right _ ((List.mem_erase_of_ne hba).mpr hb), ho⟩

omit [Runtime] in
theorem picked_tracing {a : Assign} {code : RoomId} {lost : ℕ} (hi : Inv t w g) (hf : Fading t w)
    (h : Tracing t w) (ha : a ∈ w.assigns) (hstage : a.stage = .picked lost)
    (hv : v = { w with
      redis := (w.redis.claimRoomCode code a.shard).1
      assigns := { a with stage := .bid code (w.redis.claimRoomCode code a.shard).2 lost } ::
        w.assigns.erase a })
    (hi' : Inv t v g') (hf' : Fading t v) : Tracing t v := by
  have hassigns : v.assigns = [{ a with
      stage := .bid code (w.redis.claimRoomCode code a.shard).2 lost }] ++ w.assigns.erase a := by
    rw [hv, List.singleton_append]
  have hred : v.redis = (w.redis.claimRoomCode code a.shard).1 := by rw [hv]
  have hnow : v.now = w.now := by rw [hv]
  have hproc : v.processes = w.processes := by rw [hv]
  intro roomId shard hsh
  -- the bid writes the shard, or it leaves the record as it was
  by_cases hfresh : (w.redis.room code).shard = none ∧ roomId = code
  · obtain ⟨hnone, rfl⟩ := hfresh
    rw [hred, Redis.shard_claimRoomCode _ _ _ _ hnone, if_pos rfl] at hsh
    obtain rfl := Option.some.inj hsh
    refine ⟨v.now, Traced.now hf' hi' (fun p hp hps c hc => ?_) fun _ => .inr ?_⟩
    · rw [hproc] at hp
      have hpicked := hf.picked a ha p hp hps c hc
      have hdue := (hi.requests a ha).2
      rw [hnow]
      omega
    · rw [hassigns]
      refine ⟨_, List.mem_cons_self, ?_⟩
      simp [Assign.Owes, Redis.claimRoomCode, hnone]
  · have hkeep : (v.redis.room roomId).shard = (w.redis.room roomId).shard := by
      rw [hred]
      cases hcode : (w.redis.room code).shard with
      | none =>
        rw [Redis.shard_claimRoomCode _ _ _ _ hcode, if_neg fun he => hfresh ⟨hcode, he⟩]
      | some owner => simp [Redis.claimRoomCode, hcode]
    rw [hkeep] at hsh
    obtain ⟨W, hW⟩ := h roomId shard hsh
    refine ⟨W, hW.rest hproc hnow.ge (by rw [hv]) (owed_after ha hassigns ?_)
      (owed_before hassigns ?_)⟩
    · intro b hb ho
      obtain rfl := List.mem_singleton.mp hb
      obtain ⟨hwon, rfl⟩ := ho
      have howned : (w.redis.room code).shard = some shard := hsh
      simp [Redis.claimRoomCode, howned] at hwon
    · intro ho
      simp [Assign.Owes, hstage] at ho

omit [Runtime] in
theorem bid_tracing {a : Assign} {l : RoomId} {won : Bool} {lost : ℕ} (hi : Inv t w g)
    (h : Tracing t w) (ha : a ∈ w.assigns) (hstage : a.stage = .bid l won lost)
    (hv : v = TimedCluster.expireKeyNew
      { w with assigns := a.afterBid l won lost ++ w.assigns.erase a } (.room l)) :
    Tracing t v := by
  obtain ⟨hproc, hnow, hassigns⟩ := proc_expireKeyNew
    { w with assigns := a.afterBid l won lost ++ w.assigns.erase a } (.room l)
  rw [← hv] at hproc hnow hassigns
  have hred : v.redis = w.redis := by rw [hv, redis_expireKeyNew]
  intro roomId shard hsh
  rw [hred] at hsh
  obtain ⟨W, hW⟩ := h roomId shard hsh
  have howes : ∀ b ∈ v.assigns, b.Owes roomId →
      ∃ c ∈ w.assigns, c.Owes roomId ∧ b.since = c.since := by
    refine owed_after ha hassigns fun b hb ho => ?_
    unfold Assign.afterBid at hb
    split_ifs at hb with hwon
    · obtain rfl := List.mem_singleton.mp hb
      obtain rfl : l = roomId := ho
      exact ⟨by simp [Assign.Owes, hstage, hwon], rfl⟩
    · obtain rfl := List.mem_singleton.mp hb
      exact ho.elim
    · cases hb
  by_cases hfresh : roomId = l ∧ w.deadline (.room l) = none
  · obtain ⟨rfl, hnone⟩ := hfresh
    refine ⟨W, hW.touch hproc hnow ?_ (hW.soon hi hnone) howes⟩
    rw [hv, TimedCluster.expireKeyNew, if_pos hnone]
    exact deadline_of_shard hsh
  · refine ⟨W, hW.rest hproc hnow.ge ?_ howes (owed_before hassigns ?_)⟩
    · rw [hv, TimedCluster.expireKeyNew]
      split_ifs with hnone
      · refine deadline_expireKey _ fun he => hfresh ⟨?_, hnone⟩
        cases he
        rfl
      · rfl
    · intro ho
      have hwon : won = true ∧ l = roomId := by simpa [Assign.Owes, hstage] using ho
      rw [Assign.afterBid, if_pos hwon.1]
      exact ⟨_, List.mem_cons_self, hwon.2⟩

omit [Runtime] in
theorem won_tracing {a : Assign} {l : RoomId} (h : Tracing t w) (ha : a ∈ w.assigns)
    (hstage : a.stage = .won l)
    (hv : v = { w with
      redis := w.redis.reserve l
      assigns := { a with stage := .recorded l } :: w.assigns.erase a }) : Tracing t v := by
  have hassigns : v.assigns = [{ a with stage := .recorded l }] ++ w.assigns.erase a := by
    rw [hv, List.singleton_append]
  intro roomId shard hsh
  have hkeep : (v.redis.room roomId).shard = (w.redis.room roomId).shard := by
    rw [hv]
    exact Redis.shard_reserve _ _ _
  rw [hkeep] at hsh
  obtain ⟨W, hW⟩ := h roomId shard hsh
  refine ⟨W, hW.rest (by rw [hv]) (by rw [hv]) (by rw [hv]) (owed_after ha hassigns ?_)
    (owed_before hassigns ?_)⟩
  · intro b hb ho
    obtain rfl := List.mem_singleton.mp hb
    obtain rfl : l = roomId := ho
    exact ⟨by simp [Assign.Owes, hstage], rfl⟩
  · intro ho
    have hl : l = roomId := by simpa [Assign.Owes, hstage] using ho
    exact ⟨_, List.mem_cons_self, hl⟩

omit [Runtime] in
theorem recorded_tracing {a : Assign} {l : RoomId} (hi : Inv t w g) (h : Tracing t w)
    (ha : a ∈ w.assigns) (hstage : a.stage = .recorded l)
    (hv : v = TimedCluster.expireKey { w with assigns := w.assigns.erase a } (.room l)) :
    Tracing t v := by
  obtain ⟨hproc, hnow, hleft⟩ := proc_expireKey { w with assigns := w.assigns.erase a } (.room l)
  rw [← hv] at hproc hnow hleft
  have hassigns : v.assigns = [] ++ w.assigns.erase a := hleft
  have hred : v.redis = w.redis := by rw [hv, redis_expireKey]
  intro roomId shard hsh
  rw [hred] at hsh
  obtain ⟨W, hW⟩ := h roomId shard hsh
  have howes : ∀ b ∈ v.assigns, b.Owes roomId →
      ∃ c ∈ w.assigns, c.Owes roomId ∧ b.since = c.since :=
    owed_after ha hassigns fun b hb => (by cases hb)
  by_cases hl : roomId = l
  · subst hl
    refine ⟨W, hW.touch hproc hnow ?_ ?_ howes⟩
    · rw [hv]
      exact deadline_of_shard hsh
    · have hbefore := hW.owing a ha (by simp [Assign.Owes, hstage])
      have hdue := (hi.requests a ha).2
      omega
  · refine ⟨W, hW.rest hproc hnow.ge ?_ howes (owed_before hassigns ?_)⟩
    · rw [hv]
      refine deadline_expireKey _ fun he => hl ?_
      cases he
      rfl
    · intro ho
      have hl' : l = roomId := by simpa [Assign.Owes, hstage] using ho
      exact absurd hl'.symm hl

omit [Runtime] in
theorem assign_tracing {a : Assign} {code : RoomId} (hi : Inv t w g) (hf : Fading t w)
    (h : Tracing t w) (ha : a ∈ w.assigns)
    (hv : v = { w with assigns := w.assigns.erase a }.advance a code)
    (hi' : Inv t v g') (hf' : Fading t v) : Tracing t v := by
  cases hstage : a.stage with
  | picked lost =>
    simp only [TimedCluster.advance, hstage] at hv
    exact picked_tracing hi hf h ha hstage hv hi' hf'
  | bid l won lost =>
    simp only [TimedCluster.advance, hstage] at hv
    exact bid_tracing hi h ha hstage hv
  | won l =>
    simp only [TimedCluster.advance, hstage] at hv
    exact won_tracing h ha hstage hv
  | recorded l =>
    simp only [TimedCluster.advance, hstage] at hv
    exact recorded_tracing hi h ha hstage hv

theorem timedStep_tracing
    (hrun : ∀ p ∈ w.processes.rows, ∀ room ∈ p.server.rooms.rows, room.Coherent)
    (hi : Inv t w g) (hi' : Inv t v g') (hf : Fading t w) (hf' : Fading t v)
    (h : Tracing t w) (hs : TimedStep w input v os) : Tracing t v := by
  have hown : ∀ roomId, ∀ a ∈ w.assigns, a.Owes roomId →
      ∃ b ∈ w.assigns, b.Owes roomId ∧ a.since = b.since := fun _ a ha ho => ⟨a, ha, ho, rfl⟩
  have hown' : ∀ roomId, ∀ b ∈ w.assigns, b.Owes roomId → ∃ a ∈ w.assigns, a.Owes roomId :=
    fun _ b hb ho => ⟨b, hb, ho⟩
  have hset : ∀ {p q : Process}, w.processes.get? p.shard = some p → p.Becomes w.now q →
      ∀ r ∈ w.processes.rows, ∃ r' ∈ (w.processes.set q).rows, r.Becomes w.now r' := by
    intro p q hp hb r hr
    by_cases hk : r.shard = q.shard
    · obtain rfl := rows_inj hr (get?_eq_some.mp hp).1 (hk.trans hb.shard)
      exact ⟨q, mem_rows_set.mpr (.inl rfl), hb⟩
    · exact ⟨r, mem_rows_set.mpr (.inr ⟨hr, hk⟩), .rest⟩
  cases hs with
  | tick ms =>
    intro roomId shard hsh
    obtain ⟨W, hW⟩ := h roomId shard hsh
    exact ⟨W, hW.rest rfl (Nat.le_add_right _ _) rfl (hown _) (hown' _)⟩
  | @start identity hnew =>
    intro roomId shard hsh
    obtain ⟨W, hW⟩ := h roomId shard hsh
    refine ⟨W, hW.quiet (fun r hr => ?_) (fun r hr => ?_) le_rfl rfl (hown _) (hown' _)⟩
    · rcases mem_rows_set.mp hr with rfl | ⟨hr, -⟩
      · exact .inr ⟨identity, hnew, rfl⟩
      · exact .inl ⟨r, hr, .rest⟩
    · refine ⟨r, mem_rows_set.mpr (.inr ⟨hr, fun he => hnew ?_⟩), .rest⟩
      exact mem_keys.mpr ⟨r, hr, he⟩
  | @process p env input s os hp hd hin hstep =>
    intro roomId shard hsh
    obtain ⟨W, hW⟩ := h roomId shard hsh
    have hmem := (get?_eq_some.mp hp).1
    have hb := process_becomes w.now
      (if ServerInput.isHeartbeat input then w.now else p.beat) (hrun p hmem) hd hstep
    exact ⟨W, hW.quiet (undisturbed_set hmem rfl hb) (hset hp hb) le_rfl rfl (hown _) (hown' _)⟩
  | @refresh p env x l pipe hp hq hr =>
    have hmem := (get?_eq_some.mp hp).1
    obtain ⟨hv, hn, ha⟩ := proc_expireKey (w.setProcess { p with pipe := pipe }) l
    intro roomId shard hsh
    rw [redis_expireKey] at hsh
    obtain ⟨W, hW⟩ := h roomId shard hsh
    have hpipe := (hi.processes p hmem).pipe
    rw [hq] at hpipe
    refine ⟨W, hW.pop hi hp hv rfl rfl hn ha (fun y => whole_not_waits hpipe.refresh.2 y _) ?_⟩
    by_cases hl : .room roomId = l
    · subst hl
      exact .inr ⟨deadline_of_shard hsh, x, by rw [Process.Waits, hq]; rfl⟩
    · refine .inl ⟨deadline_expireKey _ hl, fun y hy => ?_⟩
      rw [Process.Waits, hq] at hy
      cases hy
      exact hl rfl
  | data hp hq _ ha => exact data_tracing hi hf h hp hq ha rfl hi' hf'
  | @crash p n hp hd hcut =>
    intro roomId shard hsh
    obtain ⟨W, hW⟩ := h roomId shard hsh
    have hb : p.Becomes w.now { p with died := some w.now, pipe := p.pipe.take n } :=
      .crash hd hcut
    exact ⟨W, hW.quiet (undisturbed_set (get?_eq_some.mp hp).1 rfl hb) (hset hp hb) le_rfl rfl
      (hown _) (hown' _)⟩
  | pick hh hr =>
    intro roomId shard hsh
    obtain ⟨W, hW⟩ := h roomId shard hsh
    refine ⟨W, hW.rest rfl le_rfl rfl (fun a ha ho => ?_)
      fun b hb ho => ⟨b, List.mem_cons_of_mem _ hb, ho⟩⟩
    rcases List.mem_cons.mp ha with rfl | ha
    · exact ho.elim
    · exact ⟨a, ha, ho, rfl⟩
  | assign ha _ => exact assign_tracing hi hf h ha rfl hi' hf'
  | deliver _ => exact h.remove rfl rfl rfl rfl rfl
  | unindex _ =>
    intro roomId shard hsh
    obtain ⟨W, hW⟩ := h roomId shard hsh
    exact ⟨W, hW.rest rfl le_rfl rfl (hown _) (hown' _)⟩
  | expire _ => exact h.remove rfl rfl rfl rfl rfl

end

/-! ### Runs -/

section
variable [Runtime]

/-- What matchmaking sees of a key. -/
def TimedCluster.visible (w : TimedCluster) (key : RedisKey) : Bool :=
  holds w.redis key && w.ready key

omit [Runtime] in
theorem newTimedCluster_fading (t : Timing) : Fading t newTimedCluster where
  stamps p hp := by cases hp
  own p hp := by cases hp
  near key d hd := by cases hd
  bound p hp := by cases hp
  owed p hp := by cases hp
  unknown _ _ := rfl
  picked a ha := by cases ha

theorem timed_faded {t : Timing} {s : TimedCluster × Seen}
    (hr : Machine.Reachable (keptSystem t) s) : Fading t s.1 ∧ Tracing t s.1 := by
  refine hr.invariant_of (J := fun s => Inv t s.1 s.2 ∧ ∀ p ∈ s.1.processes.rows,
    ∀ room ∈ p.server.rooms.rows, room.Coherent)
    (I := fun s => Fading t s.1 ∧ Tracing t s.1) ?_ ?_ ?_
  · intro s hs
    exact ⟨timed_inv hs, fun p hp =>
      server_room_coherent (timed_servers hs.of_observe_restrict p hp)⟩
  · intro s hs
    obtain ⟨hs, -⟩ := hs
    change s.1 = newTimedCluster at hs
    rw [hs]
    refine ⟨newTimedCluster_fading t, fun roomId shard hsh => ?_⟩
    cases hsh
  · intro s i v os hj h hs
    obtain ⟨hin, hstep, hg⟩ := hs
    have hevent := timed_step hstep
    have hinv := timedStep_inv hj.2 hj.1 hin hevent
    have hfading := timedStep_fading hj.2 hj.1 h.1 hevent
    exact ⟨hfading, timedStep_tracing hj.2 hj.1 hinv h.1 hfading h.2 hevent⟩

/-- A dead process's load is seen until its last report has run out and no longer, so no new room
is placed on it; after twice that time and twice the time that a request may take, no record that
anyone can see names it. -/
theorem dead_forgotten (t : Timing) (w : TimedCluster) (g : Seen)
    (hr : Machine.Reachable (keptSystem t) (w, g)) :
    ∀ p ∈ w.processes.rows, ∀ c ∈ p.died,
      (c + t.delay + ttl < w.now → w.visible (.session p.shard) = false) ∧
        (c + 2 * (t.delay + ttl + t.handling) < w.now → ∀ roomId,
          w.visible (.room roomId) = true → (w.redis.room roomId).shard ≠ some p.shard) := by
  intro p hp c hc
  have hinv : Inv t w g := timed_inv hr
  have hfaded : Fading t w ∧ Tracing t w := timed_faded hr
  obtain ⟨hfading, htracing⟩ := hfaded
  refine ⟨fun hlate => ?_, fun hlate roomId hv hsh => ?_⟩
  · by_contra hv
    rw [Bool.not_eq_false, TimedCluster.visible, Bool.and_eq_true] at hv
    have hseen := hfading.seen hinv hp hc hv.1 hv.2
    omega
  · rw [TimedCluster.visible, Bool.and_eq_true] at hv
    obtain ⟨W, hW⟩ := htracing roomId p.shard hsh
    have hdead := hW.dead p hp rfl c hc
    cases hd : w.deadline (.room roomId) with
    | none =>
      have hsoon := hW.soon hinv hd
      omega
    | some d =>
      have hready := ready_deadline hv.2 hd
      have hnear := hW.near d hd
      omega

end

/-! ### Runs on fixed inputs -/

/-- The process of `eightySeconds` dies, and nothing happens for a while. -/
def afterDeath : List TimedInput := eightySeconds ++ [.crash (utf16 "a") 0, .tick 160001]

theorem afterDeath_run : ∃ s os, Machine.Run (@keptSystem plainRuntime calm) afterDeath s os ∧
    s.1.now = 240001 ∧ ∃ p ∈ s.1.processes.rows, p.died = some 80000 :=
  ⟨_, _, @Machine.exec_observe_restrict_run _ _ _ _ newTimedCluster
    (@TimedCluster.step plainRuntime) unseen (@Seen.record plainRuntime)
    (fun s => InTime calm s.1) _ afterDeath (by decide +kernel), by decide +kernel,
    by decide +kernel⟩

theorem afterDeath_forgotten : ∃ w g os,
    Machine.Run (@keptSystem plainRuntime calm) afterDeath (w, g) os ∧
      ∃ p ∈ w.processes.rows, w.visible (.session p.shard) = false ∧
        ∀ roomId, w.visible (.room roomId) = true →
          (w.redis.room roomId).shard ≠ some p.shard := by
  obtain ⟨⟨w, g⟩, os, hrun, hnow, p, hp, hd⟩ := afterDeath_run
  have hlate : 80000 + 2 * (calm.delay + ttl + calm.handling) < 240001 := by decide
  have hsooner : 80000 + calm.delay + ttl < 240001 := by decide
  dsimp only at hnow hp
  rw [← hnow] at hlate hsooner
  have hgone := @dead_forgotten plainRuntime calm w g ⟨_, os, hrun⟩ p hp 80000 hd
  exact ⟨w, g, os, hrun, p, hp, hgone.1 hsooner, hgone.2 hlate⟩

end GachaMind.Timed
