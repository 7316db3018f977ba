import GachaMind.Timed.Keys

/-!
# The heartbeat keeps a process's keys

A process keeps its `session` key and the `room` keys of the rooms it holds. Every heartbeat
refreshes all of them, and a room is reported by the join that opens it, so the rules of
`Refresh` apply to each key by itself: a key that has been kept for longer than a command
takes never passes its deadline, and one that a close callback deletes is back with the next
heartbeat.
-/

namespace GachaMind.Timed
open GachaMind.Js GachaMind.Shared GachaMind.GameSession KeyedTable Refresh

/-- What is known of a key by one process. -/
structure Upheld (t : Timing) (w : TimedCluster) (g : Seen) (p : Process) (key : RedisKey) :
    Prop where
  kept : p.died = none → p.keeps key = true → ∃ o ∈ g.since p.shard key,
    Kept t.period ttl w.now o p.beat (refreshes key p.pipe) (keyOf w g.struck key)
  loose : ∀ o ∈ g.since p.shard key,
    Loose t.period ttl w.now o (refreshes key p.pipe) (keyOf w g.struck key)
  issued : g.since p.shard key = none → refreshes key p.pipe = []

/-- What is known of a process. -/
structure Sound (t : Timing) (w : TimedCluster) (g : Seen) (p : Process) : Prop where
  beat : p.beat ≤ w.now
  beats : p.died = none → w.now ≤ p.beat + t.period
  stamps : ∀ c ∈ p.pipe, c.1 ≤ w.now
  commands : ∀ c ∈ p.pipe, w.now ≤ c.1 + t.delay
  pipe : InFlight (keyOf w g.struck) p.pipe
  upheld : ∀ key, Upheld t w g p key

structure Inv (t : Timing) (w : TimedCluster) (g : Seen) : Prop where
  processes : ∀ p ∈ w.processes.rows, Sound t w g p
  started : ∀ shard, shard ∉ w.processes.keys → ∀ key, g.since shard key = none
  requests : ∀ a ∈ w.assigns, a.since ≤ w.now ∧ w.now ≤ a.since + t.handling
  proper : ∀ key, (keyOf w g.struck key).Proper

section
variable {t : Timing} {w v : TimedCluster} {g g' : Seen} {p : Process} {key : RedisKey}

theorem Upheld.act (h : Upheld t w g p key) (hn : v.now = w.now)
    (ha : Act ttl w.now (keyOf w g.struck key) (keyOf v g'.struck key))
    (hs : g'.since p.shard key = g.since p.shard key) : Upheld t v g' p key where
  kept hd hk := by
    obtain ⟨o, ho, hkept⟩ := h.kept hd hk
    rw [hs, hn]
    exact ⟨o, ho, hkept.act ha⟩
  loose o ho := by
    rw [hs] at ho
    rw [hn]
    exact (h.loose o ho).act ha
  issued hnone := h.issued (hs ▸ hnone)

theorem Sound.act (h : Sound t w g p) (hn : v.now = w.now)
    (ha : ∀ key, Act ttl w.now (keyOf w g.struck key) (keyOf v g'.struck key))
    (hs : ∀ key, g'.since p.shard key = g.since p.shard key) : Sound t v g' p where
  beat := hn ▸ h.beat
  beats := hn ▸ h.beats
  stamps := hn ▸ h.stamps
  commands := hn ▸ h.commands
  pipe := h.pipe.act h.stamps ha
  upheld key := (h.upheld key).act hn (ha key) (hs key)

theorem keeps_of_get? (hp : w.processes.get? p.shard = some p) (key : RedisKey) :
    w.keeps p.shard key = p.keeps key := by
  simp [TimedCluster.keeps, hp]

theorem keeps_set {p' : Process} {shard : ShardId} (hv : v.processes = w.processes.set p')
    (key : RedisKey) :
    v.keeps shard key = if shard = p'.shard then p'.keeps key else w.keeps shard key := by
  simp only [TimedCluster.keeps, hv, get?_set]
  split_ifs <;> rfl

variable [Runtime] {input : TimedInput} {os : List Effect}

theorem since_record (g : Seen) (w v : TimedCluster) (input : TimedInput) (os : List Effect)
    (shard : ShardId) (key : RedisKey) :
    (g.record w input v os).since shard key =
      if v.keeps shard key = true ∧ w.keeps shard key = false then some v.now
      else g.since shard key := by
  simp only [Seen.record, Bool.and_eq_true, Bool.not_eq_true']

/-- The step of one process, `p'` after it; all others only see what happens to the keys. -/
theorem Inv.set {p' : Process} (h : Inv t w g) (hn : v.now = w.now)
    (hv : v.processes = w.processes.set p')
    (hr : ∀ a ∈ v.assigns, a.since ≤ w.now ∧ w.now ≤ a.since + t.handling)
    (hs : TimedStep w input v os) (hp : Sound t v (g.record w input v os) p') :
    Inv t v (g.record w input v os) where
  processes q hq := by
    rw [hv, mem_rows_set] at hq
    rcases hq with rfl | ⟨hq, hne⟩
    · exact hp
    · refine (h.processes q hq).act hn (step_act hs) fun key => ?_
      rw [since_record, keeps_set hv, if_neg hne, if_neg (by simp)]
  started shard hshard key := by
    rw [hv, mem_keys_set, not_or] at hshard
    rw [since_record, keeps_set hv, if_neg hshard.1]
    have hnone : w.keeps shard key = false := by
      simp [TimedCluster.keeps, get?_eq_none.mpr hshard.2]
    rw [if_neg (by simp [hnone])]
    exact h.started shard hshard.2 key
  requests := hn ▸ hr
  proper key := (step_act hs key).proper (h.proper key)

/-! ### What a process does for its keys -/

omit [Runtime] in
/-- A step of the process `p`, which is `q` after it. -/
theorem Upheld.issue {q : Process} (h : Upheld t w g p key) (hp : Sound t w g p)
    (hd : p.died = none) (hpipe : q.pipe = p.pipe ++ stamp w.now os) (hshard : q.shard = p.shard)
    (hbeat : q.beat ≤ w.now)
    (hquiet : p.keeps key = true → (¬ ∃ e ∈ os, reports e = some key) → q.beat ≤ p.beat)
    (hbegun : p.keeps key = false → q.keeps key = true → ∃ e ∈ os, reports e = some key)
    (hkept : (∃ e ∈ os, reports e = some key) → p.keeps key = true ∨ q.keeps key = true)
    (hn : v.now = w.now) (hkey : keyOf v g'.struck key = keyOf w g.struck key)
    (hs : g'.since p.shard key =
      if q.keeps key = true ∧ p.keeps key = false then some w.now else g.since p.shard key) :
    Upheld t v g' q key := by
  have hq : refreshes key q.pipe = refreshes key p.pipe ++ refreshes key (stamp w.now os) := by
    rw [hpipe, refreshes_append]
  have hall : ∀ o b, Kept t.period ttl w.now o b (refreshes key q.pipe) (keyOf w g.struck key) →
      q.beat ≤ b → g'.since p.shard key = some o → Upheld t v g' q key := by
    intro o b hk hb ho
    rw [← hshard] at ho
    refine ⟨fun _ _ => ⟨o, ho, ?_⟩, fun o' ho' => ?_, fun hnone => ?_⟩
    · rw [hn, hkey]
      exact hk.older hb
    · obtain rfl := Option.some.inj (ho.symm.trans ho')
      rw [hn, hkey]
      exact hk.loose
    · cases hnone.symm.trans ho
  cases hb : p.keeps key with
  | true =>
    obtain ⟨o, ho, hk⟩ := h.kept hd hb
    refine hall o q.beat ?_ le_rfl (by rw [hs, if_neg (by simp [hb]), ho])
    rw [hq]
    exact hk.issue_all refreshes_stamp (hp.beats hd) hbeat fun hnone =>
      hquiet hb fun he => refreshes_stamp_ne.mpr he hnone
  | false =>
    cases ha : q.keeps key with
    | true =>
      have hne : refreshes key (stamp w.now os) ≠ [] := refreshes_stamp_ne.mpr (hbegun hb ha)
      refine hall w.now w.now ?_ hbeat (by rw [hs, if_pos ⟨ha, hb⟩])
      rw [hq]
      obtain ⟨x, new, hnew⟩ := List.exists_cons_of_ne_nil hne
      have heq : ∀ x ∈ refreshes key (stamp w.now os), x = w.now := refreshes_stamp
      rw [hnew] at heq ⊢
      obtain rfl := heq x List.mem_cons_self
      rw [List.append_cons]
      refine (Kept.start fun y hy => hp.stamps _ (mem_refreshes.mp hy)).issue_all
        (fun y hy => heq y (List.mem_cons_of_mem _ hy)) (Nat.le_add_right _ _) le_rfl
        fun _ => le_rfl
    | false =>
      have hnone : refreshes key (stamp w.now os) = [] := by
        by_contra hne
        rcases hkept (refreshes_stamp_ne.mp hne) with hk | hk
        · cases hb.symm.trans hk
        · cases ha.symm.trans hk
      rw [hnone, List.append_nil] at hq
      rw [if_neg (by simp [ha]), ← hshard] at hs
      refine ⟨fun _ hk => absurd hk (by simp [ha]), fun o ho => ?_, fun hno => ?_⟩
      · rw [hn, hkey, hq]
        rw [hs, hshard] at ho
        exact h.loose o ho
      · rw [hq]
        rw [hs, hshard] at hno
        exact h.issued hno

omit [Runtime] in
theorem Upheld.congr {q : Process} (h : Upheld t w g p key) (hd : q.died = p.died)
    (hk : q.keeps key = p.keeps key) (hb : q.beat = p.beat) (hs : q.shard = p.shard)
    (hr : refreshes key q.pipe = refreshes key p.pipe) : Upheld t w g q key where
  kept hd' hk' := by
    rw [hs, hb, hr]
    exact h.kept (hd ▸ hd') (hk ▸ hk')
  loose := by
    rw [hs, hr]
    exact h.loose
  issued := by
    rw [hs, hr]
    exact h.issued

omit [Runtime] in
/-- The next refresh of the process is carried out. -/
theorem Upheld.refresh {x : ℕ} {l : RedisKey} {pipe : List (ℕ × TimedCommand)}
    (h : Upheld t w g p key) (hq : p.pipe = (x, .expire l) :: pipe) (hx : x ≤ w.now)
    (hw : Written x (keyOf w g.struck l)) (hproper : (keyOf w g.struck l).Proper)
    (hn : v.now = w.now) (hs : g'.since p.shard key = g.since p.shard key)
    (hkey : keyOf v g'.struck key =
      if key = l then (keyOf w g.struck key).extend (w.now + ttl) else keyOf w g.struck key) :
    Upheld t v g' { p with pipe := pipe } key := by
  have hpop : refreshes key p.pipe =
      if key = l then x :: refreshes key pipe else refreshes key pipe := by
    rw [hq]
    by_cases hk : key = l
    · simp [refreshes, TimedCommand.refreshes, hk]
    · simp [refreshes, TimedCommand.refreshes, hk, Ne.symm hk]
  have hissued : g.since p.shard key = none → refreshes key pipe = [] := by
    intro hnone
    have hall := h.issued hnone
    rw [hpop] at hall
    split_ifs at hall
    exact hall
  split_ifs at hkey hpop with hk
  · subst hk
    refine ⟨fun hd hkeeps => ?_, fun o ho => ?_, fun hnone => hissued (hs ▸ hnone)⟩
    · obtain ⟨o, ho, hkept⟩ := h.kept hd hkeeps
      rw [hpop] at hkept
      refine ⟨o, hs.trans ho, ?_⟩
      rw [hn, hkey]
      exact hkept.carry hx hw hproper
    · have hloose := h.loose o (hs.symm.trans ho)
      rw [hpop] at hloose
      rw [hn, hkey]
      exact hloose.carry hx hw hproper
  · refine ⟨fun hd hkeeps => ?_, fun o ho => ?_, fun hnone => hissued (hs ▸ hnone)⟩
    · obtain ⟨o, ho, hkept⟩ := h.kept hd hkeeps
      rw [hpop] at hkept
      refine ⟨o, hs.trans ho, ?_⟩
      rw [hn, hkey]
      exact hkept
    · have hloose := h.loose o (hs.symm.trans ho)
      rw [hpop] at hloose
      rw [hn, hkey]
      exact hloose

omit [Runtime] in
theorem Upheld.crash {n now : ℕ} (h : Upheld t w g p key) :
    Upheld t w g { p with died := some now, pipe := p.pipe.take n } key := by
  have hcut : refreshes key p.pipe =
      refreshes key (p.pipe.take n) ++ refreshes key (p.pipe.drop n) := by
    rw [← refreshes_append, List.take_append_drop]
  refine ⟨fun hd _ => (by cases hd), fun o ho => ?_, fun hnone => ?_⟩
  · have hloose := h.loose o ho
    rw [hcut] at hloose
    exact hloose.of_append
  · have hall := h.issued hnone
    rw [hcut, List.append_eq_nil_iff] at hall
    exact hall.1

omit [Runtime] in
theorem Upheld.start {identity : ShardIdentity}
    (hs : g'.since identity.shardId key =
      if (newProcess w.now identity).keeps key = true then some w.now else none) :
    Upheld t v g' (newProcess w.now identity) key := by
  have hshard : (newProcess w.now identity).shard = identity.shardId := rfl
  have hpipe : refreshes key (newProcess w.now identity).pipe =
      if (newProcess w.now identity).keeps key = true then [w.now] else [] := by
    cases key with
    | room roomId => rfl
    | session shard =>
      simp only [keeps_session, hshard]
      by_cases hk : shard = identity.shardId
      · subst hk
        rw [if_pos rfl]
        simp [refreshes, newProcess, stamp, timedCommands, TimedCommand.refreshes, newServer,
          Server.sessionLoad]
      · rw [if_neg hk]
        simp [refreshes, newProcess, stamp, timedCommands, TimedCommand.refreshes, newServer,
          Server.sessionLoad, Ne.symm hk]
  rw [← hshard] at hs
  split_ifs at hs hpipe with hk
  · have hkept : Kept t.period ttl v.now w.now w.now
        (refreshes key (newProcess w.now identity).pipe) (keyOf v g'.struck key) := by
      rw [hpipe, ← List.nil_append [w.now]]
      exact Kept.start fun _ hx => absurd hx List.not_mem_nil
    refine ⟨fun _ _ => ⟨w.now, hs, hkept⟩, fun o ho => ?_, fun hnone => ?_⟩
    · obtain rfl := Option.some.inj (hs.symm.trans ho)
      exact hkept.loose
    · cases hs.symm.trans hnone
  · refine ⟨fun _ hkeeps => absurd hkeeps hk, fun o ho => ?_, fun _ => hpipe⟩
    cases hs.symm.trans ho

/-! ### Every event keeps what is known -/

omit [Runtime] in
theorem proc_expireKey (w : TimedCluster) (l : RedisKey) :
    (w.expireKey l).processes = w.processes ∧ (w.expireKey l).now = w.now ∧
      (w.expireKey l).assigns = w.assigns := by
  unfold TimedCluster.expireKey
  split_ifs <;> exact ⟨rfl, rfl, rfl⟩

omit [Runtime] in
theorem proc_expireKeyNew (w : TimedCluster) (l : RedisKey) :
    (w.expireKeyNew l).processes = w.processes ∧ (w.expireKeyNew l).now = w.now ∧
      (w.expireKeyNew l).assigns = w.assigns := by
  unfold TimedCluster.expireKeyNew
  split_ifs
  · exact proc_expireKey w l
  · exact ⟨rfl, rfl, rfl⟩

omit [Runtime] in
theorem advance_frame (w : TimedCluster) (a : Assign) (code : RoomId) :
    (w.advance a code).processes = w.processes ∧ (w.advance a code).now = w.now ∧
      ∀ b ∈ (w.advance a code).assigns,
        (b.shard = a.shard ∧ b.since = a.since) ∨ b ∈ w.assigns := by
  unfold TimedCluster.advance
  split
  · exact ⟨rfl, rfl, fun b hb => (List.mem_cons.mp hb).imp_left fun hb => by simp [hb]⟩
  · rename_i roomId won lost _
    obtain ⟨hp, hn, ha⟩ := proc_expireKeyNew
      { w with assigns := a.afterBid roomId won lost ++ w.assigns } (.room roomId)
    refine ⟨hp, hn, fun b hb => ?_⟩
    rw [ha] at hb
    refine (List.mem_append.mp hb).imp_left fun hb => ?_
    unfold Assign.afterBid at hb
    split_ifs at hb
    · simp [List.mem_singleton.mp hb]
    · simp [List.mem_singleton.mp hb]
    · cases hb
  · exact ⟨rfl, rfl, fun b hb => (List.mem_cons.mp hb).imp_left fun hb => by simp [hb]⟩
  · obtain ⟨hp, hn, ha⟩ := proc_expireKey w (.room _)
    exact ⟨hp, hn, fun b hb => .inr (ha ▸ hb)⟩

theorem Inv.same (h : Inv t w g) (hn : v.now = w.now) (hv : v.processes = w.processes)
    (hr : ∀ a ∈ v.assigns, a.since ≤ w.now ∧ w.now ≤ a.since + t.handling)
    (hs : TimedStep w input v os) : Inv t v (g.record w input v os) where
  processes q hq := by
    rw [hv] at hq
    refine (h.processes q hq).act hn (step_act hs) fun key => ?_
    rw [since_record, TimedCluster.keeps, hv, ← TimedCluster.keeps, if_neg (by simp)]
  started shard hshard key := by
    rw [since_record, TimedCluster.keeps, hv, ← TimedCluster.keeps, if_neg (by simp)]
    exact h.started shard (hv ▸ hshard) key
  requests := hn ▸ hr
  proper key := (step_act hs key).proper (h.proper key)

omit [Runtime] in
theorem keeps_congr {q : Process} (hrooms : q.server.rooms = p.server.rooms)
    (hself : q.server.self = p.server.self) (key : RedisKey) : q.keeps key = p.keeps key := by
  cases key with
  | room roomId => simp only [Process.keeps, hrooms]
  | session shard => rw [Bool.eq_iff_iff, keeps_session, keeps_session, Process.shard, hself,
      Process.shard]

theorem answer_frame {r : Redis} {env : Env} {c : Command} {s : Server}
    (h : TimedCluster.answer r p env c = some (s, os)) :
    s.rooms = p.server.rooms ∧ s.self = p.server.self := by
  unfold TimedCluster.answer at h
  split at h
  · split_ifs at h with hd
    · cases h
      exact ⟨rfl, rfl⟩
    · obtain ⟨rfl, -⟩ := step_settle h
      exact ⟨rfl, rfl⟩
  · cases h
    exact ⟨rfl, rfl⟩

theorem struck_record (g : Seen) (w v : TimedCluster) (os : List Effect)
    (h : removed input = none) : (g.record w input v os).struck = g.struck := by
  funext key
  simp [Seen.record, h]

theorem since_set {p' : Process} (g : Seen) (hp : w.processes.get? p.shard = some p)
    (hshard : p'.shard = p.shard) (hv : v.processes = w.processes.set p') (key : RedisKey) :
    (g.record w input v os).since p.shard key =
      if p'.keeps key = true ∧ p.keeps key = false then some v.now else g.since p.shard key := by
  rw [since_record, keeps_set hv, if_pos hshard.symm, keeps_of_get? hp]

theorem since_still {p' : Process} (g : Seen) (hp : w.processes.get? p.shard = some p)
    (hshard : p'.shard = p.shard) (hv : v.processes = w.processes.set p')
    (hk : p'.keeps key = p.keeps key) :
    (g.record w input v os).since p.shard key = g.since p.shard key := by
  rw [since_set g hp hshard hv, hk]
  exact if_neg fun h => Bool.false_ne_true (h.2.symm.trans h.1)

theorem Inv.tick {ms : ℕ} (h : Inv t w g) (hin : Punctual t w (w.now + ms)) :
    Inv t { w with now := w.now + ms }
      (g.record w (.tick ms) { w with now := w.now + ms } []) := by
  have hsince : ∀ shard key,
      (g.record w (.tick ms) { w with now := w.now + ms } []).since shard key =
        g.since shard key := by
    intro shard key
    rw [since_record]
    exact if_neg fun hk => Bool.false_ne_true (hk.2.symm.trans hk.1)
  refine ⟨fun p hp => ?_, fun shard hs key => ?_, fun a ha => ?_, h.proper⟩
  · have hsound := h.processes p hp
    refine ⟨hsound.beat.trans (Nat.le_add_right _ _), hin.beats p hp,
      fun c hc => (hsound.stamps c hc).trans (Nat.le_add_right _ _), hin.commands p hp,
      hsound.pipe, fun key => ⟨fun hd hk => ?_, fun o ho => ?_, fun hnone => ?_⟩⟩
    · obtain ⟨o, ho, hkept⟩ := (hsound.upheld key).kept hd hk
      exact ⟨o, (hsince _ _).trans ho, hkept.tick (Nat.le_add_right _ _)⟩
    · exact ((hsound.upheld key).loose o ((hsince _ _).symm.trans ho)).tick (Nat.le_add_right _ _)
    · exact (hsound.upheld key).issued ((hsince _ _).symm.trans hnone)
  · exact (hsince _ _).trans (h.started shard hs key)
  · exact ⟨(h.requests a ha).1.trans (Nat.le_add_right _ _), hin.requests a ha⟩

theorem Sound.process {q : Process} {env : Env} {input : ServerInput} (h : Sound t w g p)
    (hrun : ∀ room ∈ p.server.rooms.rows, room.Coherent) (hd : p.died = none)
    (hstep : p.server.step (env, input) = some (q.server, os))
    (hpipe : q.pipe = p.pipe ++ stamp w.now os)
    (hbeat : q.beat = if ServerInput.isHeartbeat input then w.now else p.beat)
    (hn : v.now = w.now) (hkeys : keyOf v g'.struck = keyOf w g.struck)
    (hs : ∀ key, g'.since p.shard key =
      if q.keeps key = true ∧ p.keeps key = false then some w.now else g.since p.shard key) :
    Sound t v g' q := by
  have hbefore : q.beat ≤ w.now ∧ w.now ≤ q.beat + t.period := by
    rw [hbeat]
    split_ifs
    · exact ⟨le_rfl, Nat.le_add_right _ _⟩
    · exact ⟨h.beat, h.beats hd⟩
  have hpipe' : ∀ c ∈ q.pipe, c ∈ p.pipe ∨ c.1 = w.now := by
    intro c hc
    rw [hpipe] at hc
    refine (List.mem_append.mp hc).imp_right fun hc => ?_
    obtain ⟨_, -, rfl⟩ := List.mem_map.mp hc
    rfl
  refine ⟨hn ▸ hbefore.1, fun _ => hn ▸ hbefore.2, fun c hc => ?_, fun c hc => ?_, ?_,
    fun key => ?_⟩
  · rw [hn]
    rcases hpipe' c hc with hc | hc
    · exact h.stamps c hc
    · exact hc.le
  · rw [hn]
    rcases hpipe' c hc with hc | hc
    · exact h.commands c hc
    · omega
  · rw [hpipe, hkeys]
    exact h.pipe.append (whole_stamp _ _)
  · refine (h.upheld key).issue h hd hpipe ?_ hbefore.1 (fun hk hno => ?_)
      (begun_reported hrun hstep) (reported_kept hrun hstep) hn (congrFun hkeys key) (hs key)
    · rw [Process.shard, step_self hstep, Process.shard]
    · rw [hbeat]
      split_ifs with hb
      · cases input with
        | heartbeat => exact absurd (heartbeat_reports hstep hk) hno
        | _ => cases hb
      · exact le_rfl

omit [Runtime] in
theorem Sound.refresh {x : ℕ} {l : RedisKey} {pipe : List (ℕ × TimedCommand)}
    (h : Sound t w g p) (hq : p.pipe = (x, .expire l) :: pipe)
    (hproper : (keyOf w g.struck l).Proper) (hn : v.now = w.now)
    (hkeys : ∀ key, keyOf v g'.struck key =
      if key = l then (keyOf w g.struck key).extend (w.now + ttl) else keyOf w g.struck key)
    (hs : ∀ key, g'.since p.shard key = g.since p.shard key) :
    Sound t v g' { p with pipe := pipe } := by
  have hpipe := h.pipe
  rw [hq] at hpipe
  obtain ⟨hw, hwhole⟩ := hpipe.refresh
  have hsub : ∀ c ∈ pipe, c ∈ p.pipe := fun c hc => hq ▸ List.mem_cons_of_mem _ hc
  have hx : x ≤ w.now := h.stamps _ (hq ▸ List.mem_cons_self)
  refine ⟨hn ▸ h.beat, hn ▸ h.beats, fun c hc => hn ▸ h.stamps c (hsub c hc),
    fun c hc => hn ▸ h.commands c (hsub c hc), .inl hwhole, fun key => ?_⟩
  exact (h.upheld key).refresh hq hx hw hproper hn (hs key) (hkeys key)

theorem Sound.data {x : ℕ} {c : Command} {pipe : List (ℕ × TimedCommand)} {env : Env}
    {s : Server} {r : Redis} (h : Sound t w g p) (hq : p.pipe = (x, .data c) :: pipe)
    (ha : TimedCluster.answer r p env c = some (s, os)) (hn : v.now = w.now)
    (hact : ∀ key, Act ttl w.now (keyOf w g.struck key) (keyOf v g'.struck key))
    (hw : ∀ key, writes c = some key → (keyOf v g'.struck key).present = true)
    (hs : ∀ key, g'.since p.shard key = g.since p.shard key) :
    Sound t v g' { p with server := s, pipe := pipe } := by
  obtain ⟨hrooms, hself⟩ := answer_frame ha
  have hshard : ({ p with server := s, pipe := pipe } : Process).shard = p.shard := by
    rw [Process.shard, hself, Process.shard]
  have hsub : ∀ c ∈ pipe, c ∈ p.pipe := fun c hc => hq ▸ List.mem_cons_of_mem _ hc
  have hpipe := h.pipe
  rw [hq] at hpipe
  refine ⟨hn ▸ h.beat, hn ▸ h.beats, fun c hc => hn ▸ h.stamps c (hsub c hc),
    fun c hc => hn ▸ h.commands c (hsub c hc), hpipe.data hw, fun key => ?_⟩
  refine ((h.upheld key).act hn (hact key) (hs key)).congr rfl (keeps_congr hrooms hself key) rfl
    hshard ?_
  rw [hq]
  simp [refreshes, TimedCommand.refreshes]

omit [Runtime] in
theorem Sound.crash {n : ℕ} (h : Sound t w g p)
    (hcut : ∀ c ∈ (p.pipe.drop n).head?, c.2.refreshes = none) :
    Sound t w g { p with died := some w.now, pipe := p.pipe.take n } where
  beat := h.beat
  beats hd := by cases hd
  stamps c hc := h.stamps c (List.mem_of_mem_take hc)
  commands c hc := h.commands c (List.mem_of_mem_take hc)
  pipe := h.pipe.take n hcut
  upheld key := (h.upheld key).crash

theorem timedStep_inv (hrun : ∀ p ∈ w.processes.rows, ∀ room ∈ p.server.rooms.rows, room.Coherent)
    (h : Inv t w g) (hin : InTime t w input) (hs : TimedStep w input v os) :
    Inv t v (g.record w input v os) := by
  have hevent := hs
  cases hs with
  | tick ms => exact h.tick hin
  | @start identity hnew =>
    refine h.set rfl rfl h.requests hevent ?_
    have hshard : (newProcess w.now identity).shard = identity.shardId := rfl
    refine ⟨le_rfl, fun _ => Nat.le_add_right _ _, fun c hc => ?_, fun c hc => ?_,
      .inl (whole_stamp _ _), fun key => .start ?_⟩
    · obtain ⟨_, -, rfl⟩ := List.mem_map.mp hc
      exact le_rfl
    · obtain ⟨_, -, rfl⟩ := List.mem_map.mp hc
      exact Nat.le_add_right _ _
    · have hnone : w.keeps identity.shardId key = false := by
        simp [TimedCluster.keeps, get?_eq_none.mpr hnew]
      rw [since_record, keeps_set rfl, if_pos hshard.symm, hnone, h.started _ hnew key]
      simp only [and_true]
      rfl
  | @process p env input s os hp hd hi hstep =>
    have hmem := (get?_eq_some.mp hp).1
    refine h.set rfl rfl h.requests hevent ?_
    refine (h.processes p hmem).process (hrun p hmem) hd hstep rfl rfl rfl ?_ fun key => ?_
    · rw [struck_record _ _ _ _ rfl]
      rfl
    · refine since_set g hp ?_ rfl key
      rw [Process.shard, step_self hstep, Process.shard]
  | @refresh p env x l pipe hp hq hr =>
    have hmem := (get?_eq_some.mp hp).1
    obtain ⟨hv, hn, ha⟩ := proc_expireKey (w.setProcess { p with pipe := pipe }) l
    refine h.set hn hv (ha ▸ h.requests) hevent ?_
    refine (h.processes p hmem).refresh hq (h.proper l) hn (fun key => ?_) fun key => ?_
    · rw [struck_record _ _ _ _ rfl, keyOf_expireKey]
      rfl
    · have hshard : ({ p with pipe := pipe } : Process).shard = p.shard := rfl
      exact since_still g hp hshard hv (keeps_congr rfl rfl key)
  | @data p env x c pipe s os hp hq hr ha =>
    have hmem := (get?_eq_some.mp hp).1
    refine h.set rfl rfl h.requests hevent ?_
    refine (h.processes p hmem).data hq ha rfl (step_act hevent) (fun key hk => ?_) fun key => ?_
    · change holds (JoinableIndex.runCommand w.redis c) key = true
      rw [holds_runCommand, if_pos hk]
    · obtain ⟨hrooms, hself⟩ := answer_frame ha
      have hshard : ({ p with server := s, pipe := pipe } : Process).shard = p.shard := by
        rw [Process.shard, hself, Process.shard]
      exact since_still g hp hshard rfl (keeps_congr hrooms hself key)
  | @crash p n hp hd hcut =>
    have hmem := (get?_eq_some.mp hp).1
    refine h.set rfl rfl h.requests hevent ?_
    refine ((h.processes p hmem).crash hcut).act rfl (step_act hevent) fun key => ?_
    have hshard : ({ p with died := some w.now, pipe := p.pipe.take n } : Process).shard =
      p.shard := rfl
    exact since_still (p := p) g hp hshard rfl (keeps_congr rfl rfl key)
  | pick hh hr =>
    refine h.same rfl rfl (fun a ha => ?_) hevent
    rcases List.mem_cons.mp ha with rfl | ha
    · exact ⟨le_rfl, Nat.le_add_right _ _⟩
    · exact h.requests a ha
  | @assign a code ha hr =>
    obtain ⟨hv, hn, hall⟩ := advance_frame { w with assigns := w.assigns.erase a } a code
    refine h.same hn hv (fun b hb => ?_) hevent
    rcases hall b hb with ⟨-, hb⟩ | hb
    · rw [hb]
      exact h.requests a ha
    · exact h.requests b (List.mem_of_mem_erase hb)
  | deliver _ => exact h.same rfl rfl h.requests hevent
  | unindex _ => exact h.same rfl rfl h.requests hevent
  | expire _ => exact h.same rfl rfl h.requests hevent

end

/-! ### Runs -/

section
variable [Runtime]

/-- The cluster with what has been seen of its keys, in runs without anything overdue. -/
def keptSystem (t : Timing) : Machine.System (TimedCluster × Seen) TimedInput Effect :=
  (timedSystem.observe unseen Seen.record).restrict fun s => InTime t s.1

theorem timed_servers {w : TimedCluster} (hr : Machine.Reachable timedSystem w) :
    ∀ p ∈ w.processes.rows, Machine.Reachable (serverSystem p.server.self) p.server := by
  refine hr.invariant (I := fun w => ∀ p ∈ w.processes.rows,
    Machine.Reachable (serverSystem p.server.self) p.server) ?_ ?_
  · intro w hw p hp
    obtain rfl := hw
    cases hp
  · intro w i v os h hs
    have hset : ∀ q : Process, Machine.Reachable (serverSystem q.server.self) q.server →
        ∀ p ∈ (w.processes.set q).rows,
          Machine.Reachable (serverSystem p.server.self) p.server := by
      intro q hq p hp
      rcases mem_rows_set.mp hp with rfl | ⟨hp, -⟩
      · exact hq
      · exact h p hp
    have hstep : ∀ {p : Process} {env : Env} {input : ServerInput} {u : Server}
        {os : List Effect}, w.processes.get? p.shard = some p →
        p.server.step (env, input) = some (u, os) → Machine.Reachable (serverSystem u.self) u := by
      intro p env input u os hp hu
      rw [step_self hu]
      exact (h p (get?_eq_some.mp hp).1).step hu
    cases timed_step hs with
    | tick _ => exact h
    | start _ => exact hset _ (.start rfl)
    | process hp _ _ hu => exact hset _ (hstep hp hu)
    | @refresh p _ _ l pipe hp _ _ =>
      rw [(proc_expireKey (w.setProcess { p with pipe := pipe }) l).1]
      exact hset _ (h p (get?_eq_some.mp hp).1)
    | @data p env _ c _ u _ hp _ _ ha =>
      refine hset _ ?_
      unfold TimedCluster.answer at ha
      split at ha
      · split_ifs at ha with hd
        · cases ha
          exact h p (get?_eq_some.mp hp).1
        · exact hstep hp ha
      · cases ha
        exact h p (get?_eq_some.mp hp).1
    | @crash p _ hp _ _ => exact hset _ (h p (get?_eq_some.mp hp).1)
    | pick _ _ => exact h
    | @assign a code _ _ =>
      rw [(advance_frame { w with assigns := w.assigns.erase a } a code).1]
      exact h
    | deliver _ => exact h
    | unindex _ => exact h
    | expire _ => exact h

omit [Runtime] in
theorem newTimedCluster_inv (t : Timing) : Inv t newTimedCluster unseen where
  processes p hp := by cases hp
  started _ _ _ := rfl
  requests a ha := by cases ha
  proper _ _ := rfl

theorem timed_inv {t : Timing} {s : TimedCluster × Seen}
    (hr : Machine.Reachable (keptSystem t) s) : Inv t s.1 s.2 := by
  refine hr.recorded (J := fun w => ∀ p ∈ w.processes.rows, ∀ room ∈ p.server.rooms.rows,
    room.Coherent) (I := Inv t) ?_ ?_ ?_
  · intro w hw p hp
    exact server_room_coherent (timed_servers hw p hp)
  · intro w hw
    obtain rfl := hw
    exact newTimedCluster_inv t
  · intro w g i v os hrun h hin hs
    exact timedStep_inv hrun h hin (timed_step hs)

omit [Runtime] in
theorem ready_of_kept {t : Timing} (hsmall : t.period + t.delay ≤ ttl) {w : TimedCluster} {g : Seen}
    {p : Process} (h : Sound t w g p) (hd : p.died = none) {key : RedisKey}
    (hk : p.keeps key = true) : ∃ since ∈ g.since p.shard key, since + t.delay < w.now →
      w.ready key = true ∧
        (holds w.redis key = true ∨ ∃ s ∈ g.struck key, w.now ≤ s + (t.period + t.delay)) := by
  obtain ⟨o, ho, hkept⟩ := (h.upheld key).kept hd hk
  refine ⟨o, ho, fun hold => ?_⟩
  obtain ⟨hdeadline, hthere⟩ := hkept.alive (fun _ => h.beats hd)
    (fun x hx => h.commands _ (mem_refreshes.mp hx)) hsmall hold
  refine ⟨?_, hthere⟩
  unfold TimedCluster.ready
  cases hw : w.deadline key with
  | none => rfl
  | some d => exact decide_eq_true (hdeadline d hw)

/-- No kept key has expired later than a command takes after it was first kept. -/
structure LapsesEarly (t : Timing) (w : TimedCluster) (g : Seen) : Prop where
  past : ∀ key, ∀ e ∈ g.lapsed key, e ≤ w.now
  early : ∀ p ∈ w.processes.rows, p.died = none → ∀ key, p.keeps key = true →
    ∀ o ∈ g.since p.shard key, ∀ e ∈ g.lapsed key, e ≤ o + t.delay

/-- Time does not run back, and what runs after an event ran before it or has just begun. -/
theorem timedStep_running {w v : TimedCluster} {input : TimedInput} {os : List Effect}
    (hs : TimedStep w input v os) : w.now ≤ v.now ∧ ∀ p ∈ v.processes.rows, p.died = none →
      ∀ q ∈ w.processes.get? p.shard, q.died = none := by
  have hsame : ∀ p ∈ w.processes.rows, p.died = none →
      ∀ q ∈ w.processes.get? p.shard, q.died = none := by
    intro p hp hd q hq
    rw [get?_of_mem hp] at hq
    rw [← Option.some.inj hq, hd]
  have hset : ∀ r : Process, (r.died = none → ∀ q ∈ w.processes.get? r.shard, q.died = none) →
      ∀ p ∈ (w.processes.set r).rows, p.died = none →
        ∀ q ∈ w.processes.get? p.shard, q.died = none := by
    intro r hr p hp
    rcases mem_rows_set.mp hp with rfl | ⟨hp, -⟩
    · exact hr
    · exact hsame p hp
  have hkeep : ∀ {p r : Process}, w.processes.get? p.shard = some p → r.shard = p.shard →
      r.died = p.died → r.died = none → ∀ q ∈ w.processes.get? r.shard, q.died = none := by
    intro p r hp hshard hdied hd q hq
    rw [hshard, hp] at hq
    rw [← Option.some.inj hq, ← hdied, hd]
  cases hs with
  | tick ms => exact ⟨Nat.le_add_right _ _, hsame⟩
  | @start identity hnew =>
    refine ⟨le_rfl, hset _ fun _ q hq => ?_⟩
    have hnone : w.processes.get? (newProcess w.now identity).shard = none :=
      get?_eq_none.mpr hnew
    rw [hnone] at hq
    cases hq
  | @process p env input s os hp hd hi hstep =>
    refine ⟨le_rfl, hset _ (hkeep hp ?_ rfl)⟩
    rw [Process.shard, step_self hstep, Process.shard]
  | @refresh p env x l pipe hp hq hr =>
    obtain ⟨hv, hn, -⟩ := proc_expireKey (w.setProcess { p with pipe := pipe }) l
    rw [hv, hn]
    exact ⟨le_rfl, hset _ (hkeep hp rfl rfl)⟩
  | @data p env x c pipe s os hp hq hr ha =>
    refine ⟨le_rfl, hset _ (hkeep hp ?_ rfl)⟩
    rw [Process.shard, (answer_frame ha).2, Process.shard]
  | crash hp hd hcut => exact ⟨le_rfl, hset _ fun hdied => (by cases hdied)⟩
  | pick _ _ => exact ⟨le_rfl, hsame⟩
  | @assign a code ha hr =>
    obtain ⟨hv, hn, -⟩ := advance_frame { w with assigns := w.assigns.erase a } a code
    rw [hv, hn]
    exact ⟨le_rfl, hsame⟩
  | deliver _ => exact ⟨le_rfl, hsame⟩
  | unindex _ => exact ⟨le_rfl, hsame⟩
  | expire _ => exact ⟨le_rfl, hsame⟩

theorem LapsesEarly.step {t : Timing} (hsmall : t.period + t.delay ≤ ttl) {w v : TimedCluster}
    {g : Seen} {input : TimedInput} {os : List Effect} (h : LapsesEarly t w g) (hi : Inv t w g)
    (hs : TimedStep w input v os) : LapsesEarly t v (g.record w input v os) := by
  obtain ⟨hnow, hrunning⟩ := timedStep_running hs
  have hlapsed : ∀ key, ∀ e ∈ (g.record w input v os).lapsed key,
      (e = w.now ∧ w.ready key = false) ∨ e ∈ g.lapsed key := by
    intro key e he
    change e ∈ (if input.lapses = some key then some w.now else g.lapsed key) at he
    split_ifs at he with hinput
    · left
      refine ⟨(Option.some.inj he).symm, ?_⟩
      cases hs with
      | @expire l hr =>
        obtain rfl := Option.some.inj hinput
        exact hr
      | _ => cases hinput
    · exact .inr he
  have hpast : ∀ key, ∀ e ∈ (g.record w input v os).lapsed key, e ≤ w.now := by
    intro key e he
    rcases hlapsed key e he with ⟨rfl, -⟩ | he
    · exact le_rfl
    · exact h.past key e he
  constructor
  case past => exact fun key e he => (hpast key e he).trans hnow
  case early =>
    intro p hp hd key hk o ho e he
    have hbefore := hpast key e he
    rw [since_record] at ho
    split_ifs at ho with hbegun
    · have hstart : v.now = o := Option.some.inj ho
      omega
    · have hkeeps : v.keeps p.shard key = true := by
        rw [keeps_of_get? (get?_of_mem hp), hk]
      have hold : w.keeps p.shard key = true := by
        by_contra hno
        exact hbegun ⟨hkeeps, Bool.eq_false_of_not_eq_true hno⟩
      -- the same process, before the event
      obtain ⟨q, hq, hqk⟩ : ∃ q, w.processes.get? p.shard = some q ∧ q.keeps key = true := by
        unfold TimedCluster.keeps at hold
        cases hq : w.processes.get? p.shard with
        | none =>
          rw [hq] at hold
          cases hold
        | some q =>
          rw [hq] at hold
          exact ⟨q, rfl, hold⟩
      have hqd := hrunning p hp hd q hq
      obtain ⟨hmem, hshard⟩ := get?_eq_some.mp hq
      rw [← hshard] at ho
      rcases hlapsed key e he with ⟨rfl, hover⟩ | he
      · obtain ⟨since, hsince, hready⟩ := ready_of_kept hsmall (hi.processes q hmem) hqd hqk
        obtain rfl := Option.some.inj (Option.mem_def.mp hsince |>.symm.trans ho)
        by_contra hlate
        rw [(hready (not_le.mp hlate)).1] at hover
        cases hover
      · exact h.early q hmem hqd key hqk o ho e he

theorem timed_lapses {t : Timing} (hsmall : t.period + t.delay ≤ ttl) {s : TimedCluster × Seen}
    (hr : Machine.Reachable (keptSystem t) s) : LapsesEarly t s.1 s.2 := by
  refine hr.invariant_of (J := fun s => Inv t s.1 s.2) (I := fun s => LapsesEarly t s.1 s.2)
    (fun s hs => timed_inv hs) ?_ ?_
  · rintro s ⟨hw, hg⟩
    change s.1 = newTimedCluster at hw
    rw [hw, hg]
    constructor
    case past => exact fun _ _ he => (by cases he)
    case early => exact fun p hp => (by cases hp)
  · intro s i v os hi h hs
    obtain ⟨-, hstep, hg⟩ := hs
    rw [hg]
    exact h.step hsmall hi (timed_step hstep)

/-- A key that a running process has kept for longer than a command takes has not passed its
deadline, and it is there unless it was removed within the last period. No later than that did
it expire, so every later removal was a deletion. -/
theorem heartbeats_keep_keys (t : Timing) (hsmall : t.period + t.delay ≤ ttl)
    (w : TimedCluster) (g : Seen) (hr : Machine.Reachable (keptSystem t) (w, g)) :
    ∀ p ∈ w.processes.rows, p.died = none → ∀ key, p.keeps key = true →
      ∃ since ∈ g.since p.shard key, (∀ e ∈ g.lapsed key, e ≤ since + t.delay) ∧
        (since + t.delay < w.now →
          w.ready key = true ∧
            (holds w.redis key = true ∨
              ∃ s ∈ g.struck key, w.now ≤ s + (t.period + t.delay))) := by
  intro p hp hd key hk
  obtain ⟨since, hsince, hready⟩ := ready_of_kept hsmall ((timed_inv hr).processes p hp) hd hk
  exact ⟨since, hsince, (timed_lapses hsmall hr).early p hp hd key hk since hsince, hready⟩

end

/-! ### Runs on fixed inputs -/

/-- Heartbeats on time, and ten seconds for everything else. -/
def calm : Timing := ⟨0, 10000, 10000⟩

def commandsOf (shard : String) (n : ℕ) : List TimedInput :=
  List.replicate n (.redis (utf16 shard) (plainEnv 1000))

def beatOf (shard : String) (n : ℕ) : List TimedInput :=
  [.tick 20000, .process (utf16 shard) (plainEnv n) .heartbeat] ++ commandsOf shard 5

/-- A process starts, matchmaking gives it a room, a guest opens the room, and four heartbeats
follow. -/
def eightySeconds : List TimedInput :=
  let a (stage : Stage) : TimedInput := .assign ⟨utf16 "a", 0, stage⟩ (utf16 "AB3DE")
  [.start ⟨utf16 "a", utf16 "localhost", 4001⟩] ++ commandsOf "a" 2 ++
  [.pick (utf16 "a"), a (.picked 0), a (.bid (utf16 "AB3DE") true 0), a (.won (utf16 "AB3DE")),
   a (.recorded (utf16 "AB3DE")),
   .process (utf16 "a") (plainEnv 0) (.connect 0 (.ok none)),
   .process (utf16 "a") (plainEnv 1) (.message 0 (joinFrame "AB3DE")),
   .process (utf16 "a") (plainEnv 2) (.resume 0), .redis (utf16 "a") (plainEnv 3),
   .process (utf16 "a") (plainEnv 4) (.resume 0)] ++ commandsOf "a" 5 ++
  beatOf "a" 5 ++ beatOf "a" 6 ++ beatOf "a" 7 ++ beatOf "a" 8

theorem eightySeconds_run : ∃ s os,
    Machine.Run (@keptSystem plainRuntime calm) eightySeconds s os ∧ s.1.now = 80000 ∧
      ∃ p ∈ s.1.processes.rows, p.died = none ∧ p.keeps (.room (utf16 "AB3DE")) = true :=
  ⟨_, _, @Machine.exec_observe_restrict_run _ _ _ _ newTimedCluster
    (@TimedCluster.step plainRuntime) unseen (@Seen.record plainRuntime)
    (fun s => InTime calm s.1) _ eightySeconds (by decide +kernel), by decide +kernel,
    by decide +kernel⟩

theorem eightySeconds_kept : ∃ w g os,
    Machine.Run (@keptSystem plainRuntime calm) eightySeconds (w, g) os ∧ w.now = 80000 ∧
      ∃ p ∈ w.processes.rows, p.died = none ∧ p.keeps (.room (utf16 "AB3DE")) = true ∧
        ∃ since ∈ g.since p.shard (.room (utf16 "AB3DE")),
          (∀ e ∈ g.lapsed (.room (utf16 "AB3DE")), e ≤ since + calm.delay) ∧
            (since + calm.delay < w.now →
              w.ready (.room (utf16 "AB3DE")) = true ∧
                (holds w.redis (.room (utf16 "AB3DE")) = true ∨
                  ∃ s ∈ g.struck (.room (utf16 "AB3DE")),
                    w.now ≤ s + (calm.period + calm.delay))) := by
  obtain ⟨⟨w, g⟩, os, hrun, hnow, p, hp, hd, hk⟩ := eightySeconds_run
  have hkept := @heartbeats_keep_keys plainRuntime calm (by decide) w g ⟨_, os, hrun⟩ p hp hd _ hk
  exact ⟨w, g, os, hrun, hnow, p, hp, hd, hk, hkept⟩

end GachaMind.Timed
