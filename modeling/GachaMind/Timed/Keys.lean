import GachaMind.Timed.Reports

/-!
# One key of Redis

What an event does to a single key is one of the moves of `Refresh`: nothing, a write, an
`EXPIRE` or a removal. The commands of a process reach Redis in whole pipelines, so an `EXPIRE`
finds its key written, unless the key was removed in between.
-/

namespace GachaMind.Timed
open GachaMind.Js GachaMind.Shared GachaMind.GameSession KeyedTable Refresh

/-! ### What happens to one key -/

/-- When a process began to keep a key, when a key was last removed, by a deletion or by its
expiry, and when it last expired. -/
structure Seen where
  since : ShardId → RedisKey → Option ℕ
  struck : RedisKey → Option ℕ
  lapsed : RedisKey → Option ℕ

def TimedCluster.keeps (w : TimedCluster) (shard : ShardId) (key : RedisKey) : Bool :=
  (w.processes.get? shard).any (·.keeps key)

def removed [Runtime] : TimedInput → Option RedisKey
  | .deliver roomId => some (.room (normalizeRoomCode roomId))
  | .expire key => some key
  | _ => none

def TimedInput.lapses : TimedInput → Option RedisKey
  | .expire key => some key
  | _ => none

def Seen.record [Runtime] (g : Seen) (w : TimedCluster) (input : TimedInput) (v : TimedCluster)
    (_ : List Effect) : Seen where
  since shard key :=
    if v.keeps shard key && !w.keeps shard key then some v.now else g.since shard key
  struck key := if removed input = some key then some w.now else g.struck key
  lapsed key := if input.lapses = some key then some w.now else g.lapsed key

def unseen : Seen := ⟨fun _ _ => none, fun _ => none, fun _ => none⟩

def keyOf (w : TimedCluster) (struck : RedisKey → Option ℕ) (key : RedisKey) : Key where
  present := holds w.redis key
  deadline := w.deadline key
  struck := struck key

/-- The key that a command creates if it is not there. -/
def writes : Command → Option RedisKey
  | .recordRoom roomId _ => some (.room roomId)
  | .publishSessionLoad load => some (.session load.shard)
  | _ => none

section
variable {r : Redis} {key : RedisKey}

theorem holds_setRoom (r : Redis) (roomId : RoomId) (hash : RoomHash) (key : RedisKey) :
    holds (r.setRoom roomId hash) key =
      if key = .room roomId then decide (hash ≠ {}) else holds r key := by
  cases key with
  | session shard => rfl
  | room l =>
    simp only [holds, Redis.room_setRoom, RedisKey.room.injEq]
    split_ifs <;> rfl

theorem hashOf_ne (p : RoomProjection) : hashOf p ≠ {} := by
  intro h
  have hshard : some p.shard = none := congrArg RoomHash.shard h
  cases hshard

theorem holds_runCommand (r : Redis) (c : Command) (key : RedisKey) :
    holds (JoinableIndex.runCommand r c) key =
      if writes c = some key then true else holds r key := by
  cases c with
  | recordRoom roomId p =>
    simp only [JoinableIndex.runCommand, Redis.recordRoom, holds_setRoom, writes,
      Option.some.injEq]
    by_cases hk : key = .room roomId
    · simp [hk, hashOf_ne]
    · rw [if_neg hk, if_neg (fun h => hk h.symm)]
  | indexRoom roomId full => cases key <;> rfl
  | checkAssigned socket roomId => cases key <;> rfl
  | publishSessionLoad load =>
    cases key with
    | room l => rfl
    | session shard =>
      simp only [JoinableIndex.runCommand, Redis.publishSessionLoad, holds, writes,
        Option.some.injEq, RedisKey.session.injEq, Function.update_apply]
      by_cases hs : shard = load.shard
      · simp [hs]
      · rw [if_neg hs, if_neg (fun h => hs h.symm)]

theorem holds_drop (r : Redis) (l key : RedisKey) :
    holds (drop r l) key = if key = l then false else holds r key := by
  cases l with
  | room roomId =>
    simp only [drop, Redis.expireRoom, holds_setRoom]
    split_ifs <;> simp
  | session shard =>
    cases key with
    | room l => rfl
    | session k =>
      simp only [drop, holds, RedisKey.session.injEq, Function.update_apply]
      split_ifs <;> rfl

theorem holds_claimRoomCode (r : Redis) (roomId : RoomId) (shard : ShardId) (key : RedisKey) :
    holds (r.claimRoomCode roomId shard).1 key = holds r key ∨
      key = .room roomId ∧ holds (r.claimRoomCode roomId shard).1 key = true := by
  unfold Redis.claimRoomCode
  split
  · rw [holds_setRoom]
    split_ifs with hk
    · right
      refine ⟨hk, ?_⟩
      simp only [decide_eq_true_eq]
      intro h
      have hshard : some shard = none := congrArg RoomHash.shard h
      cases hshard
    · exact .inl rfl
  · exact .inl rfl

theorem holds_reserve (r : Redis) (roomId : RoomId) (key : RedisKey) :
    holds (r.reserve roomId) key = if key = .room roomId then true else holds r key := by
  rw [Redis.reserve, holds_setRoom]
  split_ifs
  · simp only [decide_eq_true_eq]
    intro h
    have hcap : some DEFAULT_ROOM_CAPACITY = none := congrArg RoomHash.capacity h
    cases hcap
  · rfl

end

section
variable {w v : TimedCluster} {g : Seen} {struck : RedisKey → Option ℕ} {key : RedisKey}

theorem redis_expireKey (w : TimedCluster) (l : RedisKey) : (w.expireKey l).redis = w.redis := by
  unfold TimedCluster.expireKey
  split_ifs <;> rfl

theorem redis_expireKeyNew (w : TimedCluster) (l : RedisKey) :
    (w.expireKeyNew l).redis = w.redis := by
  unfold TimedCluster.expireKeyNew
  split_ifs
  · exact redis_expireKey w l
  · rfl

theorem deadline_expireKey (w : TimedCluster) {l key : RedisKey} (h : key ≠ l) :
    (w.expireKey l).deadline key = w.deadline key := by
  unfold TimedCluster.expireKey
  split_ifs
  · exact Function.update_of_ne h _ _
  · rfl

theorem session_ne_room {shard : ShardId} {roomId : RoomId} :
    RedisKey.session shard ≠ .room roomId :=
  fun h => by cases h

theorem keyOf_expireKey (w : TimedCluster) (struck : RedisKey → Option ℕ) (l key : RedisKey) :
    keyOf (w.expireKey l) struck key =
      if key = l then (keyOf w struck key).extend (w.now + ttl) else keyOf w struck key := by
  unfold TimedCluster.expireKey
  split_ifs with hh hk hk
  · subst hk
    rw [Key.extend_of_present (show (keyOf w struck key).present = true from hh)]
    simp [keyOf]
  · simp [keyOf, Function.update_of_ne hk]
  · subst hk
    rw [Key.extend_of_absent]
    simpa [keyOf] using hh
  · rfl

theorem keyOf_expireKeyNew (w : TimedCluster) (struck : RedisKey → Option ℕ) (l key : RedisKey) :
    keyOf (w.expireKeyNew l) struck key =
      if key = l then (keyOf w struck key).extendNew (w.now + ttl) else keyOf w struck key := by
  unfold TimedCluster.expireKeyNew
  split_ifs with hn hk hk
  · rw [keyOf_expireKey, if_pos hk, Key.extendNew, if_pos]
    rw [hk]
    exact hn
  · rw [keyOf_expireKey, if_neg hk]
  · rw [Key.extendNew, if_neg]
    rw [hk]
    exact hn
  · rfl

/-- A command that writes one key at most. -/
theorem act_of_write (hd : v.deadline = w.deadline)
    (hh : holds v.redis key = holds w.redis key ∨ holds v.redis key = true) :
    Act ttl w.now (keyOf w struck key) (keyOf v struck key) := by
  rcases hh with hh | hh
  · have hsame : keyOf v struck key = keyOf w struck key := by simp [keyOf, hh, hd]
    rw [hsame]
    exact .rest
  · have hwrite : keyOf v struck key = (keyOf w struck key).write := by
      simp [keyOf, Key.write, hh, hd]
    rw [hwrite]
    exact .write

theorem act_advance (w : TimedCluster) (a : Assign) (code : RoomId)
    (struck : RedisKey → Option ℕ) (key : RedisKey) :
    Act ttl w.now (keyOf w struck key) (keyOf (w.advance a code) struck key) := by
  unfold TimedCluster.advance
  split
  · exact act_of_write rfl ((holds_claimRoomCode _ _ _ _).imp_right And.right)
  · rename_i roomId won lost _
    have hexpire := keyOf_expireKeyNew
      { w with assigns := a.afterBid roomId won lost ++ w.assigns } struck (.room roomId) key
    rw [hexpire]
    split_ifs
    · exact .extendNew _ _ _
    · exact .rest
  · refine act_of_write rfl ?_
    rw [holds_reserve]
    split_ifs
    · exact .inr rfl
    · exact .inl rfl
  · rw [keyOf_expireKey]
    split_ifs
    · exact .extend
    · exact .rest

variable [Runtime] {input : TimedInput} {os : List Effect}

/-- Every event does one thing to a key. -/
theorem step_act (h : TimedStep w input v os) (key : RedisKey) :
    Act ttl w.now (keyOf w g.struck key) (keyOf v (g.record w input v os).struck key) := by
  have hrest : removed input = none → (g.record w input v os).struck = g.struck := by
    intro hn
    funext l
    simp [Seen.record, hn]
  have hremove : ∀ l, removed input = some l → v.redis = drop w.redis l →
      v.deadline = Function.update w.deadline l none →
      Act ttl w.now (keyOf w g.struck key) (keyOf v (g.record w input v os).struck key) := by
    intro l hl hr hd
    by_cases hk : key = l
    · subst hk
      have hstrike : keyOf v (g.record w input v os).struck key =
          (keyOf w g.struck key).strike w.now := by
        simp [keyOf, Seen.record, Key.strike, hl, hr, hd, holds_drop]
      rw [hstrike]
      exact .strike
    · have hsame : keyOf v (g.record w input v os).struck key = keyOf w g.struck key := by
        simp [keyOf, Seen.record, hl, hr, hd, holds_drop, hk, Ne.symm hk]
      rw [hsame]
      exact .rest
  cases h with
  | tick ms => exact hrest rfl ▸ .rest
  | start _ => exact hrest rfl ▸ .rest
  | process _ _ _ _ => exact hrest rfl ▸ .rest
  | @refresh p env x l pipe hp hq hr =>
    rw [hrest rfl, keyOf_expireKey]
    split_ifs
    · exact .extend
    · exact .rest
  | data _ _ _ _ =>
    rw [hrest rfl]
    refine act_of_write rfl ?_
    change holds (JoinableIndex.runCommand _ _) _ = _ ∨ holds (JoinableIndex.runCommand _ _) _ = _
    rw [holds_runCommand]
    split_ifs
    · exact .inr rfl
    · exact .inl rfl
  | crash _ _ _ => exact hrest rfl ▸ .rest
  | pick _ _ => exact hrest rfl ▸ .rest
  | @assign a code _ _ =>
    rw [hrest rfl]
    exact act_advance { w with assigns := w.assigns.erase a } a code g.struck key
  | deliver _ => exact hremove _ rfl rfl rfl
  | unindex _ =>
    rw [hrest rfl]
    exact .rest
  | expire _ => exact hremove _ rfl rfl rfl

end

/-! ### Pipelines in flight -/

/-- Every `HSET` in the queue is followed by its `EXPIRE`, and no `EXPIRE` stands alone. -/
inductive Whole : List (ℕ × TimedCommand) → Prop
  | nil : Whole []
  | plain {x : ℕ} {c : Command} {pipe : List (ℕ × TimedCommand)} (hc : writes c = none)
      (h : Whole pipe) : Whole ((x, .data c) :: pipe)
  | pair {x : ℕ} {c : Command} {key : RedisKey} {pipe : List (ℕ × TimedCommand)}
      (hc : writes c = some key) (h : Whole pipe) :
      Whole ((x, .data c) :: (x, .expire key) :: pipe)

theorem Whole.append {pipe new : List (ℕ × TimedCommand)} (h : Whole pipe) (hn : Whole new) :
    Whole (pipe ++ new) := by
  induction h with
  | nil => exact hn
  | plain hc _ ih => exact .plain hc ih
  | pair hc _ ih => exact .pair hc ih

theorem whole_stamp (now : ℕ) (os : List Effect) : Whole (stamp now os) := by
  induction os with
  | nil => exact .nil
  | cons e os ih =>
    have hone : Whole ((timedCommands e).map fun c => (now, c)) := by
      cases e with
      | syncOccupancy roomId projection => exact .pair rfl (.plain rfl .nil)
      | publishSessionLoad load => exact .pair rfl .nil
      | checkAssigned socket roomId => exact .plain rfl .nil
      | _ => exact .nil
    have hcons : stamp now (e :: os) =
        (timedCommands e).map (fun c => (now, c)) ++ stamp now os := by
      simp [stamp]
    rw [hcons]
    exact hone.append ih

theorem Whole.take {pipe : List (ℕ × TimedCommand)} (h : Whole pipe) (n : ℕ)
    (hcut : ∀ c ∈ (pipe.drop n).head?, c.2.refreshes = none) : Whole (pipe.take n) := by
  induction h generalizing n with
  | nil => simpa using .nil
  | plain hc _ ih =>
    cases n with
    | zero => exact .nil
    | succ n => exact .plain hc (ih n hcut)
  | pair hc _ ih =>
    match n with
    | 0 => exact .nil
    | 1 => simp [TimedCommand.refreshes] at hcut
    | n + 2 => exact .pair hc (ih n hcut)

/-- The key was there after `x`. -/
def Written (x : ℕ) (k : Key) : Prop := k.present = true ∨ ∃ s ∈ k.struck, x ≤ s

theorem Written.act {x now : ℕ} {k k' : Key} (h : Written x k) (hx : x ≤ now)
    (ha : Act ttl now k k') : Written x k' := by
  cases ha with
  | rest => exact h
  | write => exact .inl rfl
  | extend => simpa [Written] using h
  | strike => exact .inr ⟨now, rfl, hx⟩

/-- What has been written to the connection and not run: a pipeline whose `HSET` has run may
wait for its `EXPIRE`. -/
def InFlight (keys : RedisKey → Key) (pipe : List (ℕ × TimedCommand)) : Prop :=
  Whole pipe ∨ ∃ x key rest, pipe = (x, .expire key) :: rest ∧ Written x (keys key) ∧ Whole rest

section
variable {keys keys' : RedisKey → Key} {pipe new : List (ℕ × TimedCommand)} {x now : ℕ}
  {key : RedisKey} {c : Command}

theorem InFlight.append (h : InFlight keys pipe) (hn : Whole new) :
    InFlight keys (pipe ++ new) := by
  rcases h with h | ⟨x, key, rest, rfl, hw, h⟩
  · exact .inl (h.append hn)
  · exact .inr ⟨x, key, rest ++ new, rfl, hw, h.append hn⟩

theorem InFlight.act (h : InFlight keys pipe) (hx : ∀ c ∈ pipe, c.1 ≤ now)
    (ha : ∀ key, Act ttl now (keys key) (keys' key)) : InFlight keys' pipe := by
  rcases h with h | ⟨x, key, rest, rfl, hw, h⟩
  · exact .inl h
  · exact .inr ⟨x, key, rest, rfl, hw.act (hx _ List.mem_cons_self) (ha key), h⟩

theorem InFlight.take (h : InFlight keys pipe) (n : ℕ)
    (hcut : ∀ c ∈ (pipe.drop n).head?, c.2.refreshes = none) : InFlight keys (pipe.take n) := by
  rcases h with h | ⟨x, key, rest, rfl, hw, h⟩
  · exact .inl (h.take n hcut)
  · cases n with
    | zero => simp [TimedCommand.refreshes] at hcut
    | succ n => exact .inr ⟨x, key, rest.take n, rfl, hw, h.take n hcut⟩

theorem InFlight.refresh (h : InFlight keys ((x, .expire key) :: pipe)) :
    Written x (keys key) ∧ Whole pipe := by
  rcases h with h | ⟨y, l, rest, he, hw, h⟩
  · cases h
  · cases he
    exact ⟨hw, h⟩

theorem InFlight.data (h : InFlight keys ((x, .data c) :: pipe))
    (hw : ∀ key, writes c = some key → (keys' key).present = true) : InFlight keys' pipe := by
  rcases h with h | ⟨y, l, rest, he, -, -⟩
  · cases h with
    | plain _ h => exact .inl h
    | pair hc h => exact .inr ⟨_, _, _, rfl, .inl (hw _ hc), h⟩
  · cases he

end

end GachaMind.Timed
