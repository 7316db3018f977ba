import GachaMind.GameSession.RoomInvariant

/-!
# Where the scores of a game come from

The ledger of a game has one entry for each accepted guess: its round, the guesser, the
drawer of the moment and the award. A player's score is what the ledger pays the player.
The clock is read when a round starts and at each guess; the bounds and the order of the
awards of a round need that it does not run backwards in between.
-/

namespace GachaMind.GameSession
open GachaMind.Js GachaMind.Shared KeyedTable

/-! ### The award of one guess -/

theorem mathRound_mono {x y : ℚ} (h : x ≤ y) : mathRound x ≤ mathRound y :=
  Int.floor_mono (by linarith)

theorem answerAward_mono {r s : ℤ} (hr : 0 ≤ r) (h : r ≤ s) : answerAward r ≤ answerAward s := by
  have hratio : (0 : ℚ) ≤ (r : ℚ) / (ROUND_DURATION_MS : ℤ) := by
    have : (0 : ℚ) ≤ r := by exact_mod_cast hr
    unfold ROUND_DURATION_MS
    positivity
  have hle : (r : ℚ) / (ROUND_DURATION_MS : ℤ) ≤ (s : ℚ) / (ROUND_DURATION_MS : ℤ) := by
    have : (r : ℚ) ≤ s := by exact_mod_cast h
    unfold ROUND_DURATION_MS
    gcongr
  have hfl := Binary64.fl_mono hratio hle
  have hpos := Binary64.fl_nonneg hratio
  unfold answerAward
  dsimp only
  have hbonus := Binary64.fl_mono (x := (SPEED_BONUS_SCORE : ℤ) *
      Binary64.fl ((r : ℚ) / (ROUND_DURATION_MS : ℤ))) (by unfold SPEED_BONUS_SCORE; positivity)
    (mul_le_mul_of_nonneg_left hfl (by unfold SPEED_BONUS_SCORE; norm_num))
  exact Int.add_le_add_left (mathRound_mono hbonus) _

theorem answerAward_zero : answerAward 0 = BASE_ANSWER_SCORE := by
  simp [answerAward, Binary64.fl_zero, mathRound]
  norm_num

theorem answerAward_full :
    answerAward ROUND_DURATION_MS = BASE_ANSWER_SCORE + SPEED_BONUS_SCORE := by
  have hone : Binary64.fl 1 = 1 := by
    simpa using Binary64.fl_natCast (n := 1) (by norm_num)
  have hbonus : Binary64.fl 90 = 90 := by
    simpa using Binary64.fl_natCast (n := 90) (by norm_num)
  have hself : ((ROUND_DURATION_MS : ℤ) : ℚ) / (ROUND_DURATION_MS : ℤ) = 1 := by
    unfold ROUND_DURATION_MS
    norm_num
  unfold answerAward
  rw [hself, hone]
  simp [SPEED_BONUS_SCORE, hbonus, mathRound]
  norm_num

theorem answerAward_bounds {r : ℤ} (h0 : 0 ≤ r) (h1 : r ≤ ROUND_DURATION_MS) :
    BASE_ANSWER_SCORE ≤ answerAward r ∧
      answerAward r ≤ BASE_ANSWER_SCORE + SPEED_BONUS_SCORE :=
  ⟨answerAward_zero ▸ answerAward_mono le_rfl h0, answerAward_full ▸ answerAward_mono h0 h1⟩

/-! ### The ledger -/

structure Award where
  round : ℕ
  guesser : Uuid
  drawer : Option Uuid
  points : ℤ
  deriving DecidableEq

/-- The accepted guesses since the last start of a game, and the last clock reading that
counts: the start of the round or the last accepted guess. -/
structure Ledger where
  entries : List Award
  clock : ℤ

def scoreMark (env : Env) (before : Room) (l : Ledger) : GameMark → Ledger
  | .gameStarted _ => { l with entries := [] }
  | .roundStarted _ => { l with clock := env.now .roundStart }
  | .correctAnswer id =>
    { entries := l.entries ++ [⟨before.round, id, before.drawerId,
        answerAward ((before.remainingMs (env.now .guess)).getD 0)⟩]
      clock := env.now .guess }
  | _ => l

def recordScores (l : Ledger) (s : RoomState) (i : Env × RoomInput) (_ : RoomState)
    (os : List Effect) : Ledger :=
  (marks os).foldl (scoreMark i.1 s.room) l

/-- The clock of a frame that may hold a guess has not run backwards within the round. -/
def ClockForward (room : Room) (clock : ℤ) (env : Env) : RoomInput → Prop
  | .chat _ _ => room.drawerId ≠ none → clock ≤ env.now .guess
  | _ => True

instance (room : Room) (clock : ℤ) (env : Env) :
    ∀ input, Decidable (ClockForward room clock env input)
  | .chat _ _ => inferInstanceAs (Decidable (_ → _))
  | .join _ _ _ | .leave _ | .draw _ _ | .drawClear _ | .startGame | .timer _ =>
    inferInstanceAs (Decidable True)

def earned (entries : List Award) (id : Uuid) : ℤ :=
  ((entries.filter fun a => a.guesser = id).map Award.points).sum +
    DRAWER_SCORE_PER_SOLVER * (entries.filter fun a => a.drawer = some id).length

theorem earned_nil (id : Uuid) : earned [] id = 0 := by simp [earned]

theorem earned_append (entries : List Award) (a : Award) (id : Uuid) :
    earned (entries ++ [a]) id = earned entries id + (if a.guesser = id then a.points else 0) +
      if a.drawer = some id then DRAWER_SCORE_PER_SOLVER else 0 := by
  simp only [earned, List.filter_append, List.map_append, List.sum_append, List.length_append,
    List.filter_cons, List.filter_nil, decide_eq_true_eq]
  split_ifs <;> simp <;> ring

theorem earned_of_absent {entries : List Award} {id : Uuid}
    (h : ∀ a ∈ entries, a.guesser ≠ id ∧ a.drawer ≠ some id) : earned entries id = 0 := by
  have hg : entries.filter (fun a => decide (a.guesser = id)) = [] := by
    simpa using fun a ha => (h a ha).1
  have hd : entries.filter (fun a => decide (a.drawer = some id)) = [] := by
    simpa using fun a ha => (h a ha).2
  simp [earned, hg, hd]

/-! ### The ledger of a room -/

structure OpenRound (l : Ledger) (room : Room) (d : Uuid) : Prop where
  drawer : ∀ a ∈ l.entries, a.round = room.round → a.drawer = some d
  done : ∀ a ∈ l.entries, a.round = room.round →
    a.guesser ∈ room.solvedPlayerIds ∨ a.guesser ∉ room.players.keys
  points : ∀ a ∈ l.entries, a.round = room.round →
    answerAward ((room.remainingMs l.clock).getD 0) ≤ a.points
  clock : ∃ e, room.roundEndsAt = some e ∧ e ≤ l.clock + ROUND_DURATION_MS

structure Sound (entries : List Award) : Prop where
  once : (entries.map fun a => (a.round, a.guesser)).Nodup
  drawers : ∀ a ∈ entries, ∀ b ∈ entries, a.round = b.round → a.drawer = b.drawer
  not_own : ∀ a ∈ entries, a.drawer ≠ some a.guesser
  bounds : ∀ a ∈ entries,
    BASE_ANSWER_SCORE ≤ a.points ∧ a.points ≤ BASE_ANSWER_SCORE + SPEED_BONUS_SCORE
  slower : entries.Pairwise fun a b => a.round = b.round → b.points ≤ a.points

structure Ledger.Matches (l : Ledger) (room : Room) (issued : List Uuid) : Prop where
  sound : Sound l.entries
  scores : ∀ p ∈ room.players.rows, p.score = earned l.entries p.id
  ids : ∀ a ∈ l.entries, a.guesser ∈ issued ∧ ∀ d, a.drawer = some d → d ∈ issued
  rounds : room.phase = .playing → ∀ a ∈ l.entries, a.round ≤ room.round
  current : ∀ d, room.drawerId = some d → OpenRound l room d

namespace Ledger.Matches
variable {l : Ledger} {room t : Room} {issued : List Uuid}

theorem issue (h : l.Matches room issued) (id : Uuid) : l.Matches room (id :: issued) where
  sound := h.sound
  scores := h.scores
  ids a ha := ⟨List.mem_cons_of_mem _ (h.ids a ha).1,
    fun d hd => List.mem_cons_of_mem _ ((h.ids a ha).2 d hd)⟩
  rounds := h.rounds
  current := h.current

theorem shrink (h : l.Matches room issued) (hrows : t.players.rows ⊆ room.players.rows)
    (hphase : t.phase = room.phase) (hround : t.round = room.round)
    (hdrawer : t.drawerId = room.drawerId) (hends : t.roundEndsAt = room.roundEndsAt)
    (hsolved : ∀ id ∈ room.solvedPlayerIds, id ∈ t.solvedPlayerIds ∨ id ∉ t.players.keys) :
    l.Matches t issued where
  sound := h.sound
  scores p hp := h.scores p (hrows hp)
  ids := h.ids
  rounds hp a ha := hround ▸ h.rounds (hphase ▸ hp) a ha
  current d hd := by
    have ho := h.current d (hdrawer ▸ hd)
    refine ⟨hround ▸ ho.drawer, fun a ha hr => ?_, ?_, by rw [hends]; exact ho.clock⟩
    · rcases ho.done a ha (hround ▸ hr) with hs | hs
      · exact hsolved _ hs
      · exact .inr fun hk => hs (List.map_subset _ hrows hk)
    · rw [hround, Room.remainingMs, hends]
      exact ho.points

theorem closed (h : l.Matches room issued) (hrows : t.players.rows ⊆ room.players.rows)
    (hround : t.phase = .playing → room.phase = .playing ∧ t.round = room.round)
    (hdrawer : t.drawerId = none) : l.Matches t issued where
  sound := h.sound
  scores p hp := h.scores p (hrows hp)
  ids := h.ids
  rounds hp a ha := by
    obtain ⟨hp, hr⟩ := hround hp
    exact hr ▸ h.rounds hp a ha
  current d hd := absurd (hdrawer.symm.trans hd) (by simp)

theorem seatPlayer (h : l.Matches room issued) {player : Player} (hf : player.id ∉ issued)
    (hk : player.id ∉ room.players.keys) (hscore : player.score = 0) :
    l.Matches (seatPlayer room player) issued := by
  rw [Room.seatPlayer_eq]
  refine ⟨h.sound, fun p hp => ?_, h.ids, h.rounds, fun d hd => ?_⟩
  · rcases mem_rows_set.mp hp with rfl | ⟨hp, -⟩
    · rw [hscore, earned_of_absent]
      exact fun a ha => ⟨fun he => hf (he ▸ (h.ids a ha).1), fun hd => hf ((h.ids a ha).2 _ hd)⟩
    · exact h.scores p hp
  · have ho := h.current d hd
    refine ⟨ho.drawer, fun a ha hr => ?_, ho.points, ho.clock⟩
    refine (ho.done a ha hr).imp_right fun habs hkey => ?_
    rcases mem_keys_set.mp hkey with he | hkey
    · exact hf (he ▸ (h.ids a ha).1)
    · exact habs hkey

theorem start (l : Ledger) (env : Env) (room : Room) (drawer : Player) (total : ℕ)
    (issued : List Uuid) :
    (scoreMark env room (scoreMark env room l (.gameStarted total)) (.roundStarted 1)).Matches
      ((room.beginGame env).openRound env drawer) issued where
  sound := ⟨List.nodup_nil, by simp [scoreMark], by simp [scoreMark], by simp [scoreMark],
    List.Pairwise.nil⟩
  scores p hp := by
    obtain ⟨q, -, rfl⟩ := List.mem_map.mp hp
    exact (earned_nil q.id).symm
  ids := by simp [scoreMark]
  rounds := by simp [scoreMark]
  current d _ := ⟨by simp [scoreMark], by simp [scoreMark], by simp [scoreMark], _, rfl, le_rfl⟩

theorem openRound (h : l.Matches room issued) (env : Env) (drawer : Player) (k : ℕ)
    (hp : room.phase = .playing) (before : Room) :
    (scoreMark env before l (.roundStarted k)).Matches (room.openRound env drawer) issued where
  sound := h.sound
  scores := h.scores
  ids := h.ids
  rounds _ a ha := (h.rounds hp a ha).trans (Nat.le_succ _)
  current d _ := by
    have hlt : ∀ a ∈ l.entries, a.round ≠ room.round + 1 := fun a ha he => by
      have := h.rounds hp a ha
      omega
    exact ⟨fun a ha hr => absurd hr (hlt a ha), fun a ha hr => absurd hr (hlt a ha),
      fun a ha hr => absurd hr (hlt a ha), _, rfl, le_rfl⟩

end Ledger.Matches

/-! ### An accepted guess -/

theorem mem_rows_addScore {room : Room} {id : Uuid} {points : ℤ} {p : Player}
    (hp : p ∈ (addScore room id points).players.rows) :
    ∃ q ∈ room.players.rows, q.id = p.id ∧ p.score = q.score + if id = p.id then points else 0 := by
  simp only [addScore, rows_modify, List.mem_map] at hp
  obtain ⟨q, hq, rfl⟩ := hp
  refine ⟨q, hq, ?_⟩
  split_ifs with h1 h2 h2
  · exact ⟨rfl, rfl⟩
  · exact absurd h1.symm h2
  · exact absurd h2.symm h1
  · exact ⟨rfl, (Int.add_zero _).symm⟩

theorem mem_rows_scoreGuess {env : Env} {room : Room} {solver d : Uuid} {p : Player}
    (hp : p ∈ (room.scoreGuess env solver d).players.rows) :
    ∃ q ∈ room.players.rows, q.id = p.id ∧ p.score = q.score +
      (if solver = p.id then answerAward ((room.remainingMs (env.now .guess)).getD 0) else 0) +
      if d = p.id then DRAWER_SCORE_PER_SOLVER else 0 := by
  obtain ⟨r, hr, hid, hscore⟩ := mem_rows_addScore hp
  obtain ⟨q, hq, hid', hscore'⟩ := mem_rows_addScore hr
  rw [hid] at hid' hscore'
  rw [hscore'] at hscore
  exact ⟨q, hq, hid', hscore⟩

def newAward (env : Env) (room : Room) (solver d : Uuid) : Award :=
  ⟨room.round, solver, some d, answerAward ((room.remainingMs (env.now .guess)).getD 0)⟩

section Guess
variable {l : Ledger} {room : Room} {issued : List Uuid} {env : Env} {solver d : Uuid}
  {w : JsString}

theorem OpenRound.remaining_mono (ho : OpenRound l room d) (hc : l.clock ≤ env.now .guess) :
    0 ≤ (room.remainingMs (env.now .guess)).getD 0 ∧
      (room.remainingMs (env.now .guess)).getD 0 ≤ (room.remainingMs l.clock).getD 0 ∧
      (room.remainingMs l.clock).getD 0 ≤ ROUND_DURATION_MS := by
  obtain ⟨e, he, hle⟩ := ho.clock
  have hd : 0 ≤ ROUND_DURATION_MS := by decide
  simp only [Room.remainingMs, he, Option.map_some, Option.getD_some]
  omega

theorem OpenRound.newAward_bounds (solver : Uuid) (ho : OpenRound l room d)
    (hc : l.clock ≤ env.now .guess) :
    BASE_ANSWER_SCORE ≤ (newAward env room solver d).points ∧
      (newAward env room solver d).points ≤ BASE_ANSWER_SCORE + SPEED_BONUS_SCORE := by
  obtain ⟨h0, h1, h2⟩ := ho.remaining_mono hc
  exact answerAward_bounds h0 (h1.trans h2)

theorem OpenRound.newAward_le (solver : Uuid) (ho : OpenRound l room d)
    (hc : l.clock ≤ env.now .guess) {a : Award} (ha : a ∈ l.entries) (hr : a.round = room.round) :
    (newAward env room solver d).points ≤ a.points := by
  obtain ⟨h0, h1, -⟩ := ho.remaining_mono hc
  exact (answerAward_mono h0 h1).trans (ho.points a ha hr)

theorem Sound.append (h : Sound l.entries) (ho : OpenRound l room d)
    (hc : l.clock ≤ env.now .guess) (hk : solver ∈ room.players.keys) (hne : solver ≠ d)
    (hs : solver ∉ room.solvedPlayerIds) : Sound (l.entries ++ [newAward env room solver d]) where
  once := by
    rw [List.map_append, List.nodup_append]
    refine ⟨h.once, List.nodup_singleton _, ?_⟩
    intro x hx y hy hm
    obtain rfl := hm
    obtain ⟨a, ha, he⟩ := List.mem_map.mp hx
    have hnew : (a.round, a.guesser) = (room.round, solver) := he.trans (List.mem_singleton.mp hy)
    obtain ⟨hr, hg⟩ := Prod.mk.inj hnew
    rcases ho.done a ha hr with hd | hd
    · exact hs (hg ▸ hd)
    · exact hd (hg ▸ hk)
  drawers a ha b hb hr := by
    rcases List.mem_append.mp ha with ha | ha <;> rcases List.mem_append.mp hb with hb | hb
    · exact h.drawers a ha b hb hr
    · obtain rfl := List.mem_singleton.mp hb
      exact ho.drawer a ha hr
    · obtain rfl := List.mem_singleton.mp ha
      exact (ho.drawer b hb hr.symm).symm
    · rw [List.mem_singleton.mp ha, List.mem_singleton.mp hb]
  not_own a ha := by
    rcases List.mem_append.mp ha with ha | ha
    · exact h.not_own a ha
    · obtain rfl := List.mem_singleton.mp ha
      exact fun he => hne (Option.some.inj he).symm
  bounds a ha := by
    rcases List.mem_append.mp ha with ha | ha
    · exact h.bounds a ha
    · obtain rfl := List.mem_singleton.mp ha
      exact ho.newAward_bounds solver hc
  slower := by
    refine List.pairwise_append.mpr ⟨h.slower, List.pairwise_singleton _ _, ?_⟩
    intro a ha b hb hr
    obtain rfl := List.mem_singleton.mp hb
    exact ho.newAward_le solver hc ha hr

theorem Ledger.Matches.guess (h : l.Matches room issued) (hr : room.InRound d w)
    (hk : solver ∈ room.players.keys) (hne : solver ≠ d) (hs : solver ∉ room.solvedPlayerIds)
    (hi : ∀ id ∈ room.players.keys, id ∈ issued) (hc : l.clock ≤ env.now .guess) :
    (scoreMark env room l (.correctAnswer solver)).Matches (room.scoreGuess env solver d)
      issued := by
  have ho := h.current d hr.drawerId
  have hentry : scoreMark env room l (.correctAnswer solver) =
      ⟨l.entries ++ [newAward env room solver d], env.now .guess⟩ := by
    simp only [scoreMark, newAward, hr.drawerId]
  rw [hentry]
  refine ⟨h.sound.append ho hc hk hne hs, fun p hp => ?_, fun a ha => ?_, fun _ a ha => ?_,
    fun d' hd' => ?_⟩
  · obtain ⟨q, hq, hid, hscore⟩ := mem_rows_scoreGuess hp
    rw [hscore, h.scores q hq, hid, earned_append]
    by_cases hsolver : solver = p.id <;> by_cases hdrawer : d = p.id <;>
      simp [newAward, hsolver, hdrawer]
  · rcases List.mem_append.mp ha with ha | ha
    · exact h.ids a ha
    · obtain rfl := List.mem_singleton.mp ha
      exact ⟨hi _ hk, fun d' hd' => hi _ (Option.some.inj hd' ▸ hr.drawer_present)⟩
  · rcases List.mem_append.mp ha with ha | ha
    · exact h.rounds hr.phase a ha
    · rw [List.mem_singleton.mp ha]
      exact le_rfl
  · obtain rfl : d = d' := Option.some.inj (hr.drawerId.symm.trans hd')
    obtain ⟨e, he, hle⟩ := ho.clock
    refine ⟨fun a ha hround => ?_, fun a ha hround => ?_, fun a ha hround => ?_, e, he, by
      dsimp only
      omega⟩
    · rcases List.mem_append.mp ha with ha | ha
      · exact ho.drawer a ha hround
      · rw [List.mem_singleton.mp ha]
        rfl
    · rcases List.mem_append.mp ha with ha | ha
      · refine (ho.done a ha hround).imp Finset.mem_insert_of_mem fun hn => ?_
        simpa using hn
      · rw [List.mem_singleton.mp ha]
        exact .inl (Finset.mem_insert_self _ _)
    · rcases List.mem_append.mp ha with ha | ha
      · exact ho.newAward_le solver hc ha hround
      · rw [List.mem_singleton.mp ha]
        exact le_rfl

end Guess

/-! ### Runs -/

theorem gameStep_matches {env : Env} {room t : Room} {input : RoomInput} {ms : List GameMark}
    {l : Ledger} {issued : List Uuid} (h : l.Matches room issued)
    (hi : ∀ id ∈ room.players.keys, id ∈ issued) (hu : env.uuid ∉ issued)
    (hc : ClockForward room l.clock env input) (hs : GameStep env room input t ms) :
    (ms.foldl (scoreMark env room) l).Matches t issued := by
  have hleave : ∀ id : Uuid, (room.removePlayer id).players.rows ⊆ room.players.rows :=
    fun _ => List.filter_subset_self _
  cases hs with
  | quiet strokes _ =>
    exact h.shrink (List.Subset.refl _) rfl rfl rfl rfl fun _ hs => .inl hs
  | join _ => exact h.seatPlayer hu (fun hk => hu (hi _ hk)) rfl
  | start _ _ _ _ => exact .start l env room _ _ issued
  | guess hr hp hd hsolved _ =>
    exact h.guess hr (key_mem_keys hp) hd hsolved hi (hc (by simp [hr.drawerId]))
  | lastGuess hr hp hd hsolved _ =>
    have hg := h.guess hr (key_mem_keys hp) hd hsolved hi (hc (by simp [hr.drawerId]))
    exact hg.closed (List.Subset.refl _) (fun _ => ⟨hr.phase, rfl⟩) rfl
  | timeUp hr => exact h.closed (List.Subset.refl _) (fun _ => ⟨hr.phase, rfl⟩) rfl
  | @nextRound id drawer hm _ _ =>
    have hfired : l.Matches (room.timerFired id) issued :=
      h.shrink (List.Subset.refl _) rfl rfl rfl rfl fun _ hs => .inl hs
    exact hfired.openRound env drawer (room.round + 1) hm.phase room
  | gameOver _ _ _ =>
    exact h.closed (List.Subset.refl _) (fun hp => absurd hp (by simp [Room.finishGame])) rfl
  | @leave leaver _ =>
    refine h.shrink (hleave _) rfl rfl rfl rfl fun id hs => ?_
    by_cases he : id = leaver
    · exact .inr fun hk => (mem_keys_erase.mp hk).2 he
    · exact .inl (Finset.mem_erase.mpr ⟨he, hs⟩)
  | leaveGame _ _ _ =>
    exact h.closed (hleave _) (fun hp => absurd hp (by simp [Room.finishGame])) rfl
  | leaveRound hr _ => exact h.closed (hleave _) (fun _ => ⟨hr.phase, rfl⟩) rfl
  | leaveSolved hm _ _ => exact h.closed (hleave _) (fun _ => ⟨hm.phase, rfl⟩) rfl

section
variable [Runtime] {id : RoomId} {capacity : ℕ}

def scoreSystem (id : RoomId) (capacity : ℕ) :
    Machine.System (RoomState × Ledger) (Env × RoomInput) Effect :=
  (roomSystem id capacity).observe ⟨[], 0⟩ recordScores

abbrev ClockRunsForward (s : RoomState × Ledger) (i : Env × RoomInput) : Prop :=
  ClockForward s.1.room s.2.clock i.1 i.2

theorem score_inv {s : RoomState × Ledger}
    (hr : Machine.Reachable ((scoreSystem id capacity).restrict ClockRunsForward) s) :
    s.2.Matches s.1.room s.1.issued := by
  refine hr.recorded (I := fun s l => Ledger.Matches l s.room s.issued)
    (fun _ hr => reachable_inv hr) ?_ ?_
  · intro s h
    obtain rfl := h
    exact ⟨⟨List.nodup_nil, by simp, by simp, by simp, List.Pairwise.nil⟩, by simp [newRoom],
      by simp, by simp, by simp [newRoom]⟩
  · intro s l i t os hi hm hc hs
    obtain ⟨hu, -, -⟩ := roomSystem_step hs
    obtain ⟨-, hg, ht⟩ := step_marks hi hs
    rw [ht]
    exact (gameStep_matches hm hi.players_issued hu hc hg).issue _

/-- With a clock that does not run backwards within a round, every score is what the ledger
pays, nobody is paid twice for a round or for guessing while drawing, and earlier guesses of a
round earn no less. -/
theorem scores_earned (id : RoomId) (capacity : ℕ) (s : RoomState × Ledger)
    (hr : Machine.Reachable ((scoreSystem id capacity).restrict ClockRunsForward) s) :
    (∀ p ∈ s.1.room.players.rows, p.score = earned s.2.entries p.id) ∧
    (s.2.entries.map fun a => (a.round, a.guesser)).Nodup ∧
    (∀ a ∈ s.2.entries, ∀ b ∈ s.2.entries, a.round = b.round → b.drawer ≠ some a.guesser) ∧
    (∀ a ∈ s.2.entries,
      BASE_ANSWER_SCORE ≤ a.points ∧ a.points ≤ BASE_ANSWER_SCORE + SPEED_BONUS_SCORE) ∧
    s.2.entries.Pairwise fun a b => a.round = b.round → b.points ≤ a.points := by
  have hm := score_inv hr
  refine ⟨hm.scores, hm.sound.once, fun a ha b hb he => ?_, hm.sound.bounds, hm.sound.slower⟩
  rw [← hm.sound.drawers a ha b hb he]
  exact hm.sound.not_own a ha

end

def twoSolvers : List RoomInput :=
  [.join 0 none (utf16 "a"), .join 1 none (utf16 "b"), .join 2 none (utf16 "c"), .startGame,
   .chat ⟨0⟩ (some (.str (utf16 "사과"))), .chat ⟨2⟩ (some (.str (utf16 "사과")))]

theorem twoSolvers_earned : ∃ s os,
    Machine.Run ((@scoreSystem plainRuntime (utf16 "AB3DE") DEFAULT_ROOM_CAPACITY).restrict
      ClockRunsForward) (numbered twoSolvers) s os ∧
    s.2.entries.length = 2 ∧ ∀ p ∈ s.1.room.players.rows, p.score = earned s.2.entries p.id :=
  ⟨_, _, Machine.exec_observe_restrict_run (by decide +kernel), by decide +kernel,
    (@scores_earned plainRuntime _ _ _
      ⟨_, _, Machine.exec_observe_restrict_run (by decide +kernel)⟩).1⟩

end GachaMind.GameSession
