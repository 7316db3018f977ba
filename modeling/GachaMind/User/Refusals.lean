import GachaMind.User.Storage

/-!
# What makes a save fail

The pipe looks at the shape of an event, the columns at its values: a text without U+0000,
integers of 32 bits, totals of 32 and 64. For an event that the pipe lets pass, the transaction
is refused exactly where a value, or a total that it is added to, is outside its column.
-/

namespace GachaMind.User
open GachaMind.Js GachaMind.Shared KeyedTable

/-! ### The pipe -/

/-- An entry whose `userId` is not of the form that the pipe asks for. -/
def Malformed (event : GameFinishedEvent) : Prop :=
  ∃ p ∈ event.players, ∃ userId, p.userId = some userId ∧ matchesUuid userId = false

instance (event : GameFinishedEvent) : Decidable (Malformed event) :=
  decidable_of_iff
    (∃ p ∈ event.players, p.userId.any (fun userId => !matchesUuid userId) = true) (by
      simp only [Malformed, Option.any_eq_true, Bool.not_eq_true'])

theorem readUserId_eq_none {userId : Option JsString} :
    readUserId userId = none ↔ ∃ text, userId = some text ∧ matchesUuid text = false := by
  cases userId with
  | none => simp [readUserId]
  | some text =>
    by_cases h : matchesUuid text = true
    · simp [readUserId, readUuid, h]
    · simp [readUserId, readUuid, h]

theorem validatePlayer_eq_none {p : GameResultPlayer} (hrank : 1 ≤ p.rank) :
    validatePlayer p = none ↔ ∃ text, p.userId = some text ∧ matchesUuid text = false := by
  rw [← readUserId_eq_none]
  unfold validatePlayer
  cases hu : readUserId p.userId with
  | none => simp
  | some userId => simp [hrank]

theorem mapM_eq_none {α β : Type} {f : α → Option β} {xs : List α} :
    xs.mapM f = none ↔ ∃ x ∈ xs, f x = none := by
  induction xs with
  | nil => simp
  | cons x xs ih =>
    cases hx : f x with
    | none => simp [List.mapM_cons, hx]
    | some y =>
      cases hxs : xs.mapM f with
      | none =>
        have hrest := ih.mp hxs
        simp [List.mapM_cons, hx, hxs, hrest]
      | some ys =>
        have hrest := fun h => Option.some_ne_none ys (hxs.symm.trans (ih.mpr h))
        simp only [List.mapM_cons, hx, hxs, List.mem_cons]
        refine iff_of_false (fun h => by cases h) fun h => ?_
        obtain ⟨z, rfl | hz, hnone⟩ := h
        · cases hx.symm.trans hnone
        · exact hrest ⟨z, hz, hnone⟩

theorem validate_eq_none {event : GameFinishedEvent} (hne : event.players ≠ [])
    (hranks : ∀ p ∈ event.players, 1 ≤ p.rank) : validate event = none ↔ Malformed event := by
  have hpipe : event.players.mapM validatePlayer = none ↔ Malformed event := by
    rw [mapM_eq_none]
    refine ⟨fun h => ?_, fun h => ?_⟩
    · obtain ⟨p, hp, hnone⟩ := h
      exact ⟨p, hp, (validatePlayer_eq_none (hranks p hp)).mp hnone⟩
    · obtain ⟨p, hp, hbad⟩ := h
      exact ⟨p, hp, (validatePlayer_eq_none (hranks p hp)).mpr hbad⟩
  rw [← hpipe]
  unfold validate
  cases hplayers : event.players.mapM validatePlayer with
  | none => simp
  | some players =>
    have hne' : players ≠ [] := by
      obtain ⟨p, rest, hp⟩ := List.exists_cons_of_ne_nil hne
      rw [hp, List.mapM_cons] at hplayers
      obtain ⟨dto, -, h⟩ := Option.bind_eq_some_iff.mp hplayers
      obtain ⟨dtos, -, h⟩ := Option.bind_eq_some_iff.mp h
      obtain rfl := Option.some.inj h
      exact List.cons_ne_nil _ _
    simp [hne']

/-! ### The columns of user_stats -/

/-- Games played, wins, total score. -/
abbrev Totals := ℤ × ℤ × ℤ

/-- None of the totals is too large for its column. -/
def Totals.Fit (x : Totals) : Prop := x.1 < 2 ^ 31 ∧ x.2.1 < 2 ^ 31 ∧ x.2.2 < 2 ^ 63

instance (x : Totals) : Decidable x.Fit := inferInstanceAs (Decidable (_ ∧ _))

/-- Nothing is taken off by adding it. -/
def Totals.Pos (x : Totals) : Prop := 0 ≤ x.1 ∧ 0 ≤ x.2.1 ∧ 0 ≤ x.2.2

theorem Totals.Fit.of_add {x y : Totals} (h : (x + y).Fit) (hy : y.Pos) : x.Fit := by
  obtain ⟨h1, h2, h3⟩ := h
  obtain ⟨p1, p2, p3⟩ := hy
  rw [Prod.fst_add] at h1
  rw [Prod.snd_add, Prod.fst_add] at h2
  rw [Prod.snd_add, Prod.snd_add] at h3
  exact ⟨by omega, by omega, by omega⟩

def UserStats.totals (row : UserStats) : Totals := (row.gamesPlayed, row.wins, row.totalScore)

def HistoryTables.totals (t : HistoryTables) (member : Uuid) : Totals :=
  ((t.userStats.get? member).map UserStats.totals).getD 0

/-- The columns hold numbers of their types. -/
structure UserStats.Typed (row : UserStats) : Prop where
  gamesPlayed : -2 ^ 31 ≤ row.gamesPlayed
  wins : -2 ^ 31 ≤ row.wins
  totalScore : -2 ^ 63 ≤ row.totalScore
  fit : row.totals.Fit

def HistoryTables.Typed (t : HistoryTables) : Prop := ∀ row ∈ t.userStats.rows, row.Typed

theorem HistoryTables.Typed.fit {t : HistoryTables} (ht : t.Typed) (member : Uuid) :
    (t.totals member).Fit := by
  unfold HistoryTables.totals
  cases hrow : t.userStats.get? member with
  | none => exact ⟨by decide, by decide, by decide⟩
  | some row => exact (ht row (get?_eq_some.mp hrow).1).fit

theorem UserStats.add_eq_none_or {row excluded : UserStats} (ht : row.Typed)
    (hone : excluded.gamesPlayed = 1) (hpos : excluded.totals.Pos) :
    row.add excluded =
      if (row.totals + excluded.totals).Fit then some (row.merge excluded) else none := by
  obtain ⟨-, h2, h3⟩ := hpos
  change 0 ≤ excluded.wins at h2
  change 0 ≤ excluded.totalScore at h3
  obtain ⟨t1, t2, t3, -⟩ := ht
  unfold UserStats.add int4 int8
  by_cases hfit : (row.totals + excluded.totals).Fit
  · rw [if_pos hfit]
    obtain ⟨f1, f2, f3⟩ := hfit
    change row.gamesPlayed + excluded.gamesPlayed < 2 ^ 31 at f1
    change row.wins + excluded.wins < 2 ^ 31 at f2
    change row.totalScore + excluded.totalScore < 2 ^ 63 at f3
    rw [if_pos ⟨by omega, by omega⟩, if_pos ⟨by omega, by omega⟩, if_pos ⟨by omega, by omega⟩]
    rfl
  · rw [if_neg hfit]
    by_cases f1 : row.gamesPlayed + 1 < 2 ^ 31
    · by_cases f2 : row.wins + excluded.wins < 2 ^ 31
      · have f3 : ¬ row.totalScore + excluded.totalScore < 2 ^ 63 := fun f3 =>
          hfit ⟨by rw [← hone] at f1; exact f1, f2, f3⟩
        rw [if_pos ⟨by omega, by omega⟩, if_pos ⟨by omega, by omega⟩, if_neg fun h => f3 h.2]
        rfl
      · rw [if_pos ⟨by omega, by omega⟩, if_neg fun h => f2 h.2]
        rfl
    · rw [if_neg fun h => f1 h.2]
      rfl

theorem UserStats.totals_merge {row excluded : UserStats} (hone : excluded.gamesPlayed = 1) :
    (row.merge excluded).totals = row.totals + excluded.totals := by
  unfold UserStats.totals UserStats.merge
  rw [hone]
  rfl

theorem UserStats.Typed.merge {row excluded : UserStats} (ht : row.Typed)
    (hone : excluded.gamesPlayed = 1) (hpos : excluded.totals.Pos)
    (hfit : (row.totals + excluded.totals).Fit) : (row.merge excluded).Typed := by
  obtain ⟨-, h2, h3⟩ := hpos
  exact ⟨ht.gamesPlayed.trans (Int.le_add_of_nonneg_right (by decide)),
    ht.wins.trans (Int.le_add_of_nonneg_right h2),
    ht.totalScore.trans (Int.le_add_of_nonneg_right h3), UserStats.totals_merge hone ▸ hfit⟩

theorem totals_of_row {t : HistoryTables} {u : Uuid} {row : Option UserStats}
    (h : t.userStats.get? u = row) : t.totals u = (row.map UserStats.totals).getD 0 := by
  rw [HistoryTables.totals, h]

theorem setStats_totals {t : HistoryTables} (ht : t.Typed) {row : UserStats} (hrow : row.Typed)
    {gain : Totals} (hgain : row.totals = t.totals row.userId + gain) :
    ({ t with userStats := t.userStats.set row } : HistoryTables).Typed ∧
    ∀ u, ({ t with userStats := t.userStats.set row } : HistoryTables).totals u =
      t.totals u + if u = row.userId then gain else 0 := by
  refine ⟨fun r hr => ?_, fun u => ?_⟩
  · rcases mem_rows_set.mp hr with rfl | ⟨hr, -⟩
    · exact hrow
    · exact ht r hr
  · rw [totals_of_row (get?_set t.userStats row u)]
    split_ifs with hu
    · rw [hu, ← hgain]
      rfl
    · rw [add_zero]
      rfl

theorem upsertStats_totals {t : HistoryTables} {excluded : UserStats} (ht : t.Typed)
    (hexcluded : excluded.Typed) (hone : excluded.gamesPlayed = 1) (hpos : excluded.totals.Pos) :
    (¬ (t.totals excluded.userId + excluded.totals).Fit → t.upsertStats excluded = none) ∧
    ((t.totals excluded.userId + excluded.totals).Fit →
      ∃ t', t.upsertStats excluded = some t' ∧ t'.Typed ∧
        ∀ u, t'.totals u = t.totals u + if u = excluded.userId then excluded.totals else 0) := by
  unfold HistoryTables.upsertStats
  cases hrow : t.userStats.get? excluded.userId with
  | none =>
    have hzero : t.totals excluded.userId = 0 := totals_of_row hrow
    rw [hzero, zero_add]
    refine ⟨fun hn => absurd hexcluded.fit hn, fun _ => ⟨_, rfl, ?_⟩⟩
    exact setStats_totals ht hexcluded (by rw [hzero, zero_add])
  | some row =>
    obtain ⟨hmem, hid⟩ := get?_eq_some.mp hrow
    have htotals : t.totals excluded.userId = row.totals := totals_of_row hrow
    have hadd := UserStats.add_eq_none_or (ht row hmem) hone hpos
    simp only [htotals, hadd]
    refine ⟨fun hn => by rw [if_neg hn]; rfl, fun hfit => ?_⟩
    rw [if_pos hfit]
    refine ⟨_, rfl, ?_⟩
    rw [← hid]
    refine setStats_totals ht ((ht row hmem).merge hone hpos hfit) ?_
    rw [UserStats.totals_merge hone, ← htotals, ← hid]
    rfl

/-! ### One entry -/

/-- The columns of `game_players` take the entry. -/
structure EntryFits (p : GameResultPlayer) : Prop where
  nickname : 0 ∉ p.nickname
  score : p.score < 2 ^ 31

instance (p : GameResultPlayer) : Decidable (EntryFits p) :=
  decidable_of_iff (0 ∉ p.nickname ∧ p.score < 2 ^ 31)
    ⟨fun h => ⟨h.1, h.2⟩, fun h => ⟨h.nickname, h.score⟩⟩

/-- What an entry adds to the totals of its user. -/
def gain (p : GameResultPlayer) : Totals := (1, if p.rank = 1 then 1 else 0, p.score)

/-- What the entries of a user add to its totals. -/
def gains [Postgres] (member : Uuid) (players : List GameResultPlayer) : Totals :=
  ((players.filter fun p => decide (userOf p.userId = some member)).map gain).sum

theorem gain_pos {p : GameResultPlayer} (h : 0 ≤ p.score) : (gain p).Pos := by
  refine ⟨zero_le_one, ?_, h⟩
  show 0 ≤ if p.rank = 1 then (1 : ℤ) else 0
  split_ifs <;> decide

theorem validatePlayer_spec {p : GameResultPlayer} {dto : GameResultPlayerDto}
    (h : validatePlayer p = some dto) :
    dto.nickname = p.nickname ∧ dto.score = p.score ∧ dto.rank = p.rank := by
  simp only [validatePlayer, Option.bind_eq_bind, Option.bind_eq_some_iff] at h
  obtain ⟨userId, -, h⟩ := h
  split_ifs at h
  obtain rfl := Option.some.inj h
  exact ⟨rfl, rfl, rfl⟩

/-- An instant of the years that are written with four digits. -/
def FourDigits (ms : ℤ) : Prop :=
  1 ≤ (civilDate (ms / 86400000)).year ∧ (civilDate (ms / 86400000)).year ≤ 9999

instance (ms : ℤ) : Decidable (FourDigits ms) := inferInstanceAs (Decidable (_ ∧ _))

/-- What the columns take, by the documentation of Postgres: UUIDs in the standard form, texts
without U+0000, instants as `toISOString` writes them in the years of four digits. -/
structure Documented [Postgres] : Prop where
  uuid : ∀ s, matchesUuid s = true → ∃ id, Postgres.uuid s = some id
  uuidText : ∀ u, Postgres.uuid (uuidText u) = some u
  text : ∀ s, Postgres.text s = none ↔ 0 ∈ s
  timestamptz : ∀ ms, FourDigits ms →
    ∃ instant, Postgres.timestamptz (toISOString ms) = some instant

theorem int4_of_lt {n : ℤ} (h0 : 0 ≤ n) (h : n < 2 ^ 31) : int4 n = some n :=
  if_pos ⟨by omega, h⟩

theorem int4_natCast {n : ℕ} (h : n < 2 ^ 31) : int4 (n : ℤ) = some (n : ℤ) :=
  int4_of_lt (Int.natCast_nonneg n) (by omega)

theorem int4_natCast_none {n : ℕ} (h : ¬ n < 2 ^ 31) : int4 (n : ℤ) = none :=
  if_neg fun hr => h (by omega)

section
variable [Postgres]

theorem Documented.text_some (h : Documented) {s : JsString} (hs : 0 ∉ s) :
    ∃ s', Postgres.text s = some s' := by
  cases ht : Postgres.text s with
  | none => exact absurd ((h.text s).mp ht) hs
  | some s' => exact ⟨s', rfl⟩

theorem Documented.userId (h : Documented) (dto : GameResultPlayerDto) :
    userIdParameter dto = some dto.member := by
  unfold userIdParameter GameResultPlayerDto.member
  cases hu : dto.userId with
  | none => rfl
  | some text =>
    obtain ⟨id, hid⟩ := h.uuid text.text text.matched
    simp [hid]

variable {event : GameFinishedDto} {p : GameResultPlayer} {dto : GameResultPlayerDto} {id : Uuid}

theorem playerRow_fits (h : Documented) (hid : Postgres.uuid event.gameId.text = some id)
    (hdto : validatePlayer p = some dto) (h0 : 0 ≤ p.score) (hrank : p.rank < 2 ^ 31) :
    (¬ EntryFits p → playerRow event dto = none) ∧
      (EntryFits p → ∃ row, playerRow event dto = some row) := by
  obtain ⟨hnickname, hscore, hsame⟩ := validatePlayer_spec hdto
  obtain ⟨playerId, hplayer⟩ := h.uuid _ dto.playerId.matched
  have hrank' := int4_natCast hrank
  simp only [playerRow, hid, hplayer, h.userId, hnickname, hscore, hsame, hrank',
    Option.bind_eq_bind, Option.bind_some, Option.pure_def]
  refine ⟨fun hp => ?_, fun hp => ?_⟩
  · by_cases hnul : 0 ∈ p.nickname
    · rw [(h.text _).mpr hnul]
      rfl
    · obtain ⟨nickname, htext⟩ := h.text_some hnul
      have hlarge : ¬ (-2 ^ 31 ≤ p.score ∧ p.score < 2 ^ 31) := fun hlt => hp ⟨hnul, hlt.2⟩
      rw [htext, int4, if_neg hlarge]
      rfl
  · obtain ⟨nickname, htext⟩ := h.text_some hp.nickname
    rw [htext, int4_of_lt h0 hp.score]
    exact ⟨_, rfl⟩

theorem statsRow_fits {instant : ℤ} {text : UuidText} {member : Uuid} (h : Documented)
    (hat : Postgres.timestamptz event.finishedAt = some instant)
    (hdto : validatePlayer p = some dto) (hmember : Postgres.uuid text.text = some member)
    (h0 : 0 ≤ p.score) (hp : EntryFits p) :
    ∃ excluded, statsRow event dto text = some excluded ∧ excluded.userId = member ∧
      excluded.gamesPlayed = 1 ∧ excluded.totals = gain p ∧ excluded.Typed := by
  obtain ⟨hnickname, hscore, hrank⟩ := validatePlayer_spec hdto
  obtain ⟨nickname, htext⟩ := h.text_some hp.nickname
  have hlt : p.score < 2 ^ 63 := hp.score.trans (by decide)
  have h8 : int8 p.score = some p.score := if_pos ⟨by omega, hlt⟩
  simp only [statsRow, hmember, hnickname, htext, hscore, hrank, h8, int4_of_lt h0 hp.score, hat,
    Option.bind_eq_bind, Option.bind_some, Option.pure_def]
  refine ⟨_, rfl, rfl, rfl, rfl, ⟨by dsimp only; decide, ?_, ?_, ⟨?_, ?_, hlt⟩⟩⟩
  · show -2 ^ 31 ≤ if p.rank = 1 then (1 : ℤ) else 0
    split_ifs <;> decide
  · show -2 ^ 63 ≤ p.score
    omega
  · show (1 : ℤ) < 2 ^ 31
    decide
  · show (if p.rank = 1 then (1 : ℤ) else 0) < 2 ^ 31
    split_ifs <;> decide

theorem savePlayer_fits {instant : ℤ} {t : HistoryTables} (h : Documented)
    (hid : Postgres.uuid event.gameId.text = some id)
    (hat : Postgres.timestamptz event.finishedAt = some instant)
    (hdto : validatePlayer p = some dto) (h0 : 0 ≤ p.score) (hrank : p.rank < 2 ^ 31)
    (ht : t.Typed) :
    (¬ (EntryFits p ∧ ∀ u, userOf p.userId = some u → (t.totals u + gain p).Fit) →
      savePlayer event t dto = none) ∧
    (EntryFits p → (∀ u, userOf p.userId = some u → (t.totals u + gain p).Fit) →
      ∃ t', savePlayer event t dto = some t' ∧ t'.Typed ∧
        ∀ u, t'.totals u = t.totals u + if userOf p.userId = some u then gain p else 0) := by
  obtain ⟨hrefused, htaken⟩ := playerRow_fits h hid hdto h0 hrank
  have hmember := validatePlayer_member hdto
  by_cases hp : EntryFits p
  swap
  · refine ⟨fun _ => ?_, fun hp' => absurd hp' hp⟩
    rw [savePlayer, hrefused hp]
    rfl
  obtain ⟨row, hrow⟩ := htaken hp
  simp only [savePlayer, hrow, Option.bind_eq_bind, Option.bind_some]
  cases hu : dto.userId with
  | none =>
    have hguest : userOf p.userId = none := by
      rw [← hmember, GameResultPlayerDto.member, hu]
      rfl
    simp only [hguest, reduceCtorEq, false_implies, implies_true, and_true, if_false, add_zero]
    exact ⟨fun hn => absurd hp hn, fun _ _ => ⟨_, rfl, ht, fun _ => rfl⟩⟩
  | some text =>
    obtain ⟨member, hm⟩ := h.uuid text.text text.matched
    have huser : userOf p.userId = some member := by
      rw [← hmember, GameResultPlayerDto.member, hu, Option.bind_some, hm]
    obtain ⟨excluded, hexcluded, rfl, hone, hgain, htyped⟩ :=
      statsRow_fits h hat hdto hm h0 hp
    have ht' : ({ t with gamePlayers := t.gamePlayers ++ [row] } : HistoryTables).Typed := ht
    obtain ⟨hno, hyes⟩ := upsertStats_totals ht' htyped hone (hgain ▸ gain_pos h0)
    rw [hgain] at hno hyes
    simp only [huser, Option.some.injEq, forall_eq', hexcluded, Option.bind_some]
    refine ⟨fun hn => hno fun hfit => hn ⟨hp, hfit⟩, fun _ hfit => ?_⟩
    obtain ⟨t', hup, htyped', htotals⟩ := hyes hfit
    refine ⟨t', hup, htyped', fun u => (htotals u).trans ?_⟩
    simp only [eq_comm]
    rfl

/-! ### All entries -/

theorem gains_cons (member : Uuid) (p : GameResultPlayer) (players : List GameResultPlayer) :
    gains member (p :: players) =
      (if userOf p.userId = some member then gain p else 0) + gains member players := by
  unfold gains
  by_cases hu : userOf p.userId = some member
  · simp [hu]
  · simp [hu]

theorem gains_pos {member : Uuid} {players : List GameResultPlayer}
    (h0 : ∀ p ∈ players, 0 ≤ p.score) : (gains member players).Pos := by
  induction players with
  | nil => exact ⟨le_rfl, le_rfl, le_rfl⟩
  | cons p players ih =>
    rw [gains_cons]
    obtain ⟨r1, r2, r3⟩ := ih fun q hq => h0 q (List.mem_cons_of_mem _ hq)
    obtain ⟨g1, g2, g3⟩ := gain_pos (h0 p List.mem_cons_self)
    split_ifs
    · exact ⟨add_nonneg g1 r1, add_nonneg g2 r2, add_nonneg g3 r3⟩
    · rw [zero_add]
      exact ⟨r1, r2, r3⟩

theorem savePlayers_isSome {instant : ℤ} (h : Documented)
    (hid : Postgres.uuid event.gameId.text = some id)
    (hat : Postgres.timestamptz event.finishedAt = some instant)
    (players : List GameResultPlayer) : ∀ {dtos : List GameResultPlayerDto} {t : HistoryTables},
      players.mapM validatePlayer = some dtos → (∀ p ∈ players, 0 ≤ p.score) →
      (∀ p ∈ players, p.rank < 2 ^ 31) → t.Typed →
      ((dtos.foldlM (savePlayer event) t).isSome ↔
        (∀ p ∈ players, EntryFits p) ∧ ∀ u, (t.totals u + gains u players).Fit) := by
  induction players with
  | nil =>
    intro dtos t hdtos _ _ ht
    obtain rfl := Option.some.inj hdtos
    refine iff_of_true rfl ⟨fun p hp => absurd hp List.not_mem_nil, fun u => ?_⟩
    exact (add_zero (t.totals u)).symm ▸ ht.fit u
  | cons p players ih =>
    intro dtos t hdtos h0 hranks ht
    rw [List.mapM_cons] at hdtos
    obtain ⟨dto, hdto, hdtos⟩ := Option.bind_eq_some_iff.mp hdtos
    obtain ⟨rest, hrest, hdtos⟩ := Option.bind_eq_some_iff.mp hdtos
    obtain rfl := Option.some.inj hdtos
    rw [List.foldlM_cons]
    have hpos : ∀ u, (gains u players).Pos :=
      fun u => gains_pos fun q hq => h0 q (List.mem_cons_of_mem _ hq)
    obtain ⟨hno, hyes⟩ := savePlayer_fits h hid hat hdto (h0 p List.mem_cons_self)
      (hranks p List.mem_cons_self) ht
    by_cases hhead : EntryFits p ∧ ∀ u, userOf p.userId = some u → (t.totals u + gain p).Fit
    · obtain ⟨t', hsave, ht', htotals⟩ := hyes hhead.1 hhead.2
      have hrest' := ih hrest (fun q hq => h0 q (List.mem_cons_of_mem _ hq))
        (fun q hq => hranks q (List.mem_cons_of_mem _ hq)) ht'
      have hsum : ∀ u, t.totals u + gains u (p :: players) = t'.totals u + gains u players :=
        fun u => by rw [gains_cons, htotals, add_assoc]
      rw [hsave, Option.bind_eq_bind, Option.bind_some, hrest']
      simp only [hsum, List.forall_mem_cons, hhead.1, true_and]
    · rw [hno hhead]
      refine iff_of_false (fun hn => by cases hn) fun hall =>
        hhead ⟨hall.1 p List.mem_cons_self, ?_⟩
      intro u hu
      have hfit := hall.2 u
      rw [gains_cons, if_pos hu, ← add_assoc] at hfit
      exact hfit.of_add (hpos u)

/-- What the transaction needs of an event that the pipe lets pass, beside what every event of
game-session has. -/
def Storable (t : HistoryTables) (event : GameFinishedEvent) : Prop :=
  event.roundsPlayed < 2 ^ 31 ∧
    (event.gameId ∈ t.games.keys ∨
      (∀ p ∈ event.players, EntryFits p) ∧ ∀ u, (t.totals u + gains u event.players).Fit)

theorem gameRow_fits {e : GameFinishedEvent} {dto : GameFinishedDto} (h : Documented)
    (hv : validate e = some dto) (hroom : 0 ∉ e.roomId)
    (hyear : FourDigits e.finishedAt)
    (hlength : e.players.length < 2 ^ 31) :
    (¬ e.roundsPlayed < 2 ^ 31 → gameRow dto = none) ∧
      (e.roundsPlayed < 2 ^ 31 → ∃ g, gameRow dto = some g ∧ g.id = e.gameId) := by
  obtain ⟨hgameId, hplayers⟩ := validate_spec hv
  obtain ⟨hroomId, hfinishedAt, hrounds⟩ := validate_rest hv
  obtain ⟨instant, hat⟩ := h.timestamptz e.finishedAt hyear
  obtain ⟨roomId, htext⟩ := h.text_some hroom
  have hall := @countP_mapM _ _ validatePlayer (fun _ => true) (fun _ => true)
    (fun _ _ _ => rfl) e.players dto.players hplayers
  rw [List.countP_true, List.countP_true] at hall
  have hcount := int4_natCast (hall ▸ hlength)
  unfold gameRow
  rw [hgameId, h.uuidText, hroomId, htext, hfinishedAt, hat, hrounds, hcount]
  refine ⟨fun hlarge => ?_, fun hlt => ?_⟩
  · rw [int4_natCast_none hlarge]
    rfl
  · rw [int4_natCast hlt]
    exact ⟨_, rfl, rfl⟩

theorem saveGameResult_isSome {e : GameFinishedEvent} {dto : GameFinishedDto} {t : HistoryTables}
    (h : Documented) (hv : validate e = some dto) (hroom : 0 ∉ e.roomId)
    (hyear : FourDigits e.finishedAt) (hlength : e.players.length < 2 ^ 31)
    (h0 : ∀ p ∈ e.players, 0 ≤ p.score)
    (hranks : ∀ p ∈ e.players, p.rank < 2 ^ 31) (ht : t.Typed) :
    (saveGameResult t dto).isSome ↔ Storable t e := by
  obtain ⟨hrefused, htaken⟩ := gameRow_fits h hv hroom hyear hlength
  unfold Storable saveGameResult insertGame
  by_cases hrounds : e.roundsPlayed < 2 ^ 31
  swap
  · rw [hrefused hrounds]
    exact iff_of_false (fun hs => by cases hs) fun hs => hrounds hs.1
  obtain ⟨g, hg, hid⟩ := htaken hrounds
  rw [hg]
  by_cases hknown : g.id ∈ t.games.keys
  · simp only [Option.bind_eq_bind, Option.bind_some, dif_pos hknown]
    exact iff_of_true rfl ⟨hrounds, .inl (hid ▸ hknown)⟩
  · simp only [Option.bind_eq_bind, Option.bind_some, dif_neg hknown]
    obtain ⟨hgameId, hplayers⟩ := validate_spec hv
    obtain ⟨-, hfinishedAt, -⟩ := validate_rest hv
    obtain ⟨instant, hat⟩ := h.timestamptz e.finishedAt hyear
    have huuid : Postgres.uuid dto.gameId.text = some e.gameId := by rw [hgameId, h.uuidText]
    have ht' : ({ t with games := t.games.insertNew g hknown } : HistoryTables).Typed := ht
    have hsaved := savePlayers_isSome h huuid (hfinishedAt ▸ hat) e.players hplayers h0 hranks ht'
    have hnew : e.gameId ∉ t.games.keys := hid ▸ hknown
    simp only [hrounds, hnew, true_and, false_or]
    refine Iff.trans ?_ hsaved
    show (Option.bind (dto.players.foldlM (savePlayer dto) _) fun t => some (t, true)).isSome ↔ _
    cases dto.players.foldlM (savePlayer dto) { t with games := t.games.insertNew g hknown } with
    | none => exact Iff.rfl
    | some t' => exact Iff.rfl

end

/-! ### The concrete Postgres -/

theorem length_decimal (k : ℕ) (n : ℤ) : (decimal k n).length = k := by
  rw [decimal, List.length_map, List.length_range]

theorem length_toISOString {ms : ℤ} (h : FourDigits ms) : (toISOString ms).length = 24 := by
  obtain ⟨h0, h9⟩ := h
  have hyear : yearText (civilDate (ms / 86400000)).year =
      decimal 4 (civilDate (ms / 86400000)).year := if_pos ⟨by omega, h9⟩
  have hseparators : ∀ c ∈ ["-", "T", ":", ".", "Z"], (utf16 c).length = 1 := by decide
  simp only [List.forall_mem_cons] at hseparators
  simp only [toISOString, hyear, List.length_append, length_decimal, hseparators]

theorem readTimestamp_toISOString {ms : ℤ} (h : FourDigits ms) :
    ∃ instant, readTimestamp (toISOString ms) = some instant := by
  unfold readTimestamp
  rw [if_pos (length_toISOString h)]
  exact ⟨_, rfl⟩

theorem plainPostgres_documented : @Documented plainPostgres := by
  refine @Documented.mk plainPostgres (fun s h => ?_) plainPostgres_uuid (fun s => ?_)
    fun ms h => ?_
  · show ∃ id, (if matchesUuid s then some _ else none) = some id
    rw [if_pos h]
    exact ⟨_, rfl⟩
  · show (if 0 ∈ s then none else some s) = none ↔ 0 ∈ s
    split_ifs with h <;> simp [h]
  · exact readTimestamp_toISOString h

end GachaMind.User
