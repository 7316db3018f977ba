import GachaMind.User.History
import GachaMind.Lib.GroupFold

/-!
# The upserts compute the aggregate

`user_stats` is filled one game at a time, by an insert or by an update, while the migration
groups the whole history. Both are totals of the rows of a user, which is what makes the
tables independent of the order in which the events came.
-/

namespace GachaMind.User
open GachaMind.Js GachaMind.Shared KeyedTable GroupFold

/-! ### The totals of a user -/

/-- What the upsert inserts for a row of the history. -/
def excludedRow (userId : Uuid) (r : GamePlayer × Game) : UserStats where
  userId := userId
  nickname := r.1.nickname
  gamesPlayed := 1
  wins := if r.1.rank = 1 then 1 else 0
  totalScore := r.1.score
  bestScore := r.1.score
  lastPlayedAt := r.2.finishedAt

/-- The update on conflict, when no column overflows. -/
def UserStats.merge (row excluded : UserStats) : UserStats where
  userId := row.userId
  nickname := if row.lastPlayedAt ≤ excluded.lastPlayedAt then excluded.nickname else row.nickname
  gamesPlayed := row.gamesPlayed + 1
  wins := row.wins + excluded.wins
  totalScore := row.totalScore + excluded.totalScore
  bestScore := max row.bestScore excluded.bestScore
  lastPlayedAt := max row.lastPlayedAt excluded.lastPlayedAt

def statsTotals (userId : Uuid) : Accumulator (GamePlayer × Game) UserStats where
  start r := excludedRow userId r
  add row r := row.merge (excludedRow userId r)

theorem int4_eq_some {n m : ℤ} (h : int4 n = some m) : m = n := by
  unfold int4 at h
  split_ifs at h
  exact (Option.some.inj h).symm

theorem int8_eq_some {n m : ℤ} (h : int8 n = some m) : m = n := by
  unfold int8 at h
  split_ifs at h
  exact (Option.some.inj h).symm

theorem UserStats.add_eq_some {row excluded merged : UserStats}
    (h : row.add excluded = some merged) : merged = row.merge excluded := by
  simp only [UserStats.add, Option.bind_eq_bind, Option.bind_eq_some_iff, Option.pure_def,
    Option.some.injEq] at h
  obtain ⟨gamesPlayed, hg, wins, hw, totalScore, ht, rfl⟩ := h
  rw [int4_eq_some hg, int4_eq_some hw, int8_eq_some ht]
  rfl

/-! ### The history -/

namespace HistoryTables

theorem historyOf_append {t : HistoryTables} {g : Game} (p : GamePlayer)
    (hg : t.games.get? p.gameId = some g) (userId : Uuid) :
    ({ t with gamePlayers := t.gamePlayers ++ [p] } : HistoryTables).historyOf userId =
      t.historyOf userId ++ if p.userId = some userId then [(p, g)] else [] := by
  simp only [historyOf, joined, List.filterMap_append, List.filter_append]
  congr 1
  simp only [List.filterMap_cons, hg, Option.map_some, List.filterMap_nil]
  split_ifs with hu <;> simp [hu]

theorem historyOf_insertGame {t : HistoryTables} {g : Game} (h : g.id ∉ t.games.keys)
    (howned : ∀ p ∈ t.gamePlayers, p.gameId ∈ t.games.keys) (userId : Uuid) :
    ({ t with games := t.games.insertNew g h } : HistoryTables).historyOf userId =
      t.historyOf userId := by
  have hjoined : ({ t with games := t.games.insertNew g h } : HistoryTables).joined = t.joined := by
    refine List.filterMap_congr fun p hp => ?_
    have hne : p.gameId ≠ g.id := fun he => h (he ▸ howned p hp)
    rw [get?_insertNew, if_neg hne]
  rw [historyOf, hjoined]
  rfl

def StatsKept (t : HistoryTables) : Prop :=
  ∀ userId, t.userStats.get? userId = (statsTotals userId).total (t.historyOf userId)

theorem upsertStats_get? {t t' : HistoryTables} {excluded : UserStats}
    (h : t.upsertStats excluded = some t') :
    t'.games = t.games ∧ t'.gamePlayers = t.gamePlayers ∧ ∀ userId, t'.userStats.get? userId =
      if userId = excluded.userId then
        some (match t.userStats.get? userId with
          | none => excluded
          | some row => row.merge excluded)
      else t.userStats.get? userId := by
  unfold upsertStats at h
  cases hrow : t.userStats.get? excluded.userId with
  | none =>
    rw [hrow] at h
    obtain rfl := Option.some.inj h
    refine ⟨rfl, rfl, fun userId => ?_⟩
    rw [get?_set]
    split_ifs with hu
    · rw [hu, hrow]
    · rfl
  | some row =>
    rw [hrow] at h
    obtain ⟨merged, hm, rfl⟩ := Option.map_eq_some_iff.mp h
    obtain rfl := UserStats.add_eq_some hm
    have hid : (row.merge excluded).userId = excluded.userId := (get?_eq_some.mp hrow).2
    refine ⟨rfl, rfl, fun userId => ?_⟩
    rw [get?_set, hid]
    split_ifs with hu
    · rw [hu, hrow]
    · rfl

end HistoryTables

/-! ### The statements of saveGameResult -/

/-- The rows of an event, when Postgres takes all of them. -/
structure SavedGame where
  game : Game
  players : List GamePlayer

/-- The tables hold the rows of the games `saved`, and nothing else. -/
structure HistoryTables.Holds (t : HistoryTables) (saved : List SavedGame) : Prop where
  games : t.games.rows = saved.map SavedGame.game
  players : t.gamePlayers = saved.flatMap SavedGame.players
  ids : ∀ g ∈ saved, ∀ row ∈ g.players, row.gameId = g.game.id
  counted : ∀ g ∈ saved, g.game.playerCount = g.players.length
  stats : t.StatsKept

theorem HistoryTables.Holds.owned {t : HistoryTables} {saved : List SavedGame}
    (h : t.Holds saved) : ∀ p ∈ t.gamePlayers, p.gameId ∈ t.games.keys := by
  intro p hp
  rw [h.players] at hp
  obtain ⟨g, hg, hp⟩ := List.mem_flatMap.mp hp
  have hmem : g.game ∈ t.games.rows := by
    rw [h.games]
    exact List.mem_map_of_mem hg
  rw [h.ids g hg p hp]
  exact key_mem_keys hmem

section
variable [Postgres]

theorem gameRow_spec {event : GameFinishedDto} {g : Game} (h : gameRow event = some g) :
    Postgres.uuid event.gameId.text = some g.id ∧
      Postgres.timestamptz event.finishedAt = some g.finishedAt ∧
      g.playerCount = event.players.length := by
  simp only [gameRow, Option.bind_eq_bind, Option.bind_eq_some_iff, Option.pure_def,
    Option.some.injEq] at h
  obtain ⟨id, hid, roomId, -, rounds, -, finishedAt, hfinished, count, hcount, rfl⟩ := h
  exact ⟨hid, hfinished, int4_eq_some hcount⟩

theorem playerRow_spec {event : GameFinishedDto} {player : GameResultPlayerDto} {row : GamePlayer}
    (h : playerRow event player = some row) :
    Postgres.uuid event.gameId.text = some row.gameId ∧
      userIdParameter player = some row.userId ∧
      Postgres.text player.nickname = some row.nickname ∧ row.score = player.score ∧
      row.rank = player.rank := by
  simp only [playerRow, Option.bind_eq_bind, Option.bind_eq_some_iff, Option.pure_def,
    Option.some.injEq] at h
  obtain ⟨gameId, hgame, playerId, -, userId, huser, nickname, hnickname, score, hscore, rank,
    hrank, rfl⟩ := h
  exact ⟨hgame, huser, hnickname, int4_eq_some hscore, int4_eq_some hrank⟩

theorem playerRow_guest {event : GameFinishedDto} {player : GameResultPlayerDto}
    {row : GamePlayer} (hu : player.userId = none) (h : playerRow event player = some row) :
    row.userId = none := by
  obtain ⟨-, huser, -⟩ := playerRow_spec h
  rw [userIdParameter, hu] at huser
  exact (Option.some.inj huser).symm

theorem gameRow_id {event : GameFinishedDto} {player : GameResultPlayerDto} {g : Game}
    {row : GamePlayer} (hg : gameRow event = some g) (hrow : playerRow event player = some row) :
    row.gameId = g.id :=
  Option.some.inj ((playerRow_spec hrow).1.symm.trans (gameRow_spec hg).1)

theorem statsRow_eq {event : GameFinishedDto} {player : GameResultPlayerDto} {userId : UuidText}
    {g : Game} {row : GamePlayer} {excluded : UserStats} (hu : player.userId = some userId)
    (hg : gameRow event = some g) (hrow : playerRow event player = some row)
    (h : statsRow event player userId = some excluded) :
    row.userId = some excluded.userId ∧ excluded = excludedRow excluded.userId (row, g) := by
  obtain ⟨-, hfinished, -⟩ := gameRow_spec hg
  obtain ⟨-, huser, hnickname, hscore, hrank⟩ := playerRow_spec hrow
  rw [userIdParameter, hu] at huser
  obtain ⟨user, huuid, huser⟩ := Option.map_eq_some_iff.mp huser
  simp only [statsRow, huuid, hnickname, hfinished, Option.bind_eq_bind, Option.bind_eq_some_iff,
    Option.bind_some, Option.pure_def, Option.some.injEq] at h
  obtain ⟨total, htotal, best, hbest, rfl⟩ := h
  have hwins : (row.rank = 1) = (player.rank = 1) := by
    rw [hrank, Nat.cast_eq_one]
  refine ⟨huser.symm, ?_⟩
  simp only [excludedRow, hwins, hscore, int8_eq_some htotal, int4_eq_some hbest]

theorem savePlayer_spec {event : GameFinishedDto} {player : GameResultPlayerDto} {g : Game}
    {t t' : HistoryTables} (hg : gameRow event = some g) (hget : t.games.get? g.id = some g)
    (hk : t.StatsKept) (h : savePlayer event t player = some t') :
    ∃ row, playerRow event player = some row ∧ row.gameId = g.id ∧ t'.games = t.games ∧
      t'.gamePlayers = t.gamePlayers ++ [row] ∧ t'.StatsKept := by
  simp only [savePlayer, Option.bind_eq_bind, Option.bind_eq_some_iff] at h
  obtain ⟨row, hrow, h⟩ := h
  have hid := gameRow_id hg hrow
  have hhistory := HistoryTables.historyOf_append row (hid ▸ hget)
  refine ⟨row, hrow, hid, ?_⟩
  cases hu : player.userId with
  | none =>
    rw [hu] at h
    obtain rfl := Option.some.inj h
    refine ⟨rfl, rfl, fun u => ?_⟩
    rw [hhistory, playerRow_guest hu hrow, if_neg (by simp), List.append_nil]
    exact hk u
  | some userId =>
    rw [hu] at h
    obtain ⟨excluded, hx, h⟩ := Option.bind_eq_some_iff.mp h
    obtain ⟨huser, hexcluded⟩ := statsRow_eq hu hg hrow hx
    obtain ⟨hgames, hplayers, hstats⟩ := HistoryTables.upsertStats_get? h
    have hsame : ∀ u, t'.historyOf u = t.historyOf u ++
        if row.userId = some u then [(row, g)] else [] := by
      intro u
      rw [← hhistory, HistoryTables.historyOf, HistoryTables.joined, hgames, hplayers]
      rfl
    refine ⟨hgames, hplayers, fun u => ?_⟩
    rw [hstats, hsame, huser]
    by_cases hu' : u = excluded.userId
    · subst hu'
      rw [if_pos rfl, if_pos rfl, Accumulator.total_concat, ← hk]
      show some (match t.userStats.get? excluded.userId with
        | none => excluded
        | some row => row.merge excluded) = _
      cases t.userStats.get? excluded.userId with
      | none => exact congrArg some hexcluded
      | some old => exact congrArg (fun x => some (old.merge x)) hexcluded
    · have hne : some excluded.userId ≠ some u := fun he => hu' (Option.some.inj he).symm
      rw [if_neg hu', if_neg hne, List.append_nil]
      exact hk u

def savedGame (event : GameFinishedDto) : Option SavedGame := do
  let game ← gameRow event
  let players ← event.players.mapM (playerRow event)
  return ⟨game, players⟩

theorem savedGame_uuid {event : GameFinishedDto} {g : SavedGame}
    (h : savedGame event = some g) : Postgres.uuid event.gameId.text = some g.game.id := by
  simp only [savedGame, Option.bind_eq_bind, Option.bind_eq_some_iff, Option.pure_def,
    Option.some.injEq] at h
  obtain ⟨row, hrow, _, -, rfl⟩ := h
  exact (gameRow_spec hrow).1

theorem savePlayers_spec {event : GameFinishedDto} {g : Game} (hg : gameRow event = some g)
    (players : List GameResultPlayerDto) : ∀ {t t' : HistoryTables},
      t.games.get? g.id = some g → t.StatsKept →
      players.foldlM (savePlayer event) t = some t' →
      ∃ rows, players.mapM (playerRow event) = some rows ∧ rows.length = players.length ∧
        (∀ row ∈ rows, row.gameId = g.id) ∧ t'.games = t.games ∧
        t'.gamePlayers = t.gamePlayers ++ rows ∧ t'.StatsKept := by
  induction players with
  | nil =>
    intro t t' _ hk h
    obtain rfl := Option.some.inj h
    exact ⟨[], rfl, rfl, by simp, rfl, by simp, hk⟩
  | cons player players ih =>
    intro t t' hget hk h
    rw [List.foldlM_cons] at h
    obtain ⟨u, hu, h⟩ := Option.bind_eq_some_iff.mp h
    obtain ⟨row, hrow, hid, hgames, hplayers, hku⟩ := savePlayer_spec hg hget hk hu
    obtain ⟨rows, hrows, hlength, hids, hgames', hplayers', hk'⟩ := ih (hgames ▸ hget) hku h
    refine ⟨row :: rows, ?_, ?_, ?_, hgames'.trans hgames, ?_, hk'⟩
    · simp [List.mapM_cons, hrow, hrows]
    · simp [hlength]
    · intro r hr
      rcases List.mem_cons.mp hr with rfl | hr
      · exact hid
      · exact hids r hr
    · rw [hplayers', hplayers, List.append_assoc, List.singleton_append]

/-! ### A sequence of events -/

theorem saveGameResult_spec {t t' : HistoryTables} {event : GameFinishedDto} {isNew : Bool}
    {saved : List SavedGame} (ht : t.Holds saved)
    (h : saveGameResult t event = some (t', isNew)) :
    ∃ g, gameRow event = some g ∧
      (g.id ∈ t.games.keys ∧ t' = t ∨
        ∃ rows, savedGame event = some ⟨g, rows⟩ ∧ t'.Holds (saved ++ [⟨g, rows⟩])) := by
  simp only [saveGameResult, insertGame, Option.bind_eq_bind, Option.bind_eq_some_iff] at h
  obtain ⟨r, ⟨g, hg, hr⟩, h⟩ := h
  refine ⟨g, hg, ?_⟩
  split_ifs at hr with hid
  · obtain rfl := Option.some.inj hr
    cases h
    exact .inl ⟨hid, rfl⟩
  · obtain rfl := Option.some.inj hr
    right
    obtain ⟨u, hu, h⟩ := Option.bind_eq_some_iff.mp h
    cases h
    have hget : (t.games.insertNew g hid).get? g.id = some g := by
      rw [get?_insertNew, if_pos rfl]
    have hkept : ({ t with games := t.games.insertNew g hid } : HistoryTables).StatsKept := by
      intro userId
      rw [HistoryTables.historyOf_insertGame hid ht.owned]
      exact ht.stats userId
    obtain ⟨rows, hrows, hlength, hids, hgames, hplayers, hk⟩ :=
      savePlayers_spec hg event.players hget hkept hu
    refine ⟨rows, ?_, ⟨?_, ?_, ?_, ?_, hk⟩⟩
    · simp [savedGame, hg, hrows]
    · rw [hgames, List.map_append, ← ht.games]
      rfl
    · rw [hplayers, List.flatMap_append, ← ht.players]
      simp
    · intro s hs
      rcases List.mem_append.mp hs with hs | hs
      · exact ht.ids s hs
      · rw [List.mem_singleton.mp hs]
        exact hids
    · intro s hs
      rcases List.mem_append.mp hs with hs | hs
      · exact ht.counted s hs
      · rw [List.mem_singleton.mp hs, (gameRow_spec hg).2.2, hlength]

theorem saveAll_holds {events : List GameFinishedDto} {t : HistoryTables}
    (h : saveAll events = some t) : ∃ saved, t.Holds saved ∧
      (∀ g ∈ saved, ∃ event ∈ events, savedGame event = some g) ∧
      ∀ event ∈ events, ∃ g ∈ saved, Postgres.uuid event.gameId.text = some g.game.id := by
  induction events using List.reverseRecOn generalizing t with
  | nil =>
    obtain rfl := Option.some.inj h
    exact ⟨[], ⟨rfl, rfl, by simp, by simp, fun _ => rfl⟩, by simp, by simp⟩
  | append_singleton events event ih =>
    simp only [saveAll, List.foldlM_append, List.foldlM_cons, List.foldlM_nil,
      Option.bind_eq_bind, Option.bind_eq_some_iff, Option.map_eq_some_iff, Option.pure_def,
      Option.some.injEq] at h
    obtain ⟨u, hu, _, ⟨⟨v, isNew⟩, hsave, rfl⟩, rfl⟩ := h
    obtain ⟨saved, hholds, hfrom, hall⟩ := ih hu
    obtain ⟨g, hg, hcases⟩ := saveGameResult_spec hholds hsave
    rcases hcases with ⟨hknown, rfl⟩ | ⟨rows, hsaved, hnew⟩
    · refine ⟨saved, hholds, fun s hs => ?_, fun e he => ?_⟩
      · obtain ⟨e, he, hes⟩ := hfrom s hs
        exact ⟨e, List.mem_append_left _ he, hes⟩
      · rcases List.mem_append.mp he with he | he
        · exact hall e he
        · rw [List.mem_singleton.mp he, (gameRow_spec hg).1]
          obtain ⟨row, hrow, hid⟩ := mem_keys.mp hknown
          rw [hholds.games] at hrow
          obtain ⟨s, hs, rfl⟩ := List.mem_map.mp hrow
          exact ⟨s, hs, congrArg some hid.symm⟩
    · refine ⟨saved ++ [⟨g, rows⟩], hnew, fun s hs => ?_, fun e he => ?_⟩
      · rcases List.mem_append.mp hs with hs | hs
        · obtain ⟨e, he, hes⟩ := hfrom s hs
          exact ⟨e, List.mem_append_left _ he, hes⟩
        · rw [List.mem_singleton.mp hs]
          exact ⟨event, by simp, hsaved⟩
      · rcases List.mem_append.mp he with he | he
        · obtain ⟨s, hs, hid⟩ := hall e he
          exact ⟨s, List.mem_append_left _ hs, hid⟩
        · rw [List.mem_singleton.mp he]
          exact ⟨⟨g, rows⟩, by simp, (gameRow_spec hg).1⟩

end

/-! ### The numbers of a user -/

/-- The columns of `user_stats` that count, without the nickname. -/
structure Numbers where
  gamesPlayed : ℤ
  wins : ℤ
  totalScore : ℤ
  bestScore : ℤ
  lastPlayedAt : ℤ
  deriving DecidableEq

def UserStats.numbers (row : UserStats) : Numbers :=
  ⟨row.gamesPlayed, row.wins, row.totalScore, row.bestScore, row.lastPlayedAt⟩

def numberTotals : Accumulator (GamePlayer × Game) Numbers where
  start r := ⟨1, if r.1.rank = 1 then 1 else 0, r.1.score, r.1.score, r.2.finishedAt⟩
  add n r :=
    { gamesPlayed := n.gamesPlayed + 1
      wins := n.wins + if r.1.rank = 1 then 1 else 0
      totalScore := n.totalScore + r.1.score
      bestScore := max n.bestScore r.1.score
      lastPlayedAt := max n.lastPlayedAt r.2.finishedAt }

theorem statsTotals_numbers (userId : Uuid) (l : List (GamePlayer × Game)) :
    ((statsTotals userId).total l).map UserStats.numbers = numberTotals.total l := by
  have h := Accumulator.total_map (statsTotals userId) numberTotals UserStats.numbers id
    (fun _ => rfl) (fun _ _ => rfl) l
  rwa [List.map_id] at h

theorem numberTotals_perm {l l' : List (GamePlayer × Game)} (h : l.Perm l') :
    numberTotals.total l = numberTotals.total l' := by
  refine Accumulator.total_perm _ (fun a b => ?_) (fun n a b => ?_) h
  · simp only [numberTotals, Numbers.mk.injEq, true_and]
    exact ⟨add_comm _ _, add_comm _ _, max_comm _ _, max_comm _ _⟩
  · simp only [numberTotals, Numbers.mk.injEq, true_and]
    exact ⟨add_right_comm _ _ _, add_right_comm _ _ _, max_right_comm _ _ _,
      max_right_comm _ _ _⟩

theorem foldl_numberTotals (rows : List (GamePlayer × Game)) : ∀ n : Numbers,
    rows.foldl numberTotals.extend (some n) = some
      { gamesPlayed := n.gamesPlayed + rows.length
        wins := n.wins + rows.countP fun r => r.1.rank = 1
        totalScore := n.totalScore + (rows.map fun r => r.1.score).sum
        bestScore := (rows.map fun r => r.1.score).foldl max n.bestScore
        lastPlayedAt := (rows.map fun r => r.2.finishedAt).foldl max n.lastPlayedAt } := by
  induction rows with
  | nil =>
    intro n
    simp
  | cons r rows ih =>
    intro n
    rw [List.foldl_cons]
    show rows.foldl numberTotals.extend (some (numberTotals.add n r)) = _
    rw [ih]
    simp only [numberTotals, List.length_cons, List.countP_cons, List.map_cons, List.sum_cons,
      List.foldl_cons, Option.some.injEq, Numbers.mk.injEq, decide_eq_true_eq, and_true]
    refine ⟨?_, ?_, ?_⟩
    · omega
    · split_ifs <;> omega
    · omega

theorem backfill_numbers (t : HistoryTables) (userId : Uuid) :
    (t.backfill userId).map UserStats.numbers = numberTotals.total (t.historyOf userId) := by
  unfold HistoryTables.backfill
  cases hrows : t.historyOf userId with
  | nil => rfl
  | cons r rows =>
    show _ = rows.foldl numberTotals.extend (some (numberTotals.start r))
    rw [foldl_numberTotals]
    simp only [mostRecent, List.map_cons, List.max?_cons', Option.bind_eq_bind, Option.bind_some,
      Option.pure_def, Option.map_some, UserStats.numbers, numberTotals, List.length_cons,
      List.countP_cons, List.sum_cons, Option.some.injEq, Numbers.mk.injEq, decide_eq_true_eq,
      and_true]
    refine ⟨?_, ?_⟩
    · omega
    · split_ifs <;> omega

/-! ### The tables and the aggregate -/

/-- The tables agree with the aggregate of the history they hold. -/
structure HistoryTables.Aggregated (t : HistoryTables) : Prop where
  counted : ∀ g ∈ t.games.rows,
    g.playerCount = (t.gamePlayers.filter fun p => p.gameId = g.id).length
  owned : ∀ p ∈ t.gamePlayers, p.gameId ∈ t.games.keys
  users : ∀ userId, userId ∈ t.userStats.keys ↔ ∃ p ∈ t.gamePlayers, p.userId = some userId
  numbers : ∀ userId, (t.userStats.get? userId).map UserStats.numbers =
    (t.backfill userId).map UserStats.numbers

/-- Every event has its game, and the rows of a game are those of one event. -/
structure HistoryTables.Records [Postgres] (t : HistoryTables) (events : List GameFinishedDto) :
    Prop where
  every : ∀ event ∈ events, ∃ g ∈ t.games.rows, Postgres.uuid event.gameId.text = some g.id
  once : ∀ g ∈ t.games.rows, ∃ event ∈ events,
    savedGame event = some ⟨g, t.gamePlayers.filter fun p => p.gameId = g.id⟩

structure HistoryTables.SameNumbers (t t' : HistoryTables) : Prop where
  games : ∀ id, t.games.get? id = t'.games.get? id
  players : t.gamePlayers.Perm t'.gamePlayers
  numbers : ∀ userId, (t.userStats.get? userId).map UserStats.numbers =
    (t'.userStats.get? userId).map UserStats.numbers

/-- The same events in any order and number, where an id is that of one event only. -/
def Redelivered [Postgres] (events events' : List GameFinishedDto) : Prop :=
  (∀ event, event ∈ events ↔ event ∈ events') ∧
    ∀ e ∈ events, ∀ e' ∈ events,
      Postgres.uuid e.gameId.text = Postgres.uuid e'.gameId.text → e = e'

namespace HistoryTables.Holds
variable {t t' : HistoryTables} {saved saved' : List SavedGame}

theorem ids_nodup (h : t.Holds saved) : (saved.map fun s => s.game.id).Nodup := by
  have hn := t.games.nodup
  rwa [h.games, List.map_map] at hn

theorem playersOf (h : t.Holds saved) {s : SavedGame} (hs : s ∈ saved) :
    t.gamePlayers.filter (fun p => p.gameId = s.game.id) = s.players := by
  have hn := h.ids_nodup
  have hids := h.ids
  rw [h.players]
  clear h
  induction saved with
  | nil => cases hs
  | cons first saved ih =>
    rw [List.map_cons, List.nodup_cons] at hn
    rw [List.flatMap_cons, List.filter_append]
    have hfirst : ∀ p ∈ first.players, p.gameId = first.game.id :=
      hids first List.mem_cons_self
    have hrest : ∀ g ∈ saved, ∀ p ∈ g.players, p.gameId = g.game.id :=
      fun g hg => hids g (List.mem_cons_of_mem _ hg)
    rcases List.mem_cons.mp hs with rfl | hs
    · have hkeep : s.players.filter (fun p => p.gameId = s.game.id) = s.players :=
        List.filter_eq_self.mpr fun p hp => decide_eq_true (hfirst p hp)
      have hdrop : (saved.flatMap SavedGame.players).filter (fun p => p.gameId = s.game.id) =
          [] := by
        refine List.filter_eq_nil_iff.mpr fun p hp he => hn.1 ?_
        obtain ⟨g, hg, hp⟩ := List.mem_flatMap.mp hp
        rw [← of_decide_eq_true he, hrest g hg p hp]
        exact List.mem_map_of_mem hg
      rw [hkeep, hdrop, List.append_nil]
    · have hdrop : first.players.filter (fun p => p.gameId = s.game.id) = [] := by
        refine List.filter_eq_nil_iff.mpr fun p hp he => hn.1 ?_
        rw [← hfirst p hp, of_decide_eq_true he]
        exact List.mem_map_of_mem hs
      rw [hdrop, List.nil_append]
      exact ih hs hn.2 hrest

theorem historyOf_eq_nil (h : t.Holds saved) (userId : Uuid) :
    t.historyOf userId = [] ↔ ¬ ∃ p ∈ t.gamePlayers, p.userId = some userId := by
  rw [List.eq_nil_iff_forall_not_mem]
  constructor
  · intro hnone hp
    obtain ⟨p, hp, hu⟩ := hp
    obtain ⟨g, hg⟩ := exists_get? (h.owned p hp)
    refine hnone (p, g) (List.mem_filter.mpr ⟨?_, decide_eq_true hu⟩)
    exact List.mem_filterMap.mpr ⟨p, hp, by rw [hg]; rfl⟩
  · intro hnone r hr
    obtain ⟨hjoined, hu⟩ := List.mem_filter.mp hr
    obtain ⟨p, hp, hr⟩ := List.mem_filterMap.mp hjoined
    obtain ⟨g, -, rfl⟩ := Option.map_eq_some_iff.mp hr
    exact hnone ⟨p, hp, of_decide_eq_true hu⟩

theorem aggregated (h : t.Holds saved) : t.Aggregated where
  counted g hg := by
    rw [h.games] at hg
    obtain ⟨s, hs, rfl⟩ := List.mem_map.mp hg
    rw [h.playersOf hs]
    exact h.counted s hs
  owned := h.owned
  users userId := by
    rw [← get?_isSome, h.stats, Option.isSome_iff_ne_none, ne_eq, Accumulator.total_eq_none,
      h.historyOf_eq_nil, not_not]
  numbers userId := by rw [h.stats, statsTotals_numbers, backfill_numbers]

theorem sameNumbers (h : t.Holds saved) (h' : t'.Holds saved') (hp : saved.Perm saved') :
    t.SameNumbers t' := by
  have hgames : ∀ id, t.games.get? id = t'.games.get? id := by
    intro id
    apply Option.ext
    intro g
    rw [get?_eq_some, get?_eq_some, h.games, h'.games, (hp.map _).mem_iff]
  have hplayers : t.gamePlayers.Perm t'.gamePlayers := by
    rw [h.players, h'.players]
    exact hp.flatMap_right _
  refine ⟨hgames, hplayers, fun userId => ?_⟩
  have hhistory : (t.historyOf userId).Perm (t'.historyOf userId) := by
    refine List.Perm.filter _ ?_
    unfold joined
    simp only [hgames]
    exact hplayers.filterMap _
  rw [h.stats, h'.stats, statsTotals_numbers, statsTotals_numbers, numberTotals_perm hhistory]

end HistoryTables.Holds

section
variable [Postgres]

theorem Redelivered.symm {events events' : List GameFinishedDto}
    (h : Redelivered events events') : Redelivered events' events :=
  ⟨fun e => (h.1 e).symm, fun e he e' he' => h.2 e ((h.1 e).mpr he) e' ((h.1 e').mpr he')⟩

theorem saved_subset {events events' : List GameFinishedDto} {saved saved' : List SavedGame}
    (hfrom : ∀ g ∈ saved, ∃ event ∈ events, savedGame event = some g)
    (hfrom' : ∀ g ∈ saved', ∃ event ∈ events', savedGame event = some g)
    (hall' : ∀ event ∈ events', ∃ g ∈ saved', Postgres.uuid event.gameId.text = some g.game.id)
    (hsame : Redelivered events events') : saved ⊆ saved' := by
  intro s hs
  obtain ⟨e, he, hes⟩ := hfrom s hs
  obtain ⟨s', hs', hid⟩ := hall' e ((hsame.1 e).mp he)
  obtain ⟨e', he', hes'⟩ := hfrom' s' hs'
  -- two saved games with one id come from one event
  have hone : e = e' :=
    hsame.2 e he e' ((hsame.1 e').mpr he') (by rw [hid, savedGame_uuid hes'])
  rw [hone, hes'] at hes
  rwa [← Option.some.inj hes]

theorem saved_perm {events events' : List GameFinishedDto} {t t' : HistoryTables}
    {saved saved' : List SavedGame} (h : t.Holds saved) (h' : t'.Holds saved')
    (hfrom : ∀ g ∈ saved, ∃ event ∈ events, savedGame event = some g)
    (hall : ∀ event ∈ events, ∃ g ∈ saved, Postgres.uuid event.gameId.text = some g.game.id)
    (hfrom' : ∀ g ∈ saved', ∃ event ∈ events', savedGame event = some g)
    (hall' : ∀ event ∈ events', ∃ g ∈ saved', Postgres.uuid event.gameId.text = some g.game.id)
    (hsame : Redelivered events events') : saved.Perm saved' := by
  have hsub : saved ⊆ saved' := saved_subset hfrom hfrom' hall' hsame
  have hsub' : saved' ⊆ saved := saved_subset hfrom' hfrom hall hsame.symm
  exact (List.perm_ext_iff_of_nodup (List.Nodup.of_map _ h.ids_nodup)
    (List.Nodup.of_map _ h'.ids_nodup)).mpr fun s => ⟨fun hs => hsub hs, fun hs => hsub' hs⟩

/-- However often and in whatever order events are saved, the tables are the aggregate. -/
theorem history_aggregated (events : List GameFinishedDto) (t : HistoryTables)
    (h : saveAll events = some t) : t.Aggregated ∧ t.Records events ∧
      ∀ events' t', saveAll events' = some t' → Redelivered events events' → t.SameNumbers t' := by
  obtain ⟨saved, hholds, hfrom, hall⟩ := saveAll_holds h
  refine ⟨hholds.aggregated, ⟨fun event he => ?_, fun g hg => ?_⟩, ?_⟩
  · obtain ⟨s, hs, hid⟩ := hall event he
    refine ⟨s.game, ?_, hid⟩
    rw [hholds.games]
    exact List.mem_map_of_mem hs
  · rw [hholds.games] at hg
    obtain ⟨s, hs, rfl⟩ := List.mem_map.mp hg
    rw [hholds.playersOf hs]
    exact hfrom s hs
  · intro events' t' h' hsame
    obtain ⟨saved', hholds', hfrom', hall'⟩ := saveAll_holds h'
    exact hholds.sameNumbers hholds' (saved_perm hholds hholds' hfrom hall hfrom' hall' hsame)

end

/-! ### Two events on fixed inputs -/

def hexValue (c : CodeUnit) : ℕ :=
  if c ≤ 0x39 then (c - 0x30).toNat else if c ≤ 0x46 then (c - 0x37).toNat else (c - 0x57).toNat

@[reducible] def samplePostgres : Postgres where
  uuid s := some ⟨BitVec.ofNat 128
    ((s.filter fun c => c ≠ 0x2D).foldl (fun n c => 16 * n + hexValue c) 0)⟩
  timestamptz s :=
    if s = utf16 "2026-01-01T00:00:00.000Z" then some 1767225600000000
    else if s = utf16 "2026-01-02T00:00:00.000Z" then some 1767312000000000
    else none
  text := some

def sampleMember : UuidText := ⟨utf16 "00000000-0000-4000-8000-00000000000a", by decide +kernel⟩

def samplePlayer (userId : Option UuidText) (score : ℤ) (rank : ℕ) (h : 1 ≤ rank) :
    GameResultPlayerDto where
  playerId := ⟨utf16 "00000000-0000-4000-8000-00000000000B", by decide +kernel⟩
  userId := userId
  nickname := utf16 "a"
  score := score
  rank := rank
  rank_min := h

/-- The later game: the member is listed twice, beside a guest. -/
def laterEvent : GameFinishedDto where
  gameId := ⟨utf16 "00000000-0000-4000-8000-000000000002", by decide +kernel⟩
  roomId := utf16 "AB3DE"
  finishedAt := utf16 "2026-01-02T00:00:00.000Z"
  roundsPlayed := 3
  players := [samplePlayer (some sampleMember) 70 1 (by decide),
    samplePlayer none 20 2 (by decide), samplePlayer (some sampleMember) (-5) 3 (by decide)]
  players_min := by simp

def earlierEvent : GameFinishedDto where
  gameId := ⟨utf16 "00000000-0000-4000-8000-000000000001", by decide +kernel⟩
  roomId := utf16 "AB3DE"
  finishedAt := utf16 "2026-01-01T00:00:00.000Z"
  roundsPlayed := 2
  players := [samplePlayer (some sampleMember) 90 1 (by decide)]
  players_min := by simp

theorem redelivered_pair [Postgres] {a b : GameFinishedDto}
    (h : Postgres.uuid a.gameId.text ≠ Postgres.uuid b.gameId.text) :
    Redelivered [a, b, a] [b, a] := by
  have hmem : ∀ e ∈ [a, b, a], e = a ∨ e = b := by
    intro e he
    simp only [List.mem_cons, List.not_mem_nil, or_false] at he
    tauto
  refine ⟨fun e => ?_, fun e he e' he' hid => ?_⟩
  · simp only [List.mem_cons, List.not_mem_nil, or_false]
    tauto
  · rcases hmem e he with rfl | rfl <;> rcases hmem e' he' with rfl | rfl
    · rfl
    · exact absurd hid h
    · exact absurd hid.symm h
    · rfl

theorem redelivered_aggregated : ∃ t t',
    @saveAll samplePostgres [laterEvent, earlierEvent, laterEvent] = some t ∧
    @saveAll samplePostgres [earlierEvent, laterEvent] = some t' ∧
    t.userStats.rows.map UserStats.numbers = [⟨3, 2, 155, 90, 1767312000000000⟩] ∧
    t.Aggregated ∧ @HistoryTables.Records samplePostgres t [laterEvent, earlierEvent, laterEvent] ∧
    t.SameNumbers t' := by
  have hsame : @Redelivered samplePostgres [laterEvent, earlierEvent, laterEvent]
      [earlierEvent, laterEvent] := @redelivered_pair samplePostgres _ _ (by decide +kernel)
  have hget' : @saveAll samplePostgres [earlierEvent, laterEvent] = some _ :=
    (Option.some_get (by decide +kernel)).symm
  have hall := @history_aggregated samplePostgres [laterEvent, earlierEvent, laterEvent] _
    (Option.some_get (by decide +kernel)).symm
  exact ⟨_, _, (Option.some_get _).symm, hget', by decide +kernel, hall.1, hall.2.1,
    hall.2.2 _ _ hget' hsame⟩

end GachaMind.User
