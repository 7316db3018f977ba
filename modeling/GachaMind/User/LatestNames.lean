import GachaMind.User.Aggregation

/-!
# The nickname of the latest game

The upsert keeps the nickname of the row saved last among those with the greatest `finished_at`,
while the migration sorts the rows of a user by `finished_at` and the id of the game. Where a
user has several games with the greatest `finished_at`, the two can differ.
-/

namespace GachaMind.User
open GachaMind.Js GachaMind.Shared KeyedTable GroupFold

/-! ### The rows of one game -/

def rowsOf (userId : Uuid) (g : SavedGame) : List (GamePlayer × Game) :=
  (g.players.filter fun p => p.userId = some userId).map fun p => (p, g.game)

theorem rowsOf_game {userId : Uuid} {g : SavedGame} {r : GamePlayer × Game}
    (h : r ∈ rowsOf userId g) : r.2 = g.game := by
  obtain ⟨p, -, rfl⟩ := List.mem_map.mp h
  rfl

theorem HistoryTables.Holds.historyOf_eq {t : HistoryTables} {saved : List SavedGame}
    (h : t.Holds saved) (userId : Uuid) :
    t.historyOf userId = saved.flatMap (rowsOf userId) := by
  have hget : ∀ g ∈ saved, ∀ p ∈ g.players,
      (t.games.get? p.gameId).map (fun x => (p, x)) = some (p, g.game) := by
    intro g hg p hp
    have hmem : g.game ∈ t.games.rows := by
      rw [h.games]
      exact List.mem_map_of_mem hg
    rw [h.ids g hg p hp, get?_of_mem hmem]
    rfl
  rw [HistoryTables.historyOf, HistoryTables.joined, h.players, List.filterMap_flatMap,
    List.filter_flatMap]
  apply List.flatMap_congr
  intro g hg
  have hpairs : g.players.filterMap (fun p => (t.games.get? p.gameId).map fun x => (p, x)) =
      g.players.map fun p => (p, g.game) := by
    rw [List.filterMap_congr (hget g hg)]
    exact congrFun List.filterMap_eq_map' _
  rw [hpairs, List.filter_map]
  rfl

theorem nickname_total (userId : Uuid) (rows : List (GamePlayer × Game)) :
    ((statsTotals userId).total rows).map UserStats.nickname =
      ((newest fun r : GamePlayer × Game => r.2.finishedAt).total rows).map
        fun r => r.1.nickname := by
  have hstats := (statsTotals userId).total_map (newest Prod.snd)
    (fun row : UserStats => (row.nickname, row.lastPlayedAt))
    (fun r : GamePlayer × Game => (r.1.nickname, r.2.finishedAt)) (fun _ => rfl)
    (by
      intro row r
      show (if row.lastPlayedAt ≤ r.2.finishedAt then r.1.nickname else row.nickname,
          max row.lastPlayedAt r.2.finishedAt) =
        if row.lastPlayedAt ≤ r.2.finishedAt then (r.1.nickname, r.2.finishedAt)
        else (row.nickname, row.lastPlayedAt)
      by_cases hle : row.lastPlayedAt ≤ r.2.finishedAt
      · rw [max_eq_right hle, if_pos hle, if_pos hle]
      · rw [max_eq_left (not_le.mp hle).le, if_neg hle, if_neg hle]) rows
  have hnewest := (newest fun r : GamePlayer × Game => r.2.finishedAt).total_map (newest Prod.snd)
    (fun r : GamePlayer × Game => (r.1.nickname, r.2.finishedAt))
    (fun r : GamePlayer × Game => (r.1.nickname, r.2.finishedAt)) (fun _ => rfl)
    (by
      intro b a
      simp only [newest]
      split_ifs <;> rfl) rows
  have hboth := congrArg (Option.map Prod.fst) (hstats.trans hnewest.symm)
  simpa only [Option.map_map, Function.comp_def] using hboth

/-- The upserts keep the nickname of the last row in the last of the latest games. -/
theorem HistoryTables.Holds.nickname_eq {t : HistoryTables} {saved : List SavedGame}
    (h : t.Holds saved) (userId : Uuid) :
    (t.userStats.get? userId).map UserStats.nickname =
      ((newest fun g : SavedGame => g.game.finishedAt).total
        (saved.filter fun g => !(rowsOf userId g).isEmpty)).bind
          fun g => (rowsOf userId g).getLast?.map fun r => r.1.nickname := by
  have hkey : ∀ g, ∀ r ∈ rowsOf userId g, r.2.finishedAt = g.game.finishedAt := by
    intro g r hr
    rw [rowsOf_game hr]
  rw [h.stats, nickname_total, h.historyOf_eq, newest_flatMap hkey, Option.map_bind]
  rfl

/-! ### What the migration computes -/

/-- A nickname that the migration may compute: Postgres sorts the rows of one game in any order. -/
def HistoryTables.MayBackfill (t : HistoryTables) (userId : Uuid) (nickname : JsString) : Prop :=
  ∃ r ∈ t.historyOf userId, (∀ r' ∈ t.historyOf userId, r.2.before r'.2 = false) ∧
    r.1.nickname = nickname

theorem before_iff {a b : Game} : a.before b = true ↔
    toLex (a.finishedAt, a.id.bits.toNat) < toLex (b.finishedAt, b.id.bits.toNat) := by
  rw [Game.before, decide_eq_true_iff, Prod.Lex.toLex_lt_toLex]

theorem before_eq_false {a b : Game} : a.before b = false ↔
    toLex (b.finishedAt, b.id.bits.toNat) ≤ toLex (a.finishedAt, a.id.bits.toNat) := by
  rw [← Bool.not_eq_true, before_iff, not_lt]

theorem mostRecent_spec {rows : List (GamePlayer × Game)} {r : GamePlayer × Game}
    (h : mostRecent rows = some r) :
    r ∈ rows ∧ ∀ r' ∈ rows, r.2.before r'.2 = false := by
  cases rows with
  | nil => cases h
  | cons first rest =>
    obtain rfl := Option.some.inj h
    clear h
    induction rest using List.reverseRecOn with
    | nil =>
      refine ⟨List.mem_cons_self, ?_⟩
      intro r' hr'
      rw [List.mem_singleton.mp hr']
      exact before_eq_false.mpr le_rfl
    | append_singleton rest x ih =>
      rw [List.foldl_concat]
      generalize rest.foldl (fun best r => if best.2.before r.2 then r else best) first = best
        at ih
      obtain ⟨hmem, hmax⟩ := ih
      have hmem' : ∀ r', r' ∈ first :: (rest ++ [x]) ↔ r' ∈ first :: rest ∨ r' = x := by
        intro r'
        rw [← List.cons_append, List.mem_append, List.mem_singleton]
      cases hbefore : best.2.before x.2 with
      | true =>
        rw [if_pos rfl]
        refine ⟨(hmem' x).mpr (Or.inr rfl), ?_⟩
        intro r' hr'
        rcases (hmem' r').mp hr' with hr' | rfl
        · exact before_eq_false.mpr
            ((before_eq_false.mp (hmax r' hr')).trans (before_iff.mp hbefore).le)
        · exact before_eq_false.mpr le_rfl
      | false =>
        rw [if_neg (by decide)]
        refine ⟨(hmem' best).mpr (Or.inl hmem), ?_⟩
        intro r' hr'
        rcases (hmem' r').mp hr' with hr' | rfl
        · exact hmax r' hr'
        · exact hbefore

theorem mayBackfill_backfill {t : HistoryTables} {userId : Uuid} {row : UserStats}
    (h : t.backfill userId = some row) : t.MayBackfill userId row.nickname := by
  simp only [HistoryTables.backfill, Option.bind_eq_bind, Option.bind_eq_some_iff,
    Option.pure_def, Option.some.injEq] at h
  obtain ⟨recent, hrecent, _, _, _, _, rfl⟩ := h
  obtain ⟨hmem, hmax⟩ := mostRecent_spec hrecent
  exact ⟨recent, hmem, hmax, rfl⟩

theorem exists_mayBackfill {t : HistoryTables} {userId : Uuid} (h : t.historyOf userId ≠ []) :
    ∃ nickname, t.MayBackfill userId nickname := by
  obtain ⟨first, rest, hrows⟩ := List.exists_cons_of_ne_nil h
  have hrecent : ∃ r, mostRecent (t.historyOf userId) = some r := by
    rw [hrows]
    exact ⟨_, rfl⟩
  obtain ⟨r, hr⟩ := hrecent
  obtain ⟨hmem, hmax⟩ := mostRecent_spec hr
  exact ⟨r.1.nickname, r, hmem, hmax, rfl⟩

/-! ### The condition -/

section
variable [Postgres]

/-- The saved game of one of the events, in which the user has rows. -/
def Played (events : List GameFinishedDto) (userId : Uuid) (g : SavedGame) : Prop :=
  (∃ event ∈ events, savedGame event = some g) ∧ rowsOf userId g ≠ []

/-- One of the user's games with the greatest `finished_at`. -/
structure Latest (events : List GameFinishedDto) (userId : Uuid) (g : SavedGame) : Prop where
  played : Played events userId g
  latest : ∀ g', Played events userId g' → g'.game.finishedAt ≤ g.game.finishedAt

/-- Among those, the game with the greatest id. -/
structure Foremost (events : List GameFinishedDto) (userId : Uuid) (g : SavedGame) : Prop where
  played : Played events userId g
  foremost : ∀ g', Played events userId g' → g.game.before g'.game = false

/-- The last row of the user in each of their latest games carries the nickname that all their
rows in the foremost one carry. -/
def OneNickname (events : List GameFinishedDto) : Prop :=
  ∀ userId g g', Foremost events userId g → Latest events userId g' → ∀ r ∈ rowsOf userId g,
    (rowsOf userId g').getLast?.map (fun r => r.1.nickname) = some r.1.nickname

/-- The nicknames do not depend on the order of the events, and are those of the migration. -/
structure NicknamesSettled (events : List GameFinishedDto) : Prop where
  same : ∀ order order' t t', order.Perm events → order'.Perm events →
    saveAll order = some t → saveAll order' = some t' → ∀ userId,
      (t.userStats.get? userId).map UserStats.nickname =
        (t'.userStats.get? userId).map UserStats.nickname
  backfilled : ∀ order t, order.Perm events → saveAll order = some t →
    ∀ userId row nickname, t.userStats.get? userId = some row →
      t.MayBackfill userId nickname → row.nickname = nickname

/-! ### Events saved in order -/

theorem saveAll_in_order {events : List GameFinishedDto} {t : HistoryTables}
    (hids : (events.map fun event => Postgres.uuid event.gameId.text).Nodup)
    (h : saveAll events = some t) :
    ∃ saved, t.Holds saved ∧ events.map savedGame = saved.map some := by
  induction events using List.reverseRecOn generalizing t with
  | nil =>
    obtain rfl := Option.some.inj h
    exact ⟨[], ⟨rfl, rfl, by simp, by simp, fun _ => rfl⟩, rfl⟩
  | append_singleton events event ih =>
    rw [List.map_append, List.nodup_append] at hids
    simp only [saveAll, List.foldlM_append, List.foldlM_cons, List.foldlM_nil,
      Option.bind_eq_bind, Option.bind_eq_some_iff, Option.map_eq_some_iff, Option.pure_def,
      Option.some.injEq] at h
    obtain ⟨u, hu, _, ⟨⟨v, isNew⟩, hsave, rfl⟩, rfl⟩ := h
    obtain ⟨saved, hholds, hsaved⟩ := ih hids.1 hu
    obtain ⟨g, hg, hcases⟩ := saveGameResult_spec hholds hsave
    rcases hcases with ⟨hknown, rfl⟩ | ⟨rows, hrows, hnew⟩
    · -- the id of this event is not one of those before it
      obtain ⟨x, hx, hid⟩ := mem_keys.mp hknown
      rw [hholds.games] at hx
      obtain ⟨s, hs, rfl⟩ := List.mem_map.mp hx
      have hmem : some s ∈ events.map savedGame := hsaved ▸ List.mem_map_of_mem hs
      obtain ⟨e, he, hes⟩ := List.mem_map.mp hmem
      have hsame : Postgres.uuid e.gameId.text = Postgres.uuid event.gameId.text := by
        rw [savedGame_uuid hes, (gameRow_spec hg).1, hid]
      exact absurd hsame (hids.2.2 _ (List.mem_map_of_mem he) _ (List.mem_singleton_self _))
    · refine ⟨saved ++ [⟨g, rows⟩], hnew, ?_⟩
      rw [List.map_append, hsaved, List.map_append, List.map_singleton, hrows, List.map_singleton]

theorem mem_saved_iff {events order : List GameFinishedDto} {saved : List SavedGame}
    (hperm : order.Perm events) (hsaved : order.map savedGame = saved.map some) (g : SavedGame) :
    g ∈ saved ↔ ∃ event ∈ events, savedGame event = some g := by
  have hmem : g ∈ saved ↔ some g ∈ order.map savedGame := by
    rw [hsaved, List.mem_map_of_injective (Option.some_injective _)]
  rw [hmem, List.mem_map]
  simp only [hperm.mem_iff]

theorem mem_historyOf_iff {events order : List GameFinishedDto} {saved : List SavedGame}
    {t : HistoryTables} (hperm : order.Perm events)
    (hsaved : order.map savedGame = saved.map some) (h : t.Holds saved) (userId : Uuid)
    (r : GamePlayer × Game) :
    r ∈ t.historyOf userId ↔ ∃ g, Played events userId g ∧ r ∈ rowsOf userId g := by
  rw [h.historyOf_eq, List.mem_flatMap]
  constructor
  · rintro ⟨g, hg, hr⟩
    exact ⟨g, ⟨(mem_saved_iff hperm hsaved g).mp hg, List.ne_nil_of_mem hr⟩, hr⟩
  · rintro ⟨g, hg, hr⟩
    exact ⟨g, (mem_saved_iff hperm hsaved g).mpr hg.1, hr⟩

/-- The rows that the migration may sort first are those of the foremost game. -/
theorem mayBackfill_iff {events order : List GameFinishedDto} {saved : List SavedGame}
    {t : HistoryTables} (hperm : order.Perm events)
    (hsaved : order.map savedGame = saved.map some) (h : t.Holds saved) (userId : Uuid)
    (nickname : JsString) : t.MayBackfill userId nickname ↔
      ∃ g, Foremost events userId g ∧ ∃ r ∈ rowsOf userId g, r.1.nickname = nickname := by
  have hhistory := mem_historyOf_iff hperm hsaved h userId
  constructor
  · rintro ⟨r, hr, hfirst, hname⟩
    obtain ⟨g, hplayed, hrow⟩ := (hhistory r).mp hr
    refine ⟨g, ⟨hplayed, ?_⟩, r, hrow, hname⟩
    intro g' hplayed'
    obtain ⟨r', hrow'⟩ := List.exists_mem_of_ne_nil _ hplayed'.2
    rw [← rowsOf_game hrow, ← rowsOf_game hrow']
    exact hfirst r' ((hhistory r').mpr ⟨g', hplayed', hrow'⟩)
  · rintro ⟨g, hforemost, r, hrow, hname⟩
    refine ⟨r, (hhistory r).mpr ⟨g, hforemost.played, hrow⟩, ?_, hname⟩
    intro r' hr'
    obtain ⟨g', hplayed', hrow'⟩ := (hhistory r').mp hr'
    rw [rowsOf_game hrow, rowsOf_game hrow']
    exact hforemost.foremost g' hplayed'

/-- What the upserts keep is the last row of a latest game. -/
theorem kept_from_latest {events order : List GameFinishedDto} {saved : List SavedGame}
    {t : HistoryTables} (hperm : order.Perm events)
    (hsaved : order.map savedGame = saved.map some) (h : t.Holds saved) {userId : Uuid}
    {row : UserStats} (hrow : t.userStats.get? userId = some row) :
    ∃ g, Latest events userId g ∧
      (rowsOf userId g).getLast?.map (fun r => r.1.nickname) = some row.nickname := by
  have hkept := h.nickname_eq userId
  rw [hrow, Option.map_some, eq_comm, Option.bind_eq_some_iff] at hkept
  obtain ⟨g, hg, hlast⟩ := hkept
  have hplayed : ∀ g', g' ∈ saved.filter (fun g => !(rowsOf userId g).isEmpty) ↔
      Played events userId g' := by
    intro g'
    rw [List.mem_filter, mem_saved_iff hperm hsaved]
    simp [Played]
  refine ⟨g, ⟨(hplayed g).mp (newest_mem hg), ?_⟩, hlast⟩
  intro g' hg'
  exact newest_max hg g' ((hplayed g').mpr hg')

/-- Where a latest game is saved last, its last row is what the upserts keep. -/
theorem kept_of_latest_last {events order : List GameFinishedDto} {saved : List SavedGame}
    {t : HistoryTables} {g : SavedGame} (hperm : order.Perm events)
    (hsaved : order.map savedGame = (saved ++ [g]).map some) (h : t.Holds (saved ++ [g]))
    {userId : Uuid} (hg : Latest events userId g) :
    (t.userStats.get? userId).map UserStats.nickname =
      (rowsOf userId g).getLast?.map fun r => r.1.nickname := by
  have hkeep : [g].filter (fun g => !(rowsOf userId g).isEmpty) = [g] := by
    simp [hg.played.2]
  rw [h.nickname_eq, List.filter_append, hkeep, newest_concat_of_max]
  · rfl
  · intro g' hg'
    obtain ⟨hmem, hrows⟩ := List.mem_filter.mp hg'
    apply hg.latest
    refine ⟨(mem_saved_iff hperm hsaved g').mp (List.mem_append_left _ hmem), ?_⟩
    simpa using hrows

theorem kept_eq_backfilled {events order : List GameFinishedDto} {t : HistoryTables}
    (hids : (order.map fun event => Postgres.uuid event.gameId.text).Nodup)
    (hperm : order.Perm events) (hone : OneNickname events) (h : saveAll order = some t)
    {userId : Uuid} {row : UserStats} {nickname : JsString}
    (hrow : t.userStats.get? userId = some row) (hfill : t.MayBackfill userId nickname) :
    row.nickname = nickname := by
  obtain ⟨saved, hholds, hsaved⟩ := saveAll_in_order hids h
  obtain ⟨g, hlatest, hlast⟩ := kept_from_latest hperm hsaved hholds hrow
  obtain ⟨g', hforemost, r, hr, rfl⟩ := (mayBackfill_iff hperm hsaved hholds userId _).mp hfill
  have hsame := hone userId g' g hforemost hlatest r hr
  rw [hlast] at hsame
  exact Option.some.inj hsame

theorem savedLast_split {events : List GameFinishedDto} {event : GameFinishedDto} {g : SavedGame}
    {saved : List SavedGame} (h : savedGame event = some g)
    (hsaved : (events ++ [event]).map savedGame = saved.map some) :
    ∃ rest, saved = rest ++ [g] := by
  rw [List.map_append, List.map_singleton, h] at hsaved
  obtain ⟨rest, last, rfl, -, hlast⟩ := List.append_eq_map_iff.mp hsaved
  obtain ⟨x, rfl, hx⟩ := List.map_eq_singleton_iff.mp hlast
  exact ⟨rest, by rw [Option.some.inj hx]⟩

theorem nicknames_same {events order order' : List GameFinishedDto} {t t' : HistoryTables}
    (hids : (order.map fun event => Postgres.uuid event.gameId.text).Nodup)
    (hids' : (order'.map fun event => Postgres.uuid event.gameId.text).Nodup)
    (hperm : order.Perm events) (hperm' : order'.Perm events) (hone : OneNickname events)
    (h : saveAll order = some t) (h' : saveAll order' = some t') (userId : Uuid) :
    (t.userStats.get? userId).map UserStats.nickname =
      (t'.userStats.get? userId).map UserStats.nickname := by
  obtain ⟨saved, hholds, hsaved⟩ := saveAll_in_order hids h
  obtain ⟨saved', hholds', hsaved'⟩ := saveAll_in_order hids' h'
  have hmem : ∀ r, r ∈ t.historyOf userId ↔ r ∈ t'.historyOf userId := by
    intro r
    rw [mem_historyOf_iff hperm hsaved hholds, mem_historyOf_iff hperm' hsaved' hholds']
  have hstats := hholds.stats userId
  have hstats' := hholds'.stats userId
  by_cases hempty : t.historyOf userId = []
  · have hempty' : t'.historyOf userId = [] := by
      rw [List.eq_nil_iff_forall_not_mem] at hempty ⊢
      intro r hr
      exact hempty r ((hmem r).mpr hr)
    rw [hstats, hstats', hempty, hempty']
  · have hempty' : t'.historyOf userId ≠ [] := by
      obtain ⟨r, hr⟩ := List.exists_mem_of_ne_nil _ hempty
      exact List.ne_nil_of_mem ((hmem r).mp hr)
    -- both tables keep the nickname that the migration would compute
    obtain ⟨nickname, hfill⟩ := exists_mayBackfill hempty
    have hfill' : t'.MayBackfill userId nickname :=
      (mayBackfill_iff hperm' hsaved' hholds' userId nickname).mpr
        ((mayBackfill_iff hperm hsaved hholds userId nickname).mp hfill)
    obtain ⟨row, hrow⟩ := Option.ne_none_iff_exists'.mp
      (hstats ▸ mt (Accumulator.total_eq_none _).mp hempty)
    obtain ⟨row', hrow'⟩ := Option.ne_none_iff_exists'.mp
      (hstats' ▸ mt (Accumulator.total_eq_none _).mp hempty')
    rw [hrow, hrow', Option.map_some, Option.map_some,
      kept_eq_backfilled hids hperm hone h hrow hfill,
      kept_eq_backfilled hids' hperm' hone h' hrow' hfill']

/-- Where a latest game disagrees with the foremost one, saving it last leaves its nickname. -/
theorem oneNickname_of_settled {events : List GameFinishedDto}
    (hids : (events.map fun event => Postgres.uuid event.gameId.text).Nodup)
    (haccepted : ∀ order, order.Perm events → (saveAll order).isSome)
    (hsettled : NicknamesSettled events) : OneNickname events := by
  intro userId g g' hforemost hlatest r hr
  obtain ⟨⟨event, hevent, hsavedGame⟩, -⟩ := hlatest.played
  obtain ⟨before, after, rfl⟩ := List.append_of_mem hevent
  have hperm : (before ++ after ++ [event]).Perm (before ++ event :: after) := by
    rw [List.append_assoc]
    exact (List.perm_append_singleton event after).append_left before
  obtain ⟨t, ht⟩ := Option.isSome_iff_exists.mp (haccepted _ hperm)
  obtain ⟨saved, hholds, hsaved⟩ := saveAll_in_order ((hperm.map _).nodup_iff.mpr hids) ht
  obtain ⟨rest, rfl⟩ := savedLast_split hsavedGame hsaved
  have hkept := kept_of_latest_last hperm hsaved hholds hlatest
  have hfill := (mayBackfill_iff hperm hsaved hholds userId r.1.nickname).mpr
    ⟨g, hforemost, r, hr, rfl⟩
  rw [← hkept]
  cases hrow : t.userStats.get? userId with
  | none =>
    rw [hrow] at hkept
    have hnone := Option.map_eq_none_iff.mp hkept.symm
    exact absurd (List.getLast?_eq_none_iff.mp hnone) hlatest.played.2
  | some row => exact congrArg some (hsettled.backfilled _ t hperm ht userId row _ hrow hfill)

theorem nicknames_settled_iff (events : List GameFinishedDto)
    (hids : (events.map fun event => Postgres.uuid event.gameId.text).Nodup)
    (haccepted : ∀ order, order.Perm events → (saveAll order).isSome) :
    NicknamesSettled events ↔ OneNickname events := by
  have hnodup : ∀ {order : List GameFinishedDto}, order.Perm events →
      (order.map fun event => Postgres.uuid event.gameId.text).Nodup :=
    fun hperm => (hperm.map _).nodup_iff.mpr hids
  constructor
  · exact oneNickname_of_settled hids haccepted
  · intro hone
    constructor
    · intro order order' t t' hperm hperm' h h' userId
      exact nicknames_same (hnodup hperm) (hnodup hperm') hperm hperm' hone h h' userId
    · intro order t hperm h userId row nickname hrow hfill
      exact kept_eq_backfilled (hnodup hperm) hperm hone h hrow hfill

end

theorem nicknames_settled_iff_sample :
    @NicknamesSettled samplePostgres [laterEvent, earlierEvent] ↔
      @OneNickname samplePostgres [laterEvent, earlierEvent] := by
  apply @nicknames_settled_iff samplePostgres
  · decide +kernel
  · intro order hperm
    rcases List.perm_pair.mp hperm with rfl | rfl <;> decide +kernel

/-! ### Two games that finish together -/

def tiedEvent (gameId : UuidText) (nickname : JsString) : GameFinishedDto :=
  { earlierEvent with
    gameId := gameId
    players := earlierEvent.players.map fun player => { player with nickname := nickname }
    players_min := fun h => earlierEvent.players_min (List.map_eq_nil_iff.mp h) }

def tiedGames : List GameFinishedDto :=
  [tiedEvent earlierEvent.gameId (utf16 "a"), tiedEvent laterEvent.gameId (utf16 "b")]

theorem order_decides_nickname : ∃ t t',
    @saveAll samplePostgres tiedGames = some t ∧
    @saveAll samplePostgres tiedGames.reverse = some t' ∧
    t.userStats.rows.map UserStats.nickname = [utf16 "b"] ∧
    t'.userStats.rows.map UserStats.nickname = [utf16 "a"] ∧
    (t'.backfill ⟨0x4000800000000000000a⟩).map UserStats.nickname = some (utf16 "b") ∧
    ¬ @NicknamesSettled samplePostgres tiedGames := by
  have hget := (Option.some_get (x := @saveAll samplePostgres tiedGames) (by decide +kernel)).symm
  have hget' := (Option.some_get (x := @saveAll samplePostgres tiedGames.reverse)
    (by decide +kernel)).symm
  refine ⟨_, _, hget, hget', by decide +kernel, by decide +kernel, by decide +kernel, ?_⟩
  intro h
  have hsame := @NicknamesSettled.same samplePostgres _ h _ _ _ _ (List.Perm.refl _)
    (List.reverse_perm _) hget hget' ⟨0x4000800000000000000a⟩
  revert hsame
  decide +kernel

end GachaMind.User
