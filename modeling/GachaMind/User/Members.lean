import GachaMind.User.Aggregation
import GachaMind.User.Intake

/-!
# Games of a member

How many distinct games list a member, and how many of them the member won, against the totals
of `user_stats`. The upsert counts entries, so the two agree where an event lists a member once.
-/

namespace GachaMind.User
open GachaMind.Js GachaMind.Shared KeyedTable

/-! ### What the events say -/

/-- The distinct games with an entry that is picked. -/
def gamesWith (pick : GameResultPlayerDto → Bool) (events : List GameFinishedDto) :
    Finset JsString :=
  ((events.filter fun event => event.players.any pick).map fun event => event.gameId.text).toFinset

theorem mem_gamesWith {pick : GameResultPlayerDto → Bool} {events : List GameFinishedDto}
    {text : JsString} : text ∈ gamesWith pick events ↔
      ∃ event ∈ events, event.players.any pick = true ∧ event.gameId.text = text := by
  simp only [gamesWith, List.mem_toFinset, List.mem_map, List.mem_filter, and_assoc]

theorem gamesWith_snoc {pick : GameResultPlayerDto → Bool} {events : List GameFinishedDto}
    {dto : GameFinishedDto} (h : ∀ d ∈ events, d.gameId.text ≠ dto.gameId.text) :
    (gamesWith pick (events ++ [dto])).card =
      (gamesWith pick events).card + if dto.players.any pick then 1 else 0 := by
  have hnew : dto.gameId.text ∉ gamesWith pick events := by
    intro hmem
    obtain ⟨d, hd, -, hsame⟩ := mem_gamesWith.mp hmem
    exact h d hd hsame
  split_ifs with hpick
  · have hinsert : gamesWith pick (events ++ [dto]) =
        insert dto.gameId.text (gamesWith pick events) := by
      ext text
      simp only [mem_gamesWith, Finset.mem_insert, List.mem_append, List.mem_singleton]
      constructor
      · rintro ⟨d, hd | rfl, hp, rfl⟩
        · exact .inr ⟨d, hd, hp, rfl⟩
        · exact .inl rfl
      · rintro (rfl | ⟨d, hd, hp, rfl⟩)
        · exact ⟨dto, .inr rfl, hpick, rfl⟩
        · exact ⟨d, .inl hd, hp, rfl⟩
    rw [hinsert, Finset.card_insert_of_notMem hnew]
  · have hsame : gamesWith pick (events ++ [dto]) = gamesWith pick events := by
      unfold gamesWith
      simp [hpick]
    rw [hsame, Nat.add_zero]

section
variable [Postgres]

/-- The user that an entry is of, as the database reads the id. -/
def GameResultPlayerDto.member (player : GameResultPlayerDto) : Option Uuid :=
  player.userId.bind fun userId => Postgres.uuid userId.text

def listed (member : Uuid) (player : GameResultPlayerDto) : Bool :=
  decide (player.member = some member)

def won (member : Uuid) (player : GameResultPlayerDto) : Bool :=
  decide (player.member = some member ∧ player.rank = 1)

theorem gamesWith_won_subset (member : Uuid) (events : List GameFinishedDto) :
    gamesWith (won member) events ⊆ gamesWith (listed member) events := by
  intro text ht
  obtain ⟨event, he, hwon, hid⟩ := mem_gamesWith.mp ht
  obtain ⟨player, hp, hwon⟩ := List.any_eq_true.mp hwon
  have hlisted : listed member player = true := decide_eq_true (of_decide_eq_true hwon).1
  exact mem_gamesWith.mpr ⟨event, he, List.any_eq_true.mpr ⟨player, hp, hlisted⟩, hid⟩

theorem saveAll_snoc {events : List GameFinishedDto} {dto : GameFinishedDto}
    {t t' : HistoryTables} {isNew : Bool} (h : saveAll events = some t)
    (hsave : saveGameResult t dto = some (t', isNew)) : saveAll (events ++ [dto]) = some t' := by
  unfold saveAll at h ⊢
  rw [List.foldlM_append, h]
  simp [hsave]

/-- The user that the database reads in a `userId` that the pipe lets pass. -/
def userOf (userId : Option JsString) : Option Uuid :=
  (userId.bind readUuid).bind fun text => Postgres.uuid text.text

theorem validatePlayer_member {player : GameResultPlayer} {dto : GameResultPlayerDto}
    (h : validatePlayer player = some dto) : dto.member = userOf player.userId := by
  simp only [validatePlayer, Option.bind_eq_bind, Option.bind_eq_some_iff] at h
  obtain ⟨userId, hu, h⟩ := h
  split_ifs at h with hrank
  obtain rfl := Option.some.inj h
  unfold GameResultPlayerDto.member userOf
  cases hp : player.userId with
  | none =>
    rw [hp] at hu
    obtain rfl := Option.some.inj hu
    rfl
  | some text =>
    rw [hp] at hu
    obtain ⟨text', htext, rfl⟩ := Option.map_eq_some_iff.mp hu
    rw [Option.bind_some, Option.bind_some, htext, Option.bind_some]

/-- No user has two entries. -/
def GameFinishedDto.MembersOnce (event : GameFinishedDto) : Prop :=
  ∀ member, event.players.countP (listed member) ≤ 1

/-- An id is that of one event only. -/
def IdsApart (events : List GameFinishedDto) : Prop :=
  ∀ e ∈ events, ∀ e' ∈ events,
    Postgres.uuid e.gameId.text = Postgres.uuid e'.gameId.text → e = e'

end

/-! ### What the tables say -/

def HistoryTables.gamesPlayed (t : HistoryTables) (member : Uuid) : ℤ :=
  ((t.userStats.get? member).map UserStats.gamesPlayed).getD 0

def HistoryTables.wins (t : HistoryTables) (member : Uuid) : ℤ :=
  ((t.userStats.get? member).map UserStats.wins).getD 0

/-! ### Counting entries -/

theorem exists_of_mapM {α β : Type} {f : α → Option β} {xs : List α} : ∀ {ys : List β},
    xs.mapM f = some ys → ∀ {y : β}, y ∈ ys → ∃ x ∈ xs, f x = some y := by
  induction xs with
  | nil =>
    intro ys h y hy
    obtain rfl := Option.some.inj h
    cases hy
  | cons x xs ih =>
    intro ys h y hy
    simp only [List.mapM_cons, Option.bind_eq_bind, Option.bind_eq_some_iff, Option.pure_def,
      Option.some.injEq] at h
    obtain ⟨z, hz, zs, hzs, rfl⟩ := h
    rcases List.mem_cons.mp hy with rfl | hy
    · exact ⟨x, List.mem_cons_self, hz⟩
    · obtain ⟨w, hw, hwy⟩ := ih hzs hy
      exact ⟨w, List.mem_cons_of_mem _ hw, hwy⟩

theorem countP_mapM {α β : Type} {f : α → Option β} {p : α → Bool} {q : β → Bool}
    (hf : ∀ x y, f x = some y → q y = p x) {xs : List α} : ∀ {ys : List β},
      xs.mapM f = some ys → ys.countP q = xs.countP p := by
  induction xs with
  | nil =>
    intro ys h
    obtain rfl := Option.some.inj h
    rfl
  | cons x xs ih =>
    intro ys h
    simp only [List.mapM_cons, Option.bind_eq_bind, Option.bind_eq_some_iff, Option.pure_def,
      Option.some.injEq] at h
    obtain ⟨y, hy, ys', hys, rfl⟩ := h
    rw [List.countP_cons, List.countP_cons, ih hys, hf x y hy]

theorem countP_flatMap_once {α β : Type} {f : α → List β} {q : β → Bool} {xs : List α}
    (h : ∀ x ∈ xs, (f x).countP q ≤ 1) :
    (xs.flatMap f).countP q = (xs.filter fun x => (f x).any q).length := by
  induction xs with
  | nil => rfl
  | cons x xs ih =>
    have hx := h x List.mem_cons_self
    rw [List.flatMap_cons, List.countP_append, ih fun y hy => h y (List.mem_cons_of_mem x hy),
      List.filter_cons]
    by_cases hany : (f x).any q = true
    · have hpos : 0 < (f x).countP q := List.countP_pos_iff.mpr (List.any_eq_true.mp hany)
      rw [if_pos hany, List.length_cons]
      omega
    · have hzero : (f x).countP q = 0 := by
        rw [List.countP_eq_zero]
        exact fun y hy hq => hany (List.any_eq_true.mpr ⟨y, hy, hq⟩)
      rw [if_neg hany, hzero, Nat.zero_add]

theorem joined_rows {t : HistoryTables} (ho : ∀ p ∈ t.gamePlayers, p.gameId ∈ t.games.keys) :
    t.joined.map Prod.fst = t.gamePlayers := by
  have hsome : ∀ p ∈ t.gamePlayers,
      ((t.games.get? p.gameId).map fun g => (p, g)).map Prod.fst = some p := by
    intro p hp
    obtain ⟨g, hg⟩ := exists_get? (ho p hp)
    rw [hg]
    rfl
  rw [HistoryTables.joined, List.map_filterMap, List.filterMap_congr hsome, List.filterMap_some]

theorem historyOf_countP {t : HistoryTables} (ho : ∀ p ∈ t.gamePlayers, p.gameId ∈ t.games.keys)
    (member : Uuid) (q : GamePlayer → Bool) :
    (t.historyOf member).countP (fun r => q r.1) =
      t.gamePlayers.countP fun p => decide (p.userId = some member) && q p := by
  rw [HistoryTables.historyOf, List.countP_filter, ← joined_rows ho, List.countP_map]
  refine List.countP_congr fun r _ => ?_
  simp [and_comm]

theorem numberTotals_counts (rows : List (GamePlayer × Game)) :
    ((numberTotals.total rows).map Numbers.gamesPlayed).getD 0 = rows.length ∧
      ((numberTotals.total rows).map Numbers.wins).getD 0 =
        rows.countP fun r => decide (r.1.rank = 1) := by
  cases rows with
  | nil => exact ⟨rfl, rfl⟩
  | cons r rows =>
    have htotal : numberTotals.total (r :: rows) =
        rows.foldl numberTotals.extend (some (numberTotals.start r)) := rfl
    rw [htotal, foldl_numberTotals]
    simp only [numberTotals, Option.map_some, Option.getD_some, List.length_cons,
      List.countP_cons, decide_eq_true_eq]
    refine ⟨by omega, ?_⟩
    split_ifs <;> omega

namespace HistoryTables.Holds
variable {t : HistoryTables} {saved : List SavedGame}

theorem totals (h : t.Holds saved) (member : Uuid) :
    t.gamesPlayed member = t.gamePlayers.countP (fun p => decide (p.userId = some member)) ∧
      t.wins member =
        t.gamePlayers.countP fun p => decide (p.userId = some member) && decide (p.rank = 1) := by
  have hlength := historyOf_countP h.owned member fun _ => true
  have hwins := historyOf_countP h.owned member fun p => decide (p.rank = 1)
  simp only [List.countP_true, Bool.and_true] at hlength
  have hnumbers : (t.userStats.get? member).map UserStats.numbers =
      numberTotals.total (t.historyOf member) := by
    rw [h.stats, statsTotals_numbers]
  have hcounts := numberTotals_counts (t.historyOf member)
  rw [← hnumbers, Option.map_map, Option.map_map] at hcounts
  rw [← hlength, ← hwins]
  exact hcounts

end HistoryTables.Holds

section
variable [Postgres]

theorem savedGame_rows {event : GameFinishedDto} {s : SavedGame}
    (h : savedGame event = some s) : event.players.mapM (playerRow event) = some s.players := by
  simp only [savedGame, Option.bind_eq_bind, Option.bind_eq_some_iff, Option.pure_def,
    Option.some.injEq] at h
  obtain ⟨_, -, rows, hrows, rfl⟩ := h
  exact hrows

theorem playerRow_member {event : GameFinishedDto} {player : GameResultPlayerDto}
    {row : GamePlayer} (h : playerRow event player = some row) : player.member = row.userId := by
  obtain ⟨-, huser, -⟩ := playerRow_spec h
  unfold userIdParameter at huser
  unfold GameResultPlayerDto.member
  cases hu : player.userId with
  | none =>
    rw [hu] at huser
    exact Option.some.inj huser
  | some userId =>
    rw [hu] at huser
    obtain ⟨member, hm, he⟩ := Option.map_eq_some_iff.mp huser
    rw [← he]
    exact hm

theorem rows_count_games {events : List GameFinishedDto} {t : HistoryTables}
    {saved : List SavedGame} (h : t.Holds saved)
    (hfrom : ∀ g ∈ saved, ∃ event ∈ events, savedGame event = some g)
    (hall : ∀ event ∈ events, ∃ g ∈ saved, Postgres.uuid event.gameId.text = some g.game.id)
    (hids : IdsApart events) {pick : GameResultPlayerDto → Bool} {q : GamePlayer → Bool}
    (hq : ∀ event player row, playerRow event player = some row → q row = pick player)
    (honce : ∀ event ∈ events, event.players.countP pick ≤ 1) :
    t.gamePlayers.countP q = (gamesWith pick events).card := by
  have hcount : ∀ event s, savedGame event = some s →
      s.players.countP q = event.players.countP pick :=
    fun event s hs => countP_mapM (hq event) (savedGame_rows hs)
  have hany : ∀ event s, savedGame event = some s →
      s.players.any q = event.players.any pick := by
    intro event s hs
    rw [Bool.eq_iff_iff, List.any_eq_true, List.any_eq_true, ← List.countP_pos_iff,
      ← List.countP_pos_iff, hcount event s hs]
  rw [h.players, countP_flatMap_once fun s hs => ?_]
  swap
  · obtain ⟨event, he, hes⟩ := hfrom s hs
    rw [hcount event s hes]
    exact honce event he
  -- the ids of the picked games are the ids in the events, each read once
  have hnodup : ((saved.filter fun s => s.players.any q).map fun s => s.game.id).Nodup :=
    h.ids_nodup.sublist (List.filter_sublist.map _)
  have himage : (gamesWith pick events).image Postgres.uuid =
      ((saved.filter fun s => s.players.any q).map fun s => s.game.id).toFinset.image some := by
    ext id
    simp only [Finset.mem_image, mem_gamesWith, List.mem_toFinset, List.mem_map, List.mem_filter]
    constructor
    · rintro ⟨_, ⟨event, he, hpick, rfl⟩, rfl⟩
      obtain ⟨s, hs, hid⟩ := hall event he
      obtain ⟨event', he', hes⟩ := hfrom s hs
      obtain rfl := hids event he event' he' (hid.trans (savedGame_uuid hes).symm)
      exact ⟨_, ⟨s, ⟨hs, by rw [hany event s hes, hpick]⟩, rfl⟩, hid.symm⟩
    · rintro ⟨_, ⟨s, ⟨hs, hpick⟩, rfl⟩, rfl⟩
      obtain ⟨event, he, hes⟩ := hfrom s hs
      exact ⟨_, ⟨event, he, by rw [← hany event s hes, hpick], rfl⟩, savedGame_uuid hes⟩
  have hinj : Set.InjOn Postgres.uuid (gamesWith pick events : Set JsString) := by
    intro text ht text' ht' hid
    obtain ⟨event, he, -, rfl⟩ := mem_gamesWith.mp ht
    obtain ⟨event', he', -, rfl⟩ := mem_gamesWith.mp ht'
    rw [hids event he event' he' hid]
  rw [← Finset.card_image_of_injOn hinj, himage,
    Finset.card_image_of_injective _ (Option.some_injective _), List.toFinset_card_of_nodup hnodup,
    List.length_map]

/-- Where no event lists a user twice, the totals of a member count its distinct games. -/
theorem members_counted {events : List GameFinishedDto} {t : HistoryTables}
    (h : saveAll events = some t) (hids : IdsApart events)
    (honce : ∀ event ∈ events, event.MembersOnce) (member : Uuid) :
    t.gamesPlayed member = (gamesWith (listed member) events).card ∧
      t.wins member = (gamesWith (won member) events).card := by
  obtain ⟨saved, hholds, hfrom, hall⟩ := saveAll_holds h
  obtain ⟨hplayed, hwins⟩ := hholds.totals member
  rw [hplayed, hwins]
  have hlisted : ∀ event player row, playerRow event player = some row →
      decide (row.userId = some member) = listed member player := by
    intro event player row hrow
    rw [listed, playerRow_member hrow]
  have hwon : ∀ event player row, playerRow event player = some row →
      (decide (row.userId = some member) && decide (row.rank = 1)) = won member player := by
    intro event player row hrow
    rw [won, playerRow_member hrow, (playerRow_spec hrow).2.2.2.2, ← Bool.decide_and]
    simp only [Nat.cast_eq_one]
  refine ⟨congrArg _ (rows_count_games hholds hfrom hall hids hlisted ?_),
    congrArg _ (rows_count_games hholds hfrom hall hids hwon ?_)⟩
  · exact fun event he => honce event he member
  · intro event he
    refine le_trans (List.countP_mono_left fun player _ hp => ?_) (honce event he member)
    exact decide_eq_true (of_decide_eq_true hp).1

end

end GachaMind.User
