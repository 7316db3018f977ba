import GachaMind.Lib.Binary64
import GachaMind.Lib.Ranking
import GachaMind.User.History

/-!
# The leaderboard (apps/user/src/history/leaderboard.service.ts)

`top` ranks the rows of `user_stats` that have an account, `rankOf` counts the rows of
`user_stats` that are above one of them. No foreign key ties `user_stats` to `users`: a row
without an account is in the second count and not in the first.
-/

namespace GachaMind.User
open GachaMind.Js GachaMind.Shared KeyedTable Ranking

/-! ### The tables and the queries -/

structure UserRow where
  id : Uuid
  username : JsString
  deriving DecidableEq

/-- `users` and `user_stats`, with the constraints of the schema. -/
structure MemberTables where
  users : Table UserRow.id
  usernames_nodup : (users.rows.map UserRow.username).Nodup
  userStats : Table UserStats.userId

def LEADERBOARD_LIMIT : ℤ := 100

inductive LeaderboardSort where
  | totalScore
  | wins
  | bestScore
  deriving DecidableEq

def SORT_COLUMN : LeaderboardSort → UserStats → ℤ
  | .totalScore => UserStats.totalScore
  | .wins => UserStats.wins
  | .bestScore => UserStats.bestScore

structure LeaderboardEntry where
  rank : ℤ
  username : JsString
  nickname : JsString
  gamesPlayed : ℤ
  wins : ℤ
  totalScore : ℚ
  bestScore : ℤ
  deriving DecidableEq

/-- `Number` of the text of a `bigint`. -/
def numberOf (n : ℤ) : ℚ := if 0 ≤ n then Binary64.fl n else -Binary64.fl (-n)

def toEntry (rank : ℤ) (row : UserStats × UserRow) : LeaderboardEntry where
  rank := rank
  username := row.2.username
  nickname := row.1.nickname
  gamesPlayed := row.1.gamesPlayed
  wins := row.1.wins
  totalScore := numberOf row.1.totalScore
  bestScore := row.1.bestScore

namespace MemberTables

/-- `user_stats s JOIN users u ON u.id = s.user_id`. -/
def joined (t : MemberTables) : List (UserStats × UserRow) :=
  t.userStats.rows.filterMap fun s => (t.users.get? s.userId).map fun u => (s, u)

/-- The order `s.column DESC, s.user_id`. -/
def Leads (sort : LeaderboardSort) (a b : UserStats × UserRow) : Prop :=
  SORT_COLUMN sort b.1 < SORT_COLUMN sort a.1 ∨
    SORT_COLUMN sort b.1 = SORT_COLUMN sort a.1 ∧
      a.1.userId.bits.toNat ≤ b.1.userId.bits.toNat

instance (sort : LeaderboardSort) : DecidableRel (Leads sort) := fun a b =>
  inferInstanceAs (Decidable (SORT_COLUMN sort b.1 < SORT_COLUMN sort a.1 ∨ _))

/-- `Math.min(Math.max(limit, 1), LEADERBOARD_LIMIT)`. -/
def pageSize (limit : Option ℤ) : ℕ :=
  (min (max (limit.getD LEADERBOARD_LIMIT) 1) LEADERBOARD_LIMIT).toNat

def column (sort : LeaderboardSort) (row : UserStats × UserRow) : ℤ := SORT_COLUMN sort row.1

def page (t : MemberTables) (sort : LeaderboardSort) (limit : Option ℤ) :
    List (UserStats × UserRow) :=
  (t.joined.insertionSort (Leads sort)).take (pageSize limit)

/-- `none` where Postgres refuses the query. -/
def top (t : MemberTables) (sort : LeaderboardSort) (limit : Option ℤ) :
    Option (List LeaderboardEntry) :=
  (t.page sort limit).mapM fun row =>
    (int4 (rank (column sort) t.joined (column sort row))).map fun rank => toEntry rank row

inductive RankOf where
  | undefined
  | null
  | entry (e : LeaderboardEntry)
  deriving DecidableEq

def findByUsername (t : MemberTables) (username : JsString) : Option UserRow :=
  t.users.rows.find? fun u => u.username = username

/-- The username is the value that the database compares with. `none` where Postgres refuses
the query. -/
def rankOf (t : MemberTables) (username : JsString) (sort : LeaderboardSort) : Option RankOf :=
  match t.findByUsername username with
  | none => some .undefined
  | some u =>
    match t.userStats.get? u.id with
    | none => some .null
    | some s => do
      let above ← int4 (t.userStats.rows.countP fun o => SORT_COLUMN sort s < SORT_COLUMN sort o)
      let rank ← int4 (above + 1)
      return .entry (toEntry rank (s, u))

/-! ### Rows without an account -/

def accountless (t : MemberTables) : List UserStats :=
  t.userStats.rows.filter fun s => s.userId ∉ t.users.keys

theorem mem_joined {t : MemberTables} {row : UserStats × UserRow} :
    row ∈ t.joined ↔ row.1 ∈ t.userStats.rows ∧ t.users.get? row.1.userId = some row.2 := by
  obtain ⟨s, u⟩ := row
  simp only [joined, List.mem_filterMap, Option.map_eq_some_iff, Prod.mk.injEq]
  constructor
  · rintro ⟨s', hs, u', hu, rfl, rfl⟩
    exact ⟨hs, hu⟩
  · rintro ⟨hs, hu⟩
    exact ⟨s, hs, u, hu, rfl, rfl⟩

/-- A count over `user_stats` is the count over the join and over the rows without an account. -/
theorem countP_userStats (t : MemberTables) (p : UserStats → Bool) :
    t.userStats.rows.countP p = t.joined.countP (fun row => p row.1) + t.accountless.countP p := by
  unfold joined accountless
  induction t.userStats.rows with
  | nil => rfl
  | cons s rows ih =>
    cases hu : t.users.get? s.userId with
    | none =>
      have hout : s.userId ∉ t.users.keys := get?_eq_none.mp hu
      rw [List.filterMap_cons_none (by rw [hu]; rfl), List.filter_cons_of_pos (by simpa using hout),
        List.countP_cons, List.countP_cons, ih]
      exact Nat.add_assoc ..
    | some u =>
      have hin : s.userId ∈ t.users.keys := mem_keys_of_get? hu
      rw [List.filterMap_cons_some (b := (s, u)) (by rw [hu]; rfl),
        List.filter_cons_of_neg (by simpa using hin), List.countP_cons, List.countP_cons, ih]
      exact Nat.add_right_comm ..

theorem findByUsername_eq {t : MemberTables} {u : UserRow} (h : u ∈ t.users.rows) :
    t.findByUsername u.username = some u := by
  cases hf : t.findByUsername u.username with
  | none => simpa using List.find?_eq_none.mp hf u h
  | some v =>
    have hv : v.username = u.username := by simpa using List.find?_some hf
    rw [List.inj_on_of_nodup_map t.usernames_nodup (List.mem_of_find?_eq_some hf) h hv]

theorem mem_page {t : MemberTables} {sort : LeaderboardSort} {limit : Option ℤ}
    {row : UserStats × UserRow} (h : row ∈ t.page sort limit) : row ∈ t.joined :=
  (List.mem_insertionSort _).mp (List.mem_of_mem_take h)

theorem rank_joined {t : MemberTables} {sort : LeaderboardSort} {row : UserStats × UserRow}
    (h : row ∈ t.joined) : rank (column sort) t.joined (column sort row) =
      t.joined.countP (fun r => decide (column sort row < column sort r)) + 1 :=
  rank_eq_countP ⟨row, h, rfl⟩

theorem ordered_descending (t : MemberTables) (sort : LeaderboardSort) :
    Descending (column sort) (t.joined.insertionSort (Leads sort)) := by
  have htotal : Std.Total (Leads sort) := ⟨fun a b => by unfold Leads; omega⟩
  have htrans : IsTrans _ (Leads sort) := ⟨fun a b c => by unfold Leads; omega⟩
  refine (List.pairwise_insertionSort (Leads sort) t.joined).imp fun {a b} h => ?_
  rcases h with h | ⟨h, -⟩
  · exact h.le
  · exact h.le

theorem above_lt_pageSize {t : MemberTables} {sort : LeaderboardSort} {limit : Option ℤ}
    {row : UserStats × UserRow} (h : row ∈ t.page sort limit) :
    t.joined.countP (fun r => decide (column sort row < column sort r)) < pageSize limit := by
  rw [← (List.perm_insertionSort (Leads sort) t.joined).countP_eq]
  exact countP_above_lt (t.ordered_descending sort) h

theorem pageSize_le (limit : Option ℤ) : pageSize limit ≤ 100 := by
  unfold pageSize LEADERBOARD_LIMIT
  omega

theorem int4_natCast {n : ℕ} (h : n < 2 ^ 31) : int4 n = some (n : ℤ) := by
  unfold int4
  rw [if_pos ⟨by omega, by omega⟩]

theorem int4_eq_some {n m : ℤ} (h : int4 n = some m) : m = n := by
  unfold int4 at h
  split_ifs at h with hn
  exact (Option.some.inj h).symm

def listedEntry (t : MemberTables) (sort : LeaderboardSort) (row : UserStats × UserRow) :
    LeaderboardEntry :=
  toEntry (t.joined.countP (fun r => decide (column sort row < column sort r)) + 1 : ℕ) row

theorem mapM_eq_map {α β : Type} {f : α → Option β} {g : α → β} {xs : List α}
    (h : ∀ x ∈ xs, f x = some (g x)) : xs.mapM f = some (xs.map g) := by
  induction xs with
  | nil => rfl
  | cons x xs ih =>
    rw [List.mapM_cons, h x (List.mem_cons_self ..),
      ih fun y hy => h y (List.mem_cons_of_mem _ hy)]
    rfl

theorem top_eq (t : MemberTables) (sort : LeaderboardSort) (limit : Option ℤ) :
    t.top sort limit = some ((t.page sort limit).map (t.listedEntry sort)) := by
  have hrows : ∀ row ∈ t.page sort limit,
      (int4 (rank (column sort) t.joined (column sort row))).map (fun rank => toEntry rank row) =
        some (t.listedEntry sort row) := by
    intro row hrow
    have hlt := above_lt_pageSize hrow
    have hle := pageSize_le limit
    rw [rank_joined (mem_page hrow), int4_natCast (by omega)]
    rfl
  exact mapM_eq_map hrows

theorem rankOf_joined {t : MemberTables} {sort : LeaderboardSort} {row : UserStats × UserRow}
    (h : row ∈ t.joined) : t.rankOf row.2.username sort =
      (int4 (t.userStats.rows.countP fun o =>
        SORT_COLUMN sort row.1 < SORT_COLUMN sort o)).bind fun above =>
        (int4 (above + 1)).map fun rank => .entry (toEntry rank row) := by
  obtain ⟨s, u⟩ := row
  obtain ⟨hs, hu⟩ := mem_joined.mp h
  obtain ⟨hmem, hid⟩ := get?_eq_some.mp hu
  have hstats : t.userStats.get? u.id = some s := by
    rw [hid]
    exact get?_of_mem hs
  unfold rankOf
  rw [findByUsername_eq hmem]
  simp only [hstats, Option.map_eq_bind, Option.bind_eq_bind, Option.pure_def,
    Function.comp_def]

/-! ### The page and a member's own rank -/

def statsOf (t : MemberTables) (username : JsString) : Option UserStats :=
  (t.findByUsername username).bind fun u => t.userStats.get? u.id

def Tied (t : MemberTables) (sort : LeaderboardSort) (a b : JsString) : Prop :=
  ∃ s s', t.statsOf a = some s ∧ t.statsOf b = some s' ∧ SORT_COLUMN sort s = SORT_COLUMN sort s'

/-- Every entry of the page has the rank that `rankOf` answers for its member, and ties share a
rank on the page as they do in `rankOf`. -/
def Consistent (t : MemberTables) (sort : LeaderboardSort) (limit : Option ℤ) : Prop :=
  (∃ entries, t.top sort limit = some entries ∧
    (∀ e ∈ entries, ∃ own, t.rankOf e.username sort = some (.entry own) ∧ own.rank = e.rank) ∧
    ∀ e ∈ entries, ∀ e' ∈ entries, t.Tied sort e.username e'.username → e.rank = e'.rank) ∧
  ∀ a b own own', t.Tied sort a b → t.rankOf a sort = some (.entry own) →
    t.rankOf b sort = some (.entry own') → own.rank = own'.rank

/-- At or above each row without an account stand all members with a row, or as many of them as
the page shows. -/
def NoneAbove (t : MemberTables) (sort : LeaderboardSort) (limit : Option ℤ) : Prop :=
  ∀ o ∈ t.accountless, min (pageSize limit) t.joined.length ≤
    t.joined.countP fun row => SORT_COLUMN sort o ≤ column sort row

instance (t : MemberTables) (sort : LeaderboardSort) (limit : Option ℤ) :
    Decidable (t.NoneAbove sort limit) :=
  inferInstanceAs (Decidable (∀ _ ∈ _, _))

theorem noneAbove_iff {t : MemberTables} {sort : LeaderboardSort} {limit : Option ℤ} :
    t.NoneAbove sort limit ↔
      ∀ row ∈ t.page sort limit, ∀ o ∈ t.accountless, SORT_COLUMN sort o ≤ column sort row := by
  have hperm := List.perm_insertionSort (Leads sort) t.joined
  have hone : ∀ o, (∀ row ∈ t.page sort limit, SORT_COLUMN sort o ≤ column sort row) ↔
      min (pageSize limit) t.joined.length ≤
        t.joined.countP fun row => SORT_COLUMN sort o ≤ column sort row := by
    intro o
    rw [← hperm.length_eq, ← hperm.countP_eq]
    exact forall_take_iff (t.ordered_descending sort)
  constructor
  · intro h row hrow o ho
    exact (hone o).mpr (h o ho) row hrow
  · intro h o ho
    exact (hone o).mp fun row hrow => h row hrow o ho

theorem rankOf_rank {t : MemberTables} {username : JsString} {sort : LeaderboardSort}
    {own : LeaderboardEntry} (h : t.rankOf username sort = some (.entry own)) :
    ∃ s, t.statsOf username = some s ∧ own.rank =
      t.userStats.rows.countP (fun o => SORT_COLUMN sort s < SORT_COLUMN sort o) + 1 := by
  unfold rankOf at h
  unfold statsOf
  cases hu : t.findByUsername username with
  | none =>
    rw [hu] at h
    cases h
  | some u =>
    simp only [hu] at h
    cases hs : t.userStats.get? u.id with
    | none =>
      rw [hs] at h
      cases h
    | some s =>
      simp only [hs] at h
      obtain ⟨above, habove, h⟩ := Option.bind_eq_some_iff.mp h
      obtain ⟨rank, hrank, h⟩ := Option.bind_eq_some_iff.mp h
      obtain rfl := RankOf.entry.inj (Option.some.inj h)
      refine ⟨s, hs, ?_⟩
      rw [← int4_eq_some habove, ← int4_eq_some hrank]
      rfl

theorem rankOf_tied {t : MemberTables} {a b : JsString} {sort : LeaderboardSort}
    {own own' : LeaderboardEntry} (htied : t.Tied sort a b)
    (ha : t.rankOf a sort = some (.entry own)) (hb : t.rankOf b sort = some (.entry own')) :
    own.rank = own'.rank := by
  obtain ⟨s, s', hs, hs', hsame⟩ := htied
  obtain ⟨r, hr, ha⟩ := rankOf_rank ha
  obtain ⟨r', hr', hb⟩ := rankOf_rank hb
  obtain rfl := Option.some.inj (hs.symm.trans hr)
  obtain rfl := Option.some.inj (hs'.symm.trans hr')
  rw [ha, hb, hsame]

theorem statsOf_joined {t : MemberTables} {row : UserStats × UserRow} (h : row ∈ t.joined) :
    t.statsOf row.2.username = some row.1 := by
  obtain ⟨hs, hu⟩ := mem_joined.mp h
  obtain ⟨hmem, hid⟩ := get?_eq_some.mp hu
  rw [statsOf, findByUsername_eq hmem, Option.bind_some, hid]
  exact get?_of_mem hs

theorem listedEntry_tied {t : MemberTables} {sort : LeaderboardSort}
    {row row' : UserStats × UserRow}
    (h : row ∈ t.joined) (h' : row' ∈ t.joined)
    (htied : t.Tied sort row.2.username row'.2.username) :
    (t.listedEntry sort row).rank = (t.listedEntry sort row').rank := by
  obtain ⟨s, s', hs, hs', hsame⟩ := htied
  obtain rfl := Option.some.inj ((statsOf_joined h).symm.trans hs)
  obtain rfl := Option.some.inj ((statsOf_joined h').symm.trans hs')
  have hcolumn : column sort row = column sort row' := hsame
  simp only [listedEntry, toEntry, hcolumn]

/-- A listed member has its rank on the page in `rankOf` where no row without an account is
above it. -/
theorem rankOf_listed_iff {t : MemberTables} {sort : LeaderboardSort} {limit : Option ℤ}
    {row : UserStats × UserRow} (h : row ∈ t.page sort limit) :
    (∃ own, t.rankOf row.2.username sort = some (.entry own) ∧
      own.rank = (t.listedEntry sort row).rank) ↔
    ∀ o ∈ t.accountless, SORT_COLUMN sort o ≤ column sort row := by
  have hlt := above_lt_pageSize h
  have hle := pageSize_le limit
  have hcount : t.userStats.rows.countP (fun o => SORT_COLUMN sort row.1 < SORT_COLUMN sort o) =
      t.joined.countP (fun r => column sort row < column sort r) +
        t.accountless.countP (fun o => column sort row < SORT_COLUMN sort o) :=
    t.countP_userStats fun o => decide (column sort row < SORT_COLUMN sort o)
  have hzero : t.accountless.countP (fun o => decide (column sort row < SORT_COLUMN sort o)) = 0 ↔
      ∀ o ∈ t.accountless, SORT_COLUMN sort o ≤ column sort row := by
    simp only [List.countP_eq_zero, decide_eq_true_eq, not_lt]
  rw [← hzero]
  constructor
  · rintro ⟨own, hown, hrank⟩
    obtain ⟨s, hs, hown⟩ := rankOf_rank hown
    obtain rfl := Option.some.inj ((statsOf_joined (mem_page h)).symm.trans hs)
    rw [hown] at hrank
    have hsum : t.userStats.rows.countP (fun o => SORT_COLUMN sort row.1 < SORT_COLUMN sort o) =
        t.joined.countP fun r => decide (column sort row < column sort r) := by
      exact Nat.cast_injective (R := ℤ) (add_right_cancel hrank)
    omega
  · intro hnone
    rw [hnone, Nat.add_zero] at hcount
    refine ⟨t.listedEntry sort row, ?_, rfl⟩
    rw [rankOf_joined (mem_page h), hcount, int4_natCast (by omega), Option.bind_some,
      ← Nat.cast_succ, int4_natCast (by omega)]
    rfl

theorem leaderboard_consistent_iff (t : MemberTables) (sort : LeaderboardSort) (limit : Option ℤ) :
    t.Consistent sort limit ↔ t.NoneAbove sort limit := by
  rw [noneAbove_iff]
  constructor
  · rintro ⟨⟨entries, htop, hsame, -⟩, -⟩ row hrow
    obtain rfl := Option.some.inj ((t.top_eq sort limit).symm.trans htop)
    exact (rankOf_listed_iff hrow).mp (hsame _ (List.mem_map_of_mem hrow))
  · intro h
    refine ⟨⟨_, t.top_eq sort limit, fun e he => ?_, fun e he e' he' htied => ?_⟩, ?_⟩
    · obtain ⟨row, hrow, rfl⟩ := List.mem_map.mp he
      exact (rankOf_listed_iff hrow).mpr (h row hrow)
    · obtain ⟨row, hrow, rfl⟩ := List.mem_map.mp he
      obtain ⟨row', hrow', rfl⟩ := List.mem_map.mp he'
      exact listedEntry_tied (mem_page hrow) (mem_page hrow') htied
    · intro a b own own' htied
      exact rankOf_tied htied

/-- One member, and above it a row whose user has no account. -/
def strangerAbove : MemberTables where
  users := ⟨[⟨⟨1⟩, utf16 "mina"⟩], List.nodup_singleton _⟩
  usernames_nodup := List.nodup_singleton _
  userStats := ⟨[⟨⟨1⟩, utf16 "mina", 3, 1, 300, 120, 0⟩, ⟨⟨2⟩, utf16 "gone", 9, 5, 900, 200, 0⟩],
    by decide⟩

theorem leaderboard_ranks_differ : ¬ strangerAbove.Consistent .wins none := by
  rintro ⟨⟨entries, htop, hsame, -⟩, -⟩
  have hpage : (strangerAbove.top .wins none).map (fun entries =>
      entries.map fun e => (e.username, e.rank)) = some [(utf16 "mina", 1)] := by decide +kernel
  have hown : (strangerAbove.rankOf (utf16 "mina") .wins).map (fun answer =>
      match answer with
      | .entry own => some own.rank
      | _ => none) = some (some 2) := by decide +kernel
  rw [htop, Option.map_some] at hpage
  obtain ⟨e, he, hmina⟩ := List.mem_map.mp (by
    rw [Option.some.inj hpage]
    exact List.mem_singleton_self _ :
      (utf16 "mina", (1 : ℤ)) ∈ entries.map fun e => (e.username, e.rank))
  obtain ⟨hname, hone⟩ := Prod.mk.inj hmina
  obtain ⟨own, hrank, hsame⟩ := hsame e he
  rw [hname] at hrank
  rw [hrank] at hown
  have htwo : own.rank = 2 := Option.some.inj (Option.some.inj hown)
  omega

end MemberTables

end GachaMind.User
