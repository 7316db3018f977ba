import GachaMind.User.ListGames

/-!
# Every game of a member, page by page

Where no two rows of the member are of one game and the text of a `Date` denotes the instant of
its row, the pages list the rows once each, also while newer games are saved. Otherwise a reader
who takes one row at a time meets a cursor behind which a row is missing.
-/

namespace GachaMind.User
open GachaMind.Js GachaMind.Shared KeyedTable Ranking Keyset

/-! ### Following nextCursor -/

section
variable [Postgres] [DateFormats]

def Answers (t : HistoryTables) (userId : Uuid) (limit : Option ℤ) (cursor : Option JsString)
    (answer : ListAnswer) : Prop :=
  ∃ query, (∀ p, Selects t p (query p)) ∧ listGames query (uuidText userId) limit cursor = answer

/-- A save after the first page, which was read from `first`: what it adds to the rows of the
member is newer than what was there. -/
def SavedNewer (first : HistoryTables) (userId : Uuid) (t t' : HistoryTables) : Prop :=
  ∃ event isNew, saveGameResult t event = some (t', isNew) ∧
    ∀ row ∈ t'.historyOf userId, row ∈ t.historyOf userId ∨
      ∀ old ∈ first.historyOf userId, rowKey old < rowKey row

inductive Ending where
  | cut
  | ended
  | failed

/-- The pages that a reader gets who follows `nextCursor`, up to any point: the first page is read
from `first`, and games are saved between the requests. -/
inductive Follows (first : HistoryTables) (userId : Uuid) :
    HistoryTables → Option JsString → List PlayerGamesResponse → Ending → Prop where
  | cut (t : HistoryTables) (cursor : Option JsString) : Follows first userId t cursor [] .cut
  | failed {t : HistoryTables} {limit : Option ℤ} {cursor : Option JsString} {answer : ListAnswer}
      (hanswer : Answers t userId limit cursor answer) (hno : ∀ page, answer ≠ .page page) :
      Follows first userId t cursor [] .failed
  | ended {t : HistoryTables} {limit : Option ℤ} {cursor : Option JsString}
      {page : PlayerGamesResponse} (hanswer : Answers t userId limit cursor (.page page))
      (hnext : page.nextCursor = none) : Follows first userId t cursor [page] .ended
  | next {t t' : HistoryTables} {limit : Option ℤ} {cursor : Option JsString}
      {page : PlayerGamesResponse} {next : JsString} {pages : List PlayerGamesResponse} {e : Ending}
      (hanswer : Answers t userId limit cursor (.page page)) (hnext : page.nextCursor = some next)
      (hsaved : Relation.ReflTransGen (SavedNewer first userId) t t')
      (hrest : Follows first userId t' (some next) pages e) :
      Follows first userId t cursor (page :: pages) e

/-- A cursor that is accepted and denotes the last row of its page. -/
def Denotes (t : HistoryTables) (userId : Uuid) (page : PlayerGamesResponse) (cursor : JsString) :
    Prop :=
  ∃ record, page.games.getLast? = some record ∧
    decodeCursor cursor = some ⟨record.finishedAt, record.gameId⟩ ∧
    ∃ row ∈ t.historyOf userId, uuidText row.2.id = record.gameId ∧
      Cursor.key ⟨record.finishedAt, record.gameId⟩ = some (rowKey row)

/-- Whatever the page sizes and the saves in between, the pages end and list every row of the
member once, newest first, and every cursor denotes where its page ended. -/
structure Complete (t : HistoryTables) (userId : Uuid) : Prop where
  answered : ∀ {pages e}, Follows t userId t none pages e → e ≠ .failed
  ends : ∀ {pages e}, Follows t userId t none pages e →
    pages.length ≤ max 1 (t.historyOf userId).length
  listed : ∀ {pages}, Follows t userId t none pages .ended →
    ∃ rows, Sorts rowKey (t.historyOf userId) rows ∧
      pages.flatMap PlayerGamesResponse.games = rows.map recordOf
  denotes : ∀ {pages e}, Follows t userId t none pages e →
    ∀ page ∈ pages, ∀ cursor, page.nextCursor = some cursor → Denotes t userId page cursor

/-- No two rows of the member are of one game, all have a `Date`, and where there is an older one
the text of the `Date` denotes the instant of the row. -/
structure Pageable (t : HistoryTables) (userId : Uuid) : Prop where
  games : ((t.historyOf userId).map fun row => row.2.id).Nodup
  dates : ∀ row ∈ t.historyOf userId, timeClip row.2.finishedMs ≠ none
  exact : ∀ row ∈ t.historyOf userId, (∃ older ∈ t.historyOf userId, rowKey older < rowKey row) →
    Postgres.timestamptz (toISOString row.2.finishedMs) = some row.2.finishedAt

end

/-- For a Postgres that reads what `toISOString` writes, `Pageable.exact` asks for whole
milliseconds. -/
theorem exact_iff [Postgres] (hiso : ∀ ms, FourDigits ms →
      Postgres.timestamptz (toISOString ms) = some (1000 * ms)) {g : Game}
    (hyear : FourDigits g.finishedMs) :
    Postgres.timestamptz (toISOString g.finishedMs) = some g.finishedAt ↔ 1000 ∣ g.finishedAt := by
  rw [hiso _ hyear, Option.some.injEq, Game.finishedMs]
  omega

/-! ### Saves between the requests -/

namespace HistoryTables.Holds
variable {t t' : HistoryTables} {saved : List SavedGame} {s : SavedGame}

theorem joined (h : t.Holds saved) :
    t.joined = saved.flatMap fun s => s.players.map fun p => (p, s.game) := by
  have hget : ∀ s ∈ saved, ∀ p ∈ s.players, t.games.get? p.gameId = some s.game := by
    intro s hs p hp
    refine get?_eq_some.mpr ⟨?_, (h.ids s hs p hp).symm⟩
    rw [h.games]
    exact List.mem_map_of_mem hs
  rw [HistoryTables.joined, h.players, List.filterMap_flatMap]
  refine List.flatMap_congr fun s hs => ?_
  have hrows : ∀ p ∈ s.players, ((t.games.get? p.gameId).map fun g => (p, g)) =
      some (p, s.game) := fun p hp => by rw [hget s hs p hp]; rfl
  rw [List.filterMap_congr hrows, List.filterMap_eq_map']

theorem historyOf_snoc (h : t.Holds saved) (h' : t'.Holds (saved ++ [s])) (userId : Uuid) :
    ∃ added, t'.historyOf userId = t.historyOf userId ++ added ∧
      ∀ row ∈ added, row ∉ t.historyOf userId := by
  refine ⟨(s.players.map fun p => (p, s.game)).filter fun r => r.1.userId = some userId, ?_, ?_⟩
  · rw [historyOf, historyOf, h.joined, h'.joined, List.flatMap_append, List.filter_append,
      List.flatMap_singleton]
  · intro row hrow hold
    obtain ⟨p, -, rfl⟩ := List.mem_map.mp (List.mem_filter.mp hrow).1
    have hjoined := (List.mem_filter.mp hold).1
    rw [h.joined] at hjoined
    obtain ⟨s', hs', hrow'⟩ := List.mem_flatMap.mp hjoined
    obtain ⟨p', -, heq⟩ := List.mem_map.mp hrow'
    have hids := h'.ids_nodup
    rw [List.map_append, List.map_singleton] at hids
    refine (List.nodup_append.mp hids).2.2 _ (List.mem_map_of_mem hs') _
      (List.mem_singleton_self _) ?_
    rw [(Prod.mk.inj heq).2]

end HistoryTables.Holds

section
variable [Postgres] {t t' t'' : HistoryTables} {userId : Uuid}

/-- Tables after the first page: what they have beyond the rows it was read from is newer. -/
structure Grown (first : HistoryTables) (userId : Uuid) (t : HistoryTables) : Prop where
  holds : ∃ saved, t.Holds saved
  rows : ∃ added, t.historyOf userId = first.historyOf userId ++ added ∧
    ∀ row ∈ added, ∀ old ∈ first.historyOf userId, rowKey old < rowKey row

theorem Grown.save (h : Grown t userId t') (hs : SavedNewer t userId t' t'') :
    Grown t userId t'' := by
  obtain ⟨saved, hsaved⟩ := h.holds
  obtain ⟨event, isNew, hsave, hnewer⟩ := hs
  obtain ⟨g, -, ⟨-, rfl⟩ | ⟨rows, -, hholds⟩⟩ := saveGameResult_spec hsaved hsave
  · exact h
  · refine ⟨⟨_, hholds⟩, ?_⟩
    obtain ⟨added, hrows, hadded⟩ := h.rows
    obtain ⟨more, hmore, hfresh⟩ := hsaved.historyOf_snoc hholds userId
    refine ⟨added ++ more, by rw [hmore, hrows, List.append_assoc], fun row hrow => ?_⟩
    rcases List.mem_append.mp hrow with hrow | hrow
    · exact hadded row hrow
    · refine (hnewer row ?_).resolve_left (hfresh row hrow)
      rw [hmore]
      exact List.mem_append_right _ hrow

theorem Grown.saves (h : Grown t userId t')
    (hs : Relation.ReflTransGen (SavedNewer t userId) t' t'') : Grown t userId t'' := by
  induction hs with
  | refl => exact h
  | tail _ hs ih => exact ih.save hs

omit [Postgres] in
theorem Grown.past_eq (h : Grown t userId t') {row : GameRow} (hrow : row ∈ t.historyOf userId) :
    past rowKey (rowKey row) (t'.historyOf userId) =
      past rowKey (rowKey row) (t.historyOf userId) := by
  obtain ⟨added, hrows, hadded⟩ := h.rows
  have hnone : past rowKey (rowKey row) added = [] := past_eq_nil fun new hnew =>
    WithTop.coe_le_coe.mpr (hadded new hnew row hrow).le
  rw [hrows, past_append, hnone, List.append_nil]

end

/-! ### One request -/

section
variable [Postgres] [DateFormats] {t t' : HistoryTables} {userId : Uuid} {limit : Option ℤ}
  {cursor : Option JsString} {k : WithTop GameKey}

def Reads (cursor : Option JsString) (k : WithTop GameKey) : Prop :=
  ∃ after, readCursor cursor = some after ∧ bound after = some k

theorem reads_none : Reads none ⊤ := ⟨none, rfl, rfl⟩

omit [Postgres] in
theorem listGames_eq {query : ListParameters → Option (List GameRow)} {after : Option Cursor}
    {sorted : List GameRow} (hread : readCursor cursor = some after)
    (hquery : query ⟨uuidText userId, after, pageLimit limit + 1⟩ =
      some (sorted.take (pageLimit limit + 1))) :
    listGames query (uuidText userId) limit cursor =
      .ofPage (toPage (pageLimit limit) sorted) := by
  simp only [listGames, hread, hquery, Option.bind_some, toPage_take]

variable (huuid : ∀ u, Postgres.uuid (uuidText u) = some u)
include huuid

theorem Answers.sorted {answer : ListAnswer} (h : Answers t userId limit cursor answer)
    (hk : Reads cursor k) : ∃ sorted,
      Sorts rowKey (past rowKey k (t.historyOf userId)) sorted ∧
      answer = .ofPage (toPage (pageLimit limit) sorted) := by
  obtain ⟨query, hquery, rfl⟩ := h
  obtain ⟨after, hread, hbound⟩ := hk
  have hselect := hquery ⟨uuidText userId, after, pageLimit limit + 1⟩
  simp only [Selects, huuid, hbound] at hselect
  obtain ⟨sorted, hsorted, hrows⟩ := hselect
  exact ⟨sorted, hsorted, listGames_eq hread hrows⟩

theorem answers_sort (hk : Reads cursor k) : Answers t userId limit cursor
    (.ofPage (toPage (pageLimit limit) (sort rowKey (past rowKey k (t.historyOf userId))))) := by
  obtain ⟨after, hread, hbound⟩ := hk
  refine ⟨selectGames t, selects_selectGames t, listGames_eq hread ?_⟩
  simp only [selectGames, huuid, hbound]

omit [DateFormats] in
theorem recordOf_key {row : GameRow}
    (hexact : Postgres.timestamptz (toISOString row.2.finishedMs) = some row.2.finishedAt) :
    Cursor.key ⟨(recordOf row).finishedAt, (recordOf row).gameId⟩ = some (rowKey row) := by
  simp only [Cursor.key, recordOf, hexact, huuid, Option.bind_eq_bind, Option.bind_some,
    Option.pure_def]
  rfl

theorem reads_encodeCursor {row : GameRow} (hdate : timeClip row.2.finishedMs ≠ none)
    (hexact : Postgres.timestamptz (toISOString row.2.finishedMs) = some row.2.finishedAt) :
    Reads (some (encodeCursor (recordOf row))) (rowKey row) := by
  have hdecode := decodeCursor_recordOf hdate
  have hne : encodeCursor (recordOf row) ≠ [] := by
    intro hnil
    rw [hnil] at hdecode
    cases hdecode
  refine ⟨some _, by rw [readCursor, if_neg hne, hdecode, Option.map_some], ?_⟩
  rw [bound, recordOf_key huuid hexact, Option.map_some]

theorem denotes_encodeCursor {page : PlayerGamesResponse} {row : GameRow}
    (hlast : page.games.getLast? = some (recordOf row)) (hrow : row ∈ t.historyOf userId)
    (hdate : timeClip row.2.finishedMs ≠ none)
    (hexact : Postgres.timestamptz (toISOString row.2.finishedMs) = some row.2.finishedAt) :
    Denotes t userId page (encodeCursor (recordOf row)) :=
  ⟨recordOf row, hlast, decodeCursor_recordOf hdate, row, hrow, rfl, recordOf_key huuid hexact⟩

/-! ### The pages of a member whose rows have keys of their own -/

structure Lists (t : HistoryTables) (userId : Uuid) (k : WithTop GameKey)
    (pages : List PlayerGamesResponse) (e : Ending) : Prop where
  answered : e ≠ .failed
  ends : pages.length ≤ max 1 (past rowKey k (t.historyOf userId)).length
  listed : e = .ended → ∃ rows, Sorts rowKey (past rowKey k (t.historyOf userId)) rows ∧
    pages.flatMap PlayerGamesResponse.games = rows.map recordOf
  denotes : ∀ page ∈ pages, ∀ cursor, page.nextCursor = some cursor → Denotes t userId page cursor

omit [DateFormats] huuid in
theorem Pageable.keys (h : Pageable t userId) : ((t.historyOf userId).map rowKey).Nodup := by
  refine h.games.of_map.map_on fun a ha b hb hkey => ?_
  exact List.inj_on_of_nodup_map h.games ha hb (id_of_key hkey)

omit [DateFormats] huuid in
theorem Pageable.toPage (h : Pageable t userId) {n : ℕ} {sorted : List GameRow}
    (hsorted : Sorts rowKey (past rowKey k (t.historyOf userId)) sorted) :
    toPage n sorted = some ⟨(sorted.take n).map recordOf, cursorAfter n sorted⟩ := by
  refine toPage_eq_some.mpr ⟨fun row hrow => ?_, rfl⟩
  exact h.dates row (mem_past.mp (hsorted.perm.mem_iff.mp (List.mem_of_mem_take hrow))).1

/-- The last row of a page that is not the last page, and what its cursor says. -/
theorem Pageable.next (h : Pageable t userId) {n : ℕ} {sorted : List GameRow} {next : JsString}
    (hsorted : Sorts rowKey (past rowKey k (t.historyOf userId)) sorted)
    (hnext : cursorAfter n sorted = some next) : n < sorted.length ∧
      ∃ last ∈ t.historyOf userId, (sorted.take n).getLast? = some last ∧
        Reads (some next) (rowKey last) ∧
        Denotes t userId ⟨(sorted.take n).map recordOf, cursorAfter n sorted⟩ next := by
  obtain ⟨hlt, last, hlast, hcursor⟩ := cursorAfter_eq_some hnext
  have hmem : ∀ row ∈ sorted, row ∈ t.historyOf userId := fun row hrow =>
    (mem_past.mp (hsorted.perm.mem_iff.mp hrow)).1
  have hrow := hmem last (List.mem_of_mem_take (List.mem_of_getLast? hlast))
  have hsplit := hsorted
  rw [← List.take_append_drop n sorted] at hsplit
  obtain ⟨older, holder⟩ := List.exists_mem_of_length_pos
    (by rw [List.length_drop]; omega : 0 < (sorted.drop n).length)
  have hbelow := (mem_past.mp ((hsplit.behind h.keys hlast).perm.mem_iff.mp holder))
  have hexact := h.exact last hrow ⟨older, hbelow.1, WithTop.coe_lt_coe.mp hbelow.2⟩
  have hdate := h.dates last hrow
  have hshown : ((sorted.take n).map recordOf).getLast? = some (recordOf last) := by
    rw [List.getLast?_map, hlast]
    rfl
  rw [hcursor]
  exact ⟨hlt, last, hrow, hlast, reads_encodeCursor huuid hdate hexact,
    denotes_encodeCursor huuid hshown hrow hdate hexact⟩

theorem Pageable.lists (h : Pageable t userId) {pages : List PlayerGamesResponse} {e : Ending}
    (hf : Follows t userId t' cursor pages e) : ∀ {k : WithTop GameKey}, Reads cursor k →
      Grown t userId t' →
      past rowKey k (t'.historyOf userId) = past rowKey k (t.historyOf userId) →
      Lists t userId k pages e := by
  induction hf with
  | cut t' cursor =>
    intro k _ _ _
    exact ⟨fun he => (by cases he), Nat.zero_le _, fun he => (by cases he),
      fun page hpage => absurd hpage List.not_mem_nil⟩
  | failed hanswer hno =>
    intro k hk _ hpast
    obtain ⟨sorted, hsorted, hanswer⟩ := hanswer.sorted huuid hk
    rw [h.toPage (hpast ▸ hsorted)] at hanswer
    exact absurd hanswer (hno _)
  | ended hanswer hnext =>
    intro k hk _ hpast
    obtain ⟨sorted, hsorted, hanswer⟩ := hanswer.sorted huuid hk
    rw [hpast] at hsorted
    rw [h.toPage hsorted] at hanswer
    obtain rfl := ListAnswer.page.inj hanswer
    have hall := (cursorAfter_eq_none (pageLimit_pos _)).mp hnext
    refine ⟨fun he => (by cases he), Nat.le_max_left _ _, fun _ => ⟨sorted, hsorted, ?_⟩, ?_⟩
    · rw [List.flatMap_singleton, List.take_of_length_le hall]
    · intro page hpage cursor hcursor
      rw [List.mem_singleton.mp hpage, hnext] at hcursor
      cases hcursor
  | @next _ _ limit _ _ _ _ _ hanswer hnext hsaved _ ih =>
    intro k hk hgrown hpast
    obtain ⟨sorted, hsorted, hanswer⟩ := hanswer.sorted huuid hk
    rw [hpast] at hsorted
    rw [h.toPage hsorted] at hanswer
    obtain rfl := ListAnswer.page.inj hanswer
    obtain ⟨hlt, last, hrow, hlast, hreads, hdenotes⟩ := h.next huuid hsorted hnext
    have hgrown' := hgrown.saves hsaved
    have hrest' := ih hreads hgrown' (hgrown'.past_eq hrow)
    have hsplit := hsorted
    rw [← List.take_append_drop (pageLimit limit) sorted] at hsplit
    have hbehind := (hsplit.behind h.keys hlast).perm.length_eq
    rw [List.length_drop] at hbehind
    have hlength := hsorted.perm.length_eq
    refine ⟨hrest'.answered, ?_, fun he => ?_, fun page hpage => ?_⟩
    · have hends := hrest'.ends
      have hpos := pageLimit_pos limit
      rw [List.length_cons]
      omega
    · obtain ⟨rows, hrows, hgames⟩ := hrest'.listed he
      refine ⟨_, hsplit.append h.keys hlast hrows, ?_⟩
      rw [List.flatMap_cons, hgames, List.map_append]
    · rcases List.mem_cons.mp hpage with rfl | hpage
      · intro cursor hcursor
        rw [Option.some.inj (hcursor.symm.trans hnext)]
        exact hdenotes
      · exact hrest'.denotes page hpage

end

section
variable [Postgres] [DateFormats] {t : HistoryTables} {userId : Uuid} {limit : Option ℤ}
  {cursor : Option JsString} {k : WithTop GameKey}

/-! ### One row at a time -/

omit [Postgres] [DateFormats] in
theorem game_eq {a b : GameRow} (ha : a ∈ t.historyOf userId) (hb : b ∈ t.historyOf userId)
    (h : a.2.id = b.2.id) : a.2 = b.2 := by
  have hget : ∀ row ∈ t.historyOf userId, row.2 ∈ t.games.rows := by
    intro row hrow
    obtain ⟨p, -, hp⟩ := List.mem_filterMap.mp (List.mem_filter.mp hrow).1
    obtain ⟨g, hg, rfl⟩ := Option.map_eq_some_iff.mp hp
    exact (get?_eq_some.mp hg).1
  exact rows_inj (hget a ha) (hget b hb) h

/-- Requests behind a cursor are answered, and the cursors of the answers denote their rows. -/
def Answered (t : HistoryTables) (userId : Uuid) (cursor : Option JsString) : Prop :=
  ∀ {pages e}, Follows t userId t cursor pages e → e ≠ .failed ∧
    ∀ page ∈ pages, ∀ next, page.nextCursor = some next → Denotes t userId page next

theorem Answered.next (h : Answered t userId cursor) {page : PlayerGamesResponse} {next : JsString}
    (hanswer : Answers t userId limit cursor (.page page)) (hnext : page.nextCursor = some next) :
    Answered t userId (some next) := by
  intro pages e hf
  obtain ⟨he, hdenotes⟩ := h (.next hanswer hnext .refl hf)
  exact ⟨he, fun page hpage => hdenotes page (List.mem_cons_of_mem _ hpage)⟩

theorem Denotes.exact {page : PlayerGamesResponse} {next : JsString} {row : GameRow}
    (h : Denotes t userId page next) (hlast : page.games.getLast? = some (recordOf row))
    (hrow : row ∈ t.historyOf userId) :
    Postgres.timestamptz (toISOString row.2.finishedMs) = some row.2.finishedAt := by
  obtain ⟨record, hrecord, -, row', hrow', hid, hkey⟩ := h
  obtain rfl := Option.some.inj (hrecord.symm.trans hlast)
  have hgame := game_eq hrow' hrow (uuidText_inj hid)
  simp only [Cursor.key, Option.bind_eq_bind, Option.bind_eq_some_iff, Option.pure_def,
    Option.some.injEq] at hkey
  obtain ⟨instant, hinstant, u, -, hkey⟩ := hkey
  have hfirst : instant = row.2.finishedAt := by
    rw [← hgame]
    exact congrArg (fun k => (ofLex k).1) hkey
  rw [← hfirst]
  exact hinstant

/-- What a reader gets who takes one row at a time: rows of different keys, as far as the cursors
go. -/
structure OneByOne (t : HistoryTables) (userId : Uuid) (cursor : Option JsString)
    (k : WithTop GameKey) (pages : List PlayerGamesResponse) (shown : List GameRow) : Prop where
  follows : Follows t userId t cursor pages .ended
  games : pages.flatMap PlayerGamesResponse.games = shown.map recordOf
  behind : ∀ row ∈ shown, row ∈ past rowKey k (t.historyOf userId)
  keys : (shown.map rowKey).Nodup
  dates : ∀ row ∈ past rowKey k (t.historyOf userId), timeClip row.2.finishedMs ≠ none
  exact : ∀ row ∈ past rowKey k (t.historyOf userId),
    (∃ older ∈ t.historyOf userId, rowKey older < rowKey row) →
      Postgres.timestamptz (toISOString row.2.finishedMs) = some row.2.finishedAt

theorem OneByOne.last {sorted : List GameRow} {page : PlayerGamesResponse}
    (hsorted : Sorts rowKey (past rowKey k (t.historyOf userId)) sorted)
    (hanswer : Answers t userId limit cursor (.page page)) (hpage : toPage 1 sorted = some page)
    (hlength : sorted.length ≤ 1) : OneByOne t userId cursor k [page] sorted := by
  obtain ⟨hdates, rfl⟩ := toPage_eq_some.mp hpage
  rw [List.take_of_length_le hlength] at hdates
  have hmem : ∀ {row}, row ∈ past rowKey k (t.historyOf userId) ↔ row ∈ sorted :=
    fun {_} => hsorted.perm.mem_iff.symm
  refine ⟨.ended hanswer ((cursorAfter_eq_none one_pos).mpr hlength), ?_, fun row hrow =>
    hmem.mpr hrow, ?_, fun row hrow => hdates row (hmem.mp hrow), fun row hrow hex => ?_⟩
  · rw [List.flatMap_singleton, List.take_of_length_le hlength]
  · rcases sorted with _ | ⟨row, _ | ⟨row', rest⟩⟩
    · exact List.nodup_nil
    · exact List.nodup_singleton _
    · simp at hlength
  · obtain ⟨older, holder, hlt⟩ := hex
    have holder' := hmem.mp (mem_past.mpr ⟨holder, (WithTop.coe_lt_coe.mpr hlt).trans
      (mem_past.mp hrow).2⟩)
    have hrow' := hmem.mp hrow
    rcases sorted with _ | ⟨row'', _ | ⟨row', rest⟩⟩
    · cases hrow'
    · rw [List.mem_singleton.mp holder', List.mem_singleton.mp hrow'] at hlt
      exact absurd hlt (lt_irrefl _)
    · simp at hlength

theorem OneByOne.cons {row : GameRow} {rest : List GameRow} {page : PlayerGamesResponse}
    {next : JsString} {pages : List PlayerGamesResponse} {shown : List GameRow}
    (hsorted : Sorts rowKey (past rowKey k (t.historyOf userId)) (row :: rest))
    (hanswer : Answers t userId limit cursor (.page page)) (hgames : page.games = [recordOf row])
    (hnext : page.nextCursor = some next) (hdate : timeClip row.2.finishedMs ≠ none)
    (hexact : Postgres.timestamptz (toISOString row.2.finishedMs) = some row.2.finishedAt)
    (h : OneByOne t userId (some next) (rowKey row) pages shown) :
    OneByOne t userId cursor k (page :: pages) (row :: shown) := by
  have hrow : row ∈ past rowKey k (t.historyOf userId) :=
    hsorted.perm.mem_iff.mp List.mem_cons_self
  -- a row that the next request does not find has the key of `row`, and so its game
  have hsplit : ∀ other ∈ past rowKey k (t.historyOf userId),
      other ∈ past rowKey (rowKey row) (t.historyOf userId) ∨ other.2 = row.2 := by
    intro other hother
    obtain ⟨hin, -⟩ := mem_past.mp hother
    have hle : rowKey other ≤ rowKey row := by
      rcases List.mem_cons.mp (hsorted.perm.mem_iff.mpr hother) with rfl | hrest
      · exact le_rfl
      · exact hsorted.descending.le_head hrest
    rcases hle.lt_or_eq with hlt | heq
    · exact .inl (mem_past.mpr ⟨hin, WithTop.coe_lt_coe.mpr hlt⟩)
    · exact .inr (game_eq hin (mem_past.mp hrow).1 (id_of_key heq))
  refine ⟨.next hanswer hnext .refl h.follows, ?_, ?_, ?_, fun other hother => ?_,
    fun other hother hex => ?_⟩
  · rw [List.flatMap_cons, hgames, h.games]
    rfl
  · refine List.forall_mem_cons.mpr ⟨hrow, fun other hother => ?_⟩
    obtain ⟨hin, hlt⟩ := mem_past.mp (h.behind other hother)
    exact mem_past.mpr ⟨hin, hlt.trans (mem_past.mp hrow).2⟩
  · rw [List.map_cons, List.nodup_cons]
    refine ⟨fun hmem => ?_, h.keys⟩
    obtain ⟨other, hother, heq⟩ := List.mem_map.mp hmem
    have hlt := WithTop.coe_lt_coe.mp (mem_past.mp (h.behind other hother)).2
    exact absurd heq hlt.ne
  · rcases hsplit other hother with hbehind | heq
    · exact h.dates other hbehind
    · exact heq ▸ hdate
  · rcases hsplit other hother with hbehind | heq
    · exact h.exact other hbehind hex
    · exact heq ▸ hexact

variable (huuid : ∀ u, Postgres.uuid (uuidText u) = some u)
include huuid

theorem exists_oneByOne (n : ℕ) : ∀ {cursor : Option JsString} {k : WithTop GameKey},
    (past rowKey k (t.historyOf userId)).length = n → Reads cursor k →
    Answered t userId cursor → ∃ pages shown, OneByOne t userId cursor k pages shown := by
  -- on the number of rows behind the cursor, which every page makes smaller
  induction n using Nat.strong_induction_on with
  | _ n ih =>
    intro cursor k hn hk h
    have hanswer : Answers t userId (some 1) cursor _ := answers_sort huuid hk
    have hsorted := sorts_sort rowKey (past rowKey k (t.historyOf userId))
    generalize sort rowKey (past rowKey k (t.historyOf userId)) = sorted at hanswer hsorted
    have hone : pageLimit (some 1) = 1 := rfl
    rw [hone] at hanswer
    cases hpage : toPage 1 sorted with
    | none =>
      rw [hpage] at hanswer
      exact absurd rfl (h (.failed hanswer (fun _ hp => by cases hp))).1
    | some page =>
      rw [hpage] at hanswer
      by_cases hlength : sorted.length ≤ 1
      · exact ⟨_, _, .last hsorted hanswer hpage hlength⟩
      obtain ⟨hdates, hshown⟩ := toPage_eq_some.mp hpage
      cases sorted with
      | nil => exact absurd (Nat.zero_le 1) hlength
      | cons row rest =>
        have hgames : page.games = [recordOf row] := by rw [hshown]; rfl
        have hcursor : cursorAfter 1 (row :: rest) ≠ none := fun hnone =>
          hlength ((cursorAfter_eq_none one_pos).mp hnone)
        obtain ⟨next, hnext⟩ := Option.ne_none_iff_exists'.mp hcursor
        have hpageNext : page.nextCursor = some next := by rw [hshown, hnext]
        have hrow : row ∈ past rowKey k (t.historyOf userId) :=
          hsorted.perm.mem_iff.mp List.mem_cons_self
        have hdate := hdates row (by simp)
        have hdenotes := (h (.next hanswer hpageNext .refl (.cut t _))).2 page
          List.mem_cons_self next hpageNext
        have hexact := hdenotes.exact (by rw [hgames]; rfl) (mem_past.mp hrow).1
        obtain ⟨-, last, hlast, hencoded⟩ := cursorAfter_eq_some hnext
        obtain rfl : row = last := by simpa using hlast
        have hreads := reads_encodeCursor huuid hdate hexact
        rw [← hencoded] at hreads
        obtain ⟨pages, shown, hall⟩ := ih _ (hn ▸ length_past_lt hrow) rfl hreads
          (h.next hanswer hpageNext)
        exact ⟨_, _, .cons hsorted hanswer hgames hpageNext hdate hexact hall⟩

/-! ### Every game, page by page -/

theorem complete_games (h : Complete t userId) : Pageable t userId := by
  have hanswered : Answered t userId none := fun hf => ⟨h.answered hf, h.denotes hf⟩
  obtain ⟨pages, shown, hall⟩ := exists_oneByOne huuid _ rfl reads_none hanswered
  have hbehind := hall.behind
  have hdates := hall.dates
  have hexact := hall.exact
  rw [past_top] at hbehind hdates hexact
  obtain ⟨rows, hrows, hgames⟩ := h.listed hall.follows
  have hlength : (t.historyOf userId).length ≤ shown.length := by
    have hrecords := congrArg List.length (hgames.symm.trans hall.games)
    rw [List.length_map, List.length_map, hrows.perm.length_eq] at hrecords
    exact hrecords.le
  have hkeys := nodup_of_length hbehind hall.keys hlength
  refine ⟨hkeys.of_map.map_on fun a ha b hb hid => ?_, hdates, hexact⟩
  exact List.inj_on_of_nodup_map hkeys ha hb (by rw [rowKey, rowKey, game_eq ha hb hid])

end

/-- The pages of a member are complete exactly where no two rows are of one game and the cursors
denote what they were made from. -/
theorem complete_iff [Postgres] [DateFormats] (huuid : ∀ u, Postgres.uuid (uuidText u) = some u)
    {events : List GameFinishedDto} {t : HistoryTables} (hsaved : saveAll events = some t)
    (userId : Uuid) : Complete t userId ↔ Pageable t userId := by
  refine ⟨complete_games huuid, fun h => ?_⟩
  obtain ⟨saved, hholds, -⟩ := saveAll_holds hsaved
  have hgrown : Grown t userId t := ⟨⟨saved, hholds⟩, [], (List.append_nil _).symm, by simp⟩
  have hlists : ∀ {pages e}, Follows t userId t none pages e → Lists t userId ⊤ pages e :=
    fun hf => h.lists huuid hf reads_none hgrown rfl
  refine ⟨fun hf => (hlists hf).answered, fun hf => ?_, fun hf => ?_,
    fun hf => (hlists hf).denotes⟩
  · have hends := (hlists hf).ends
    rwa [past_top] at hends
  · have hlisted := (hlists hf).listed rfl
    rwa [past_top] at hlisted

/-! ### Two histories on fixed inputs -/

@[reducible] def isoDates : DateFormats where
  parse _ := none

def nextGame : GameFinishedDto := { earlierEvent with
  gameId := laterEvent.gameId
  finishedAt := laterEvent.finishedAt }

def otherSeat : UuidText := ⟨utf16 "00000000-0000-4000-8000-00000000000c", by decide +kernel⟩

/-- A game in which the member has two seats. -/
def twoSeats : GameFinishedDto := { earlierEvent with
  players := earlierEvent.players ++
    earlierEvent.players.map fun player => { player with playerId := otherSeat }
  players_min := List.append_ne_nil_of_left_ne_nil earlierEvent.players_min _ }

def memberOfSamples : Uuid := ⟨BitVec.ofNat 128 (readHex sampleMember.text)⟩

def twoGames : HistoryTables :=
  (@saveAll plainPostgres [earlierEvent, nextGame]).get (by decide +kernel)

theorem twoGames_complete : @saveAll plainPostgres [earlierEvent, nextGame] = some twoGames ∧
    (twoGames.historyOf memberOfSamples).length = 2 ∧
    @Complete plainPostgres isoDates twoGames memberOfSamples := by
  have hsaved : @saveAll plainPostgres [earlierEvent, nextGame] = some twoGames :=
    (Option.some_get _).symm
  have hwhole : ∀ row ∈ twoGames.historyOf memberOfSamples,
      FourDigits row.2.finishedMs ∧ 1000 ∣ row.2.finishedAt := by decide +kernel
  exact ⟨hsaved, by decide +kernel,
    (@complete_iff plainPostgres isoDates plainPostgres_uuid _ _ hsaved _).mpr
      (@Pageable.mk plainPostgres _ _ (by decide +kernel) (by decide +kernel)
        fun row hrow _ => (@exact_iff plainPostgres (fun _ => plainPostgres_timestamptz) _
          (hwhole row hrow).1).mpr (hwhole row hrow).2)⟩

/-- One of the two rows is lost to a reader who takes one row at a time. -/
theorem twoSeats_incomplete : ∃ t, @saveAll plainPostgres [twoSeats] = some t ∧
    (t.historyOf memberOfSamples).length = 2 ∧
    ¬ @Complete plainPostgres isoDates t memberOfSamples := by
  have hsaved : @saveAll plainPostgres [twoSeats] = some _ :=
    (Option.some_get (by decide +kernel)).symm
  refine ⟨_, hsaved, by decide +kernel, fun h => ?_⟩
  have hgames := @Pageable.games plainPostgres _ memberOfSamples
    (@complete_games plainPostgres isoDates _ _ plainPostgres_uuid h)
  revert hgames
  decide +kernel

end GachaMind.User
