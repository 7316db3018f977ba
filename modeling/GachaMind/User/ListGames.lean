import GachaMind.Js.Buffer
import GachaMind.Lib.Keyset
import GachaMind.User.Instants

/-!
# The games of a member, page by page (apps/user/src/history/history.service.ts)

`listGames` reads one row more than it shows, and points to the next page with the instant and
the id of the last game it shows. The instant goes out as the text of a `Date`, which has
milliseconds where the column has microseconds.
-/

namespace GachaMind.User
open GachaMind.Js GachaMind.Shared KeyedTable Ranking Keyset

def PLAYER_GAMES_PAGE_SIZE : ℤ := 20

def PLAYER_GAMES_PAGE_LIMIT : ℤ := 50

structure PlayerGameRecord where
  gameId : JsString
  roomId : JsString
  finishedAt : JsString
  roundsPlayed : ℤ
  playerCount : ℤ
  score : ℤ
  rank : ℤ
  deriving DecidableEq

structure PlayerGamesResponse where
  games : List PlayerGameRecord
  nextCursor : Option JsString
  deriving DecidableEq

/-! ### Cursors -/

structure Cursor where
  finishedAt : JsString
  gameId : JsString
  deriving DecidableEq

def encodeCursor (record : PlayerGameRecord) : JsString :=
  toBase64url (utf8 (record.finishedAt ++ utf16 "|" ++ record.gameId))

/-- `/^[0-9a-f-]{36}$/i`. -/
def isGameId (s : JsString) : Bool := s.length == 36 && s.all fun c => isHexDigit c || c == dash

def decodeCursor [DateFormats] (cursor : JsString) : Option Cursor :=
  match (fromUtf8 (fromBase64url cursor)).splitOn 0x7C with
  | finishedAt :: gameId :: _ =>
    if finishedAt = [] ∨ gameId = [] ∨ dateParse finishedAt = none then none
    else if isGameId gameId then some ⟨finishedAt, gameId⟩
    else none
  | _ => none

/-- What `listGames` takes from `options.cursor`, `none` where the cursor is broken. -/
def readCursor [DateFormats] : Option JsString → Option (Option Cursor)
  | none => some none
  | some cursor => if cursor = [] then some none else (decodeCursor cursor).map some

/-! ### The statement -/

abbrev GameRow := GamePlayer × Game

/-- The parameters: `after` is `$2` and `$3`, both null or neither. -/
structure ListParameters where
  userId : JsString
  after : Option Cursor
  limit : ℕ

abbrev GameKey := ℤ ×ₗ ℕ

/-- `(g.finished_at, g.id)`. -/
def rowKey (row : GameRow) : GameKey := toLex (row.2.finishedAt, row.2.id.bits.toNat)

theorem id_of_key {a b : GameRow} (h : rowKey a = rowKey b) : a.2.id = b.2.id :=
  uuid_eq (congrArg (fun k => (ofLex k).2) h)

section
variable [Postgres]

/-- `($2::timestamptz, $3::uuid)`, `none` where a text is refused. -/
def Cursor.key (cursor : Cursor) : Option GameKey := do
  return toLex (← Postgres.timestamptz cursor.finishedAt,
    (← Postgres.uuid cursor.gameId).bits.toNat)

/-- The key below which the rows of the statement are. -/
def bound : Option Cursor → Option (WithTop GameKey)
  | none => some ⊤
  | some cursor => cursor.key.map fun k : GameKey => (k : WithTop GameKey)

/-- What the statement may return, `none` where it is refused. -/
def Selects (t : HistoryTables) (p : ListParameters) (result : Option (List GameRow)) : Prop :=
  match Postgres.uuid p.userId, bound p.after with
  | some userId, some after => ∃ sorted,
      Sorts rowKey (past rowKey after (t.historyOf userId)) sorted ∧
        result = some (sorted.take p.limit)
  | _, _ => result = none

def selectGames (t : HistoryTables) (p : ListParameters) : Option (List GameRow) :=
  match Postgres.uuid p.userId, bound p.after with
  | some userId, some after =>
    some ((sort rowKey (past rowKey after (t.historyOf userId))).take p.limit)
  | _, _ => none

theorem selects_selectGames (t : HistoryTables) (p : ListParameters) :
    Selects t p (selectGames t p) := by
  unfold Selects selectGames
  cases Postgres.uuid p.userId with
  | none => rfl
  | some userId =>
    cases bound p.after with
    | none => rfl
    | some after => exact ⟨_, sorts_sort rowKey _, rfl⟩

end

/-! ### listGames -/

/-- The milliseconds of the `Date` that the column is read as. -/
def Game.finishedMs (g : Game) : ℤ := g.finishedAt / 1000

def recordOf (row : GameRow) : PlayerGameRecord where
  gameId := uuidText row.2.id
  roomId := row.2.roomId
  finishedAt := toISOString row.2.finishedMs
  roundsPlayed := row.2.roundsPlayed
  playerCount := row.2.playerCount
  score := row.1.score
  rank := row.1.rank

/-- `toISOString` throws where there is no such `Date`. -/
def toRecord (row : GameRow) : Option PlayerGameRecord :=
  (timeClip row.2.finishedMs).map fun _ => recordOf row

def pageLimit (limit : Option ℤ) : ℕ :=
  (min (max (limit.getD PLAYER_GAMES_PAGE_SIZE) 1) PLAYER_GAMES_PAGE_LIMIT).toNat

/-- The answer from the rows of the statement, `none` where it throws. -/
def toPage (limit : ℕ) (rows : List GameRow) : Option PlayerGamesResponse := do
  let games ← (rows.take limit).mapM toRecord
  return {
    games := games
    nextCursor := if limit < rows.length then games.getLast?.map encodeCursor else none }

inductive ListAnswer where
  | page (response : PlayerGamesResponse)
  | null
  | thrown
  deriving DecidableEq

def ListAnswer.ofPage : Option PlayerGamesResponse → ListAnswer
  | none => .thrown
  | some response => .page response

def listGames [DateFormats] (query : ListParameters → Option (List GameRow)) (userId : JsString)
    (limit : Option ℤ) (cursor : Option JsString) : ListAnswer :=
  match readCursor cursor with
  | none => .null
  | some after =>
    .ofPage ((query ⟨userId, after, pageLimit limit + 1⟩).bind (toPage (pageLimit limit)))

/-! ### What an answer shows -/

theorem mapM_toRecord {rows : List GameRow} : ∀ {games : List PlayerGameRecord},
    rows.mapM toRecord = some games ↔
      (∀ row ∈ rows, timeClip row.2.finishedMs ≠ none) ∧ games = rows.map recordOf := by
  induction rows with
  | nil =>
    intro games
    simp [eq_comm]
  | cons row rows ih =>
    intro games
    rw [List.mapM_cons, List.forall_mem_cons, List.map_cons, toRecord]
    cases hclip : timeClip row.2.finishedMs with
    | none => simp
    | some ms =>
      simp only [Option.map_some, Option.bind_eq_bind, Option.bind_some, Option.bind_eq_some_iff,
        Option.pure_def, Option.some.injEq, ih, ne_eq, reduceCtorEq, not_false_eq_true, true_and]
      constructor
      · rintro ⟨games', ⟨hrows, rfl⟩, rfl⟩
        exact ⟨hrows, rfl⟩
      · rintro ⟨hrows, rfl⟩
        exact ⟨_, ⟨hrows, rfl⟩, rfl⟩

/-- The row that is read beyond the page only tells that there is one. -/
theorem toPage_take (n : ℕ) (rows : List GameRow) :
    toPage n (rows.take (n + 1)) = toPage n rows := by
  have hmore : n < (rows.take (n + 1)).length ↔ n < rows.length := by
    rw [List.length_take]
    omega
  simp only [toPage, List.take_take, Nat.min_eq_left (Nat.le_succ n), hmore]

def cursorAfter (n : ℕ) (rows : List GameRow) : Option JsString :=
  if n < rows.length then ((rows.take n).map recordOf).getLast?.map encodeCursor else none

theorem toPage_eq_some {n : ℕ} {rows : List GameRow} {page : PlayerGamesResponse} :
    toPage n rows = some page ↔ (∀ row ∈ rows.take n, timeClip row.2.finishedMs ≠ none) ∧
      page = ⟨(rows.take n).map recordOf, cursorAfter n rows⟩ := by
  simp only [toPage, Option.bind_eq_bind, Option.bind_eq_some_iff, mapM_toRecord, Option.pure_def,
    Option.some.injEq]
  constructor
  · rintro ⟨games, ⟨hrows, rfl⟩, rfl⟩
    exact ⟨hrows, rfl⟩
  · rintro ⟨hrows, rfl⟩
    exact ⟨_, ⟨hrows, rfl⟩, rfl⟩

theorem cursorAfter_eq_none {n : ℕ} (hn : 0 < n) {rows : List GameRow} :
    cursorAfter n rows = none ↔ rows.length ≤ n := by
  unfold cursorAfter
  split_ifs with h
  · have hne : (rows.take n).map recordOf ≠ [] := by
      rw [ne_eq, List.map_eq_nil_iff, List.take_eq_nil_iff]
      rintro (h0 | rfl)
      · omega
      · exact absurd h (Nat.not_lt_zero n)
    rw [Option.map_eq_none_iff, List.getLast?_eq_none_iff]
    exact iff_of_false hne (by omega)
  · exact iff_of_true rfl (by omega)

theorem cursorAfter_eq_some {n : ℕ} {rows : List GameRow} {cursor : JsString}
    (h : cursorAfter n rows = some cursor) : n < rows.length ∧
      ∃ last, (rows.take n).getLast? = some last ∧ cursor = encodeCursor (recordOf last) := by
  unfold cursorAfter at h
  split_ifs at h with hlt
  obtain ⟨record, hrecord, rfl⟩ := Option.map_eq_some_iff.mp h
  rw [List.getLast?_map] at hrecord
  obtain ⟨last, hlast, rfl⟩ := Option.map_eq_some_iff.mp hrecord
  exact ⟨hlt, last, hlast, rfl⟩

theorem pageLimit_pos (limit : Option ℤ) : 0 < pageLimit limit := by
  unfold pageLimit PLAYER_GAMES_PAGE_LIMIT
  omega

/-! ### The round trip of a cursor -/

theorem isHexDigit_lt {c : CodeUnit} (h : isHexDigit c = true) : c < 0x7C := by
  simp only [isHexDigit, Bool.or_eq_true, Bool.and_eq_true, decide_eq_true_eq] at h
  rcases h with (⟨-, h⟩ | ⟨-, h⟩) | ⟨-, h⟩ <;>
    exact UInt16.lt_of_le_of_lt h (by decide)

theorem uuidText_chars (u : Uuid) : ∀ c ∈ uuidText u, isHexDigit c = true ∨ c = dash := by
  intro c hc
  obtain ⟨i, -, rfl⟩ := List.mem_map.mp hc
  split_ifs
  · exact .inr rfl
  · exact .inl (hexChar_isHexDigit (hexDigitOf_lt u _))

theorem isGameId_uuidText (u : Uuid) : isGameId (uuidText u) = true := by
  rw [isGameId, Bool.and_eq_true, beq_iff_eq, List.all_eq_true]
  refine ⟨by rw [uuidText, List.length_map, List.length_range], fun c hc => ?_⟩
  rcases uuidText_chars u c hc with h | h
  · rw [h, Bool.true_or]
  · rw [h]
    decide

theorem isIsoChar_lt {c : CodeUnit} (h : isIsoChar c = true) : c < 0x7C := by
  simp only [isIsoChar, isDigit, Bool.or_eq_true, Bool.and_eq_true, decide_eq_true_eq,
    List.mem_cons, List.not_mem_nil, or_false] at h
  rcases h with ⟨-, h⟩ | rfl | rfl | rfl | rfl | rfl | rfl
  · exact UInt16.lt_of_le_of_lt h (by decide)
  all_goals decide

theorem splitOn_pair {a b : JsString} (ha : 0x7C ∉ a) (hb : 0x7C ∉ b) :
    (a ++ utf16 "|" ++ b).splitOn 0x7C = [a, b] := by
  have hjoin : a ++ utf16 "|" ++ b = [0x7C].intercalate [a, b] := by
    rw [(by decide : utf16 "|" = [0x7C])]
    simp [List.intercalate]
  rw [hjoin]
  refine List.splitOn_intercalate _ (fun l hl => ?_) (by simp)
  simp only [List.mem_cons, List.not_mem_nil, or_false] at hl
  rcases hl with rfl | rfl
  · exact ha
  · exact hb

theorem decodeCursor_encodeCursor [DateFormats] {record : PlayerGameRecord}
    (hdate : ∀ c ∈ record.finishedAt, c < 0x7C) (hne : record.finishedAt ≠ [])
    (hparse : dateParse record.finishedAt ≠ none) (hid : ∀ c ∈ record.gameId, c < 0x7C)
    (hgame : isGameId record.gameId = true) :
    decodeCursor (encodeCursor record) = some ⟨record.finishedAt, record.gameId⟩ := by
  have hascii : IsAscii (record.finishedAt ++ utf16 "|" ++ record.gameId) := by
    have hbar : ∀ c ∈ utf16 "|", c < 0x80 := by
      rw [(by decide : utf16 "|" = [0x7C]), List.forall_mem_singleton]
      decide
    have hlt : ∀ {c : CodeUnit}, c < 0x7C → c < 0x80 := fun h => UInt16.lt_trans h (by decide)
    exact List.forall_mem_append.mpr ⟨List.forall_mem_append.mpr
      ⟨fun c hc => hlt (hdate c hc), hbar⟩, fun c hc => hlt (hid c hc)⟩
  have hbar : ∀ {s : JsString}, (∀ c ∈ s, c < 0x7C) → 0x7C ∉ s := fun hs hmem =>
    absurd (hs _ hmem) (by decide)
  have hempty : record.gameId ≠ [] := by
    intro hnil
    rw [hnil] at hgame
    cases hgame
  unfold decodeCursor encodeCursor
  rw [fromBase64url_toBase64url, fromUtf8_utf8 hascii, splitOn_pair (hbar hdate) (hbar hid)]
  simp only [hne, hempty, hparse, hgame, or_self, if_false, if_true]

theorem decodeCursor_recordOf [DateFormats] {row : GameRow}
    (h : timeClip row.2.finishedMs ≠ none) :
    decodeCursor (encodeCursor (recordOf row)) =
      some ⟨(recordOf row).finishedAt, (recordOf row).gameId⟩ := by
  refine decodeCursor_encodeCursor (fun c hc => isIsoChar_lt (toISOString_chars _ c hc)) ?_ ?_
    (fun c hc => ?_) (isGameId_uuidText _)
  · exact List.append_ne_nil_of_right_ne_nil _ (by decide)
  · exact (dateParse_toISOString (timeClip_self h)).symm ▸ Option.some_ne_none _
  · rcases uuidText_chars row.2.id c hc with hc | rfl
    · exact isHexDigit_lt hc
    · decide

end GachaMind.User
