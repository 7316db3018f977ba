import GachaMind.User.Paging
import GachaMind.User.Timestamps

/-!
# Cursors from outside (apps/user/src/history/history.service.ts)

What `decodeCursor` lets pass, beside what the statement of `listGames` can cast: a character
class and a length for the id, `Date.parse` for the instant.
-/

namespace GachaMind.User
open GachaMind.Js GachaMind.Shared KeyedTable

/-! ### Ids -/

/-- The places of the hyphens. -/
def hyphens (s : JsString) : List ℕ := s.findIdxs fun c => c == dash

theorem matchesUuid_iff {s : JsString} : matchesUuid s = true ↔ s.length = 36 ∧
    ∀ (i : ℕ) (hi : i < s.length), if i ∈ dashes then s[i] = dash else isHexDigit s[i] = true := by
  rw [matchesUuid, Bool.and_eq_true, beq_iff_eq, List.all_eq_true]
  apply and_congr_right
  intro _
  have hplace : ∀ (c : CodeUnit) (i : ℕ),
      (if i ∈ [8, 13, 18, 23] then c == 0x2D else isHexDigit c) = true ↔
        if i ∈ dashes then c = dash else isHexDigit c = true := by
    intro c i
    by_cases hd : i ∈ dashes
    · rw [if_pos hd, if_pos (show i ∈ [8, 13, 18, 23] from hd), beq_iff_eq]
      rfl
    · rw [if_neg hd, if_neg (show i ∉ [8, 13, 18, 23] from hd)]
  constructor
  · intro h i hi
    have hmem : (s[i], i) ∈ s.zipIdx := List.mk_mem_zipIdx_iff_getElem?.mpr (by simp [hi])
    exact (hplace _ _).mp (h _ hmem)
  · intro h p hp
    obtain ⟨hi, hc⟩ := List.mem_zipIdx' hp
    have hat := h p.2 hi
    rw [← hc] at hat
    exact (hplace _ _).mpr hat

theorem isHexDigit_ne_dash {c : CodeUnit} (h : isHexDigit c = true) : c ≠ dash := by
  rintro rfl
  cases h

/-- An id that passes the character class is a UUID if its hyphens are where a UUID has them. -/
theorem isGameId_uuid_iff {s : JsString} (h : isGameId s = true) :
    matchesUuid s = true ↔ hyphens s = dashes := by
  rw [isGameId, Bool.and_eq_true, beq_iff_eq, List.all_eq_true] at h
  obtain ⟨hlength, hchars⟩ := h
  rw [matchesUuid_iff]
  constructor
  · rintro ⟨-, hplaces⟩
    apply List.Pairwise.eq_of_mem_iff List.pairwise_findIdxs (by decide)
    intro i
    rw [List.mem_findIdxs_iff_exists_getElem_pos]
    constructor
    · rintro ⟨hi, hdash⟩
      by_contra hd
      have hplace := hplaces i hi
      rw [if_neg hd] at hplace
      exact isHexDigit_ne_dash hplace (beq_iff_eq.mp hdash)
    · intro hd
      have hi : i < s.length := by
        have hall : ∀ i ∈ dashes, i < 36 := by decide
        exact hlength ▸ hall i hd
      have hplace := hplaces i hi
      rw [if_pos hd] at hplace
      exact ⟨hi, beq_iff_eq.mpr hplace⟩
  · intro hhyphens
    refine ⟨hlength, fun i hi => ?_⟩
    have hmem : i ∈ hyphens s ↔ s[i] = dash := by
      rw [hyphens, List.mem_findIdxs_iff_pos_getElem hi, beq_iff_eq]
    rw [hhyphens] at hmem
    split_ifs with hd
    · exact hmem.mp hd
    · have hchar := hchars _ (List.getElem_mem hi)
      rw [Bool.or_eq_true, beq_iff_eq] at hchar
      exact hchar.resolve_right fun hdash => hd (hmem.mpr hdash)

/-! ### What decodeCursor accepts -/

/-- The parameters that the statement casts to `timestamptz` and `uuid`: a timestamp, of no more
characters than the first cast reads, and a UUID. -/
structure WellFormed (longest : ℕ) (cursor : Cursor) : Prop where
  finishedAt : ∃ t : Timestamp, cursor.finishedAt = t.text ∧ t.text.length ≤ longest
  gameId : matchesUuid cursor.gameId = true

/-- The texts between the bars of what the cursor encodes. -/
def cursorParts (cursor : JsString) : List JsString :=
  (fromUtf8 (fromBase64url cursor)).splitOn 0x7C

/-- Where an id has the right characters and `Date.parse` reads the instant, the hyphens of the id
are in their places and the characters of the instant are those of a timestamp. -/
def InFormat [DateFormats] (longest : ℕ) : List JsString → Prop
  | finishedAt :: gameId :: _ =>
    finishedAt ≠ [] → dateParse finishedAt ≠ none → isGameId gameId = true →
      hyphens gameId = dashes ∧ isTimestamp finishedAt = true ∧ finishedAt.length ≤ longest
  | _ => True

theorem wellFormed_iff {longest : ℕ} {finishedAt gameId : JsString}
    (hgame : isGameId gameId = true) : WellFormed longest ⟨finishedAt, gameId⟩ ↔
      hyphens gameId = dashes ∧ isTimestamp finishedAt = true ∧ finishedAt.length ≤ longest := by
  rw [isTimestamp_iff, ← isGameId_uuid_iff hgame]
  constructor
  · rintro ⟨⟨t, htext, hlength⟩, huuid⟩
    rw [← htext] at hlength
    exact ⟨huuid, ⟨t, htext⟩, hlength⟩
  · rintro ⟨huuid, ⟨t, htext⟩, hlength⟩
    rw [htext] at hlength
    exact ⟨⟨t, htext, hlength⟩, huuid⟩

/-- 36 hyphens for an id. -/
def hyphenCursor : JsString := utf16
  "MjAyNi0wMS0wMVQwMDowMDowMC4wMDBafC0tLS0tLS0tLS0tLS0tLS0tLS0tLS0tLS0tLS0tLS0tLS0tLQ"

/-- The 31st of February, which `Date.parse` reads as the 3rd of March. -/
def februaryCursor : JsString := utf16
  "MjAyNi0wMi0zMVQwMDowMDowMC4wMDBafDAwMDAwMDAwLTAwMDAtNDAwMC04MDAwLTAwMDAwMDAwMDAwMQ"

end GachaMind.User
