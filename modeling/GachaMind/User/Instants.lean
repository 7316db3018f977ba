import GachaMind.User.Refusals

/-!
# Instants read back

`Date.parse` gives back the instant that `toISOString` has written. The date of a day is found
from the year of its 400-year cycle, whose formula is right on every day of the cycle.
-/

namespace GachaMind.User
open GachaMind.Js GachaMind.Shared

/-! ### The calendar -/

/-- A day of a 400-year cycle: the century, the group of four years, the year and the day. -/
theorem exists_cycle {doe : ℤ} (h0 : 0 ≤ doe) (h1 : doe < 146097) :
    ∃ c q y d : ℤ, doe = 36524 * c + 1461 * q + 365 * y + d ∧ 0 ≤ c ∧ c ≤ 3 ∧ 0 ≤ q ∧ q ≤ 24 ∧
      0 ≤ y ∧ y ≤ 3 ∧ 0 ≤ d ∧ (d ≤ 364 ∨ d = 365 ∧ y = 3 ∧ (q ≤ 23 ∨ c = 3)) := by
  obtain ⟨c, hc⟩ : ∃ c, c = min (doe / 36524) 3 := ⟨_, rfl⟩
  obtain ⟨q, hq⟩ : ∃ q, q = (doe - 36524 * c) / 1461 := ⟨_, rfl⟩
  obtain ⟨y, hy⟩ : ∃ y, y = min ((doe - 36524 * c - 1461 * q) / 365) 3 := ⟨_, rfl⟩
  have hcentury : 0 ≤ c ∧ c ≤ 3 ∧ 0 ≤ doe - 36524 * c ∧
      (doe - 36524 * c < 36524 ∨ c = 3 ∧ doe - 36524 * c = 36524) := by omega
  have hgroup : 0 ≤ q ∧ q ≤ 24 := by omega
  refine ⟨c, q, y, doe - 36524 * c - 1461 * q - 365 * y, by omega, hcentury.1, hcentury.2.1,
    hgroup.1, hgroup.2, ?_⟩
  omega

theorem yearOfEra {doe : ℤ} (h0 : 0 ≤ doe) (h1 : doe < 146097) :
    ∃ yoe, (doe - doe / 1460 + doe / 36524 - doe / 146096) / 365 = yoe ∧ 0 ≤ yoe ∧ yoe < 400 ∧
      0 ≤ doe - (365 * yoe + yoe / 4 - yoe / 100) ∧
      doe - (365 * yoe + yoe / 4 - yoe / 100) ≤ 365 := by
  obtain ⟨c, q, y, d, hdoe, hc, hc3, hq, hq24, hy, hy3, hd, hlast⟩ := exists_cycle h0 h1
  have hcentury : doe / 36524 - doe / 146096 = c := by
    by_cases h : doe = 146096
    · omega
    · have hfirst : doe / 146096 = 0 := by omega
      have hbounds : 36524 * c ≤ doe ∧ doe < 36524 * c + 36524 := by omega
      omega
  have hgroup : doe / 1460 = 25 * c + q + (24 * c + q + 365 * y + d) / 1460 := by omega
  have hleap : (100 * c + 4 * q + y) / 4 = 25 * c + q := by omega
  have hcommon : (100 * c + 4 * q + y) / 100 = c := by omega
  have hday : doe - (365 * (100 * c + 4 * q + y) + (25 * c + q) - c) = d := by omega
  refine ⟨100 * c + 4 * q + y, ?_, by omega, by omega, ?_, ?_⟩
  rotate_left
  · rw [hleap, hcommon, hday]
    exact hd
  · rw [hleap, hcommon, hday]
    omega
  have hsum : doe - doe / 1460 + doe / 36524 - doe / 146096 =
      36500 * c + 1460 * q + 365 * y + d - (24 * c + q + 365 * y + d) / 1460 := by omega
  rw [hsum]
  omega

theorem civilDate_spec (days : ℤ) :
    1 ≤ (civilDate days).month ∧ (civilDate days).month ≤ 12 ∧
    1 ≤ (civilDate days).day ∧ (civilDate days).day ≤ 31 ∧
    daysUntil (civilDate days) = days := by
  obtain ⟨yoe, hyoe, h0, h400, hdoy, hdoy'⟩ := yearOfEra
    (Int.emod_nonneg (days + 719468) (by decide : (146097 : ℤ) ≠ 0))
    (Int.emod_lt_of_pos (days + 719468) (by decide))
  simp only [civilDate, daysUntil, hyoe]
  generalize hdoe : (days + 719468) % 146097 = doe at *
  have hera : days + 719468 = 146097 * ((days + 719468) / 146097) + doe := by omega
  generalize (days + 719468) / 146097 = era at *
  generalize hd : doe - (365 * yoe + yoe / 4 - yoe / 100) = doy at *
  generalize hmp : (5 * doy + 2) / 153 = mp at *
  have hmonth : 0 ≤ mp ∧ mp ≤ 11 := by omega
  have hday : 0 ≤ doy - (153 * mp + 2) / 5 ∧ doy - (153 * mp + 2) / 5 ≤ 30 := by omega
  have hleap : (yoe + era * 400) / 4 = yoe / 4 + 100 * era := by omega
  have hcommon : (yoe + era * 400) / 100 = yoe / 100 + 4 * era := by omega
  have hfull : (yoe + era * 400) / 400 = era := by omega
  by_cases h10 : mp < 10
  · have h2 : ¬ mp + 3 ≤ 2 := by omega
    simp only [h10, h2, if_true, if_false, add_zero, add_sub_cancel_right, hleap, hcommon, hfull]
    omega
  · have h2 : mp - 9 ≤ 2 := by omega
    simp only [h10, h2, if_true, if_false, add_sub_cancel_right, sub_add_cancel, hleap, hcommon,
      hfull]
    omega

/-! ### Digits -/

def isDigit (c : CodeUnit) : Bool := 0x30 ≤ c && c ≤ 0x39

/-- Whether a text has a shape, in which `0` stands for any digit. -/
def hasShape (shape s : JsString) : Bool :=
  shape.length == s.length &&
    (shape.zip s).all fun p => if p.1 = 0x30 then isDigit p.2 else p.1 == p.2

def numberOfDigits (s : JsString) : ℤ := s.foldl (fun n c => 10 * n + ((c.toNat : ℤ) - 0x30)) 0

theorem readDecimal_eq (s : JsString) (i k : ℕ) :
    readDecimal s i k = numberOfDigits ((s.drop i).take k) := rfl

theorem digit_spec (n : ℤ) : isDigit (0x30 + (n % 10).toNat.toUInt16) = true ∧
    (((0x30 + (n % 10).toNat.toUInt16 : CodeUnit).toNat : ℤ) - 0x30) = n % 10 := by
  have hall : ∀ d : ℕ, d < 10 → isDigit (0x30 + d.toUInt16) = true ∧
      ((((0x30 : CodeUnit) + d.toUInt16).toNat : ℤ) - 0x30) = (d : ℤ) := by decide
  obtain ⟨hdigit, hvalue⟩ := hall (n % 10).toNat (by omega)
  exact ⟨hdigit, hvalue.trans (by omega)⟩

theorem decimal_succ (k : ℕ) (n : ℤ) :
    decimal (k + 1) n = decimal k (n / 10) ++ [0x30 + (n % 10).toNat.toUInt16] := by
  unfold decimal
  rw [List.range_succ, List.map_append, List.map_singleton]
  congr 1
  · refine List.map_congr_left fun i hi => ?_
    have hexp : k + 1 - 1 - i = (k - 1 - i) + 1 := by
      have := List.mem_range.mp hi
      omega
    rw [hexp, pow_succ', Int.ediv_ediv_of_nonneg (by decide)]
  · simp

theorem numberOfDigits_decimal (k : ℕ) : ∀ n : ℤ, numberOfDigits (decimal k n) = n % 10 ^ k := by
  induction k with
  | zero =>
    intro n
    rw [pow_zero, Int.emod_one]
    rfl
  | succ k ih =>
    intro n
    have hdigits : n % 10 ^ (k + 1) = 10 * (n / 10 % 10 ^ k) + n % 10 := by
      rw [pow_succ', Int.emod_def, Int.emod_def, Int.emod_def n 10,
        Int.ediv_ediv_of_nonneg (by decide)]
      ring
    rw [decimal_succ, numberOfDigits, List.foldl_append, List.foldl_cons, List.foldl_nil,
      (digit_spec n).2, hdigits, ← ih]
    rfl

theorem hasShape_append {a b c d : JsString} (h : hasShape a c = true) (h' : hasShape b d = true) :
    hasShape (a ++ b) (c ++ d) = true := by
  simp only [hasShape, Bool.and_eq_true, beq_iff_eq] at h h' ⊢
  rw [List.zip_append h.1, List.all_append, Bool.and_eq_true, List.length_append,
    List.length_append, h.1, h'.1]
  exact ⟨rfl, h.2, h'.2⟩

theorem hasShape_decimal (k : ℕ) : ∀ n, hasShape (List.replicate k 0x30) (decimal k n) = true := by
  induction k with
  | zero => exact fun _ => rfl
  | succ k ih =>
    intro n
    rw [decimal_succ, List.replicate_succ']
    refine hasShape_append (ih _) ?_
    simp only [hasShape, List.zip_cons_cons, List.zip_nil_right, List.all_cons, List.all_nil,
      if_true, (digit_spec n).1]
    rfl

/-! ### Date.parse -/

/-- How the engine reads a date that is not in the format of `toISOString`. -/
class DateFormats where
  parse : JsString → Option ℤ

/-- A time value, `none` for `NaN`. -/
def timeClip (ms : ℤ) : Option ℤ :=
  if -8640000000000000 ≤ ms ∧ ms ≤ 8640000000000000 then some ms else none

/-- `-MM-DDTHH:mm:ss.sssZ` behind a year. -/
def clockShape : JsString := utf16 "-00-00T00:00:00.000Z"

/-- The instant of a text of that shape in a year, `none` where there is no such time. -/
def readClock (year : ℤ) (s : JsString) : Option ℤ :=
  let month := readDecimal s 1 2
  let day := readDecimal s 4 2
  let hour := readDecimal s 7 2
  let minute := readDecimal s 10 2
  let second := readDecimal s 13 2
  if 1 ≤ month ∧ month ≤ 12 ∧ 1 ≤ day ∧ day ≤ 31 ∧ hour ≤ 23 ∧ minute ≤ 59 ∧ second ≤ 59 then
    timeClip (((daysUntil ⟨year, month, day⟩ * 86400 + hour * 3600 + minute * 60 + second) * 1000) +
      readDecimal s 16 3)
  else none

/-- The instant of a text in the format of `toISOString`. The year 0 has no minus sign. -/
def readISOString (s : JsString) : Option ℤ :=
  if hasShape (utf16 "0000" ++ clockShape) s then readClock (readDecimal s 0 4) (s.drop 4)
  else if hasShape (utf16 "+000000" ++ clockShape) s then readClock (readDecimal s 1 6) (s.drop 7)
  else if hasShape (utf16 "-000000" ++ clockShape) s ∧ readDecimal s 1 6 ≠ 0 then
    readClock (-readDecimal s 1 6) (s.drop 7)
  else none

/-- `Date.parse(s)`, `none` for `NaN`. -/
def dateParse [DateFormats] (s : JsString) : Option ℤ := (readISOString s).or (DateFormats.parse s)

def clockText (ms : ℤ) : JsString :=
  let date := civilDate (ms / 86400000)
  let time := ms % 86400000
  utf16 "-" ++ decimal 2 date.month ++ utf16 "-" ++ decimal 2 date.day ++
    utf16 "T" ++ decimal 2 (time / 3600000) ++ utf16 ":" ++ decimal 2 (time / 60000 % 60) ++
    utf16 ":" ++ decimal 2 (time / 1000 % 60) ++ utf16 "." ++ decimal 3 (time % 1000) ++ utf16 "Z"

theorem toISOString_eq (ms : ℤ) :
    toISOString ms = yearText (civilDate (ms / 86400000)).year ++ clockText ms := by
  simp only [toISOString, clockText, List.append_assoc]

theorem hasShape_field {a b : JsString} {mark : String} {k : ℕ} {n : ℤ} (h : hasShape a b = true)
    (hmark : hasShape (utf16 mark) (utf16 mark) = true) :
    hasShape (a ++ utf16 mark ++ List.replicate k 0x30) (b ++ utf16 mark ++ decimal k n) = true :=
  hasShape_append (hasShape_append h hmark) (hasShape_decimal k n)

theorem hasShape_clockText (ms : ℤ) : hasShape clockShape (clockText ms) = true := by
  have hparts : clockShape = utf16 "-" ++ List.replicate 2 0x30 ++ utf16 "-" ++
      List.replicate 2 0x30 ++ utf16 "T" ++ List.replicate 2 0x30 ++ utf16 ":" ++
      List.replicate 2 0x30 ++ utf16 ":" ++ List.replicate 2 0x30 ++ utf16 "." ++
      List.replicate 3 0x30 ++ utf16 "Z" := by decide
  have hmarks : ∀ mark ∈ ["-", "T", ":", ".", "Z"],
      hasShape (utf16 mark) (utf16 mark) = true := by decide
  simp only [List.forall_mem_cons] at hmarks
  obtain ⟨hdash, hT, hcolon, hdot, hZ, -⟩ := hmarks
  rw [hparts]
  exact hasShape_append (hasShape_field (hasShape_field (hasShape_field (hasShape_field
    (hasShape_field (hasShape_append hdash (hasShape_decimal 2 _)) hdash) hT) hcolon) hcolon)
    hdot) hZ

theorem readDecimal_append_left {a b : JsString} {i k : ℕ} (h : i + k ≤ a.length) :
    readDecimal (a ++ b) i k = readDecimal a i k := by
  have hdrop : k ≤ (a.drop i).length := by
    rw [List.length_drop]
    omega
  rw [readDecimal_eq, readDecimal_eq, List.drop_append_of_le_length (by omega),
    List.take_append_of_le_length hdrop]

theorem readDecimal_last {a : JsString} {i k : ℕ} (n : ℤ) (h : a.length = i) :
    readDecimal (a ++ decimal k n) i k = n % 10 ^ k := by
  rw [readDecimal_eq, List.drop_left' h, List.take_of_length_le (length_decimal k n).le,
    numberOfDigits_decimal]

theorem clockText_fields (ms : ℤ) :
    readDecimal (clockText ms) 1 2 = (civilDate (ms / 86400000)).month % 100 ∧
    readDecimal (clockText ms) 4 2 = (civilDate (ms / 86400000)).day % 100 ∧
    readDecimal (clockText ms) 7 2 = ms % 86400000 / 3600000 % 100 ∧
    readDecimal (clockText ms) 10 2 = ms % 86400000 / 60000 % 60 % 100 ∧
    readDecimal (clockText ms) 13 2 = ms % 86400000 / 1000 % 60 % 100 ∧
    readDecimal (clockText ms) 16 3 = ms % 86400000 % 1000 % 1000 := by
  have hmarks : (utf16 "-").length = 1 ∧ (utf16 "T").length = 1 ∧ (utf16 ":").length = 1 ∧
      (utf16 ".").length = 1 := by decide
  obtain ⟨hdash, hT, hcolon, hdot⟩ := hmarks
  -- a field is the last part of the text up to its end
  refine ⟨?_, ?_, ?_, ?_, ?_, ?_⟩
  all_goals
    simp (disch := simp [hdash, hT, hcolon, hdot, length_decimal]) only [clockText,
      readDecimal_append_left, readDecimal_last]
    rfl

theorem readClock_clockText {ms : ℤ} (h : timeClip ms = some ms) :
    readClock (civilDate (ms / 86400000)).year (clockText ms) = some ms := by
  obtain ⟨hmonth, hday, hhour, hminute, hsecond, hms⟩ := clockText_fields ms
  obtain ⟨hm1, hm12, hd1, hd31, hdays⟩ := civilDate_spec (ms / 86400000)
  have hmonth' : (civilDate (ms / 86400000)).month % 100 = (civilDate (ms / 86400000)).month := by
    omega
  have hday' : (civilDate (ms / 86400000)).day % 100 = (civilDate (ms / 86400000)).day := by omega
  unfold readClock
  simp only [hmonth, hday, hhour, hminute, hsecond, hms, hmonth', hday', hdays]
  rw [if_pos (by omega)]
  have hsum : (ms / 86400000 * 86400 + ms % 86400000 / 3600000 % 100 * 3600 +
      ms % 86400000 / 60000 % 60 % 100 * 60 + ms % 86400000 / 1000 % 60 % 100) * 1000 +
      ms % 86400000 % 1000 % 1000 = ms := by omega
  rw [hsum, h]

theorem civilDate_year (days : ℤ) : (days + 719468) / 146097 * 400 ≤ (civilDate days).year ∧
    (civilDate days).year ≤ (days + 719468) / 146097 * 400 + 400 := by
  obtain ⟨yoe, hyoe, h0, h400, -, -⟩ := yearOfEra
    (Int.emod_nonneg (days + 719468) (by decide : (146097 : ℤ) ≠ 0))
    (Int.emod_lt_of_pos (days + 719468) (by decide))
  simp only [civilDate, hyoe]
  split_ifs <;> omega

theorem timeClip_self {ms : ℤ} (h : timeClip ms ≠ none) : timeClip ms = some ms := by
  unfold timeClip at h ⊢
  split_ifs at h ⊢
  · rfl
  · exact absurd rfl h

theorem timeClip_bounds {ms : ℤ} (h : timeClip ms = some ms) :
    -8640000000000000 ≤ ms ∧ ms ≤ 8640000000000000 := by
  unfold timeClip at h
  split_ifs at h with hr
  exact hr

theorem hasShape_length {shape s : JsString} (h : hasShape shape s = true) :
    shape.length = s.length := by
  simp only [hasShape, Bool.and_eq_true, beq_iff_eq] at h
  exact h.1

/-- The digits between a sign, or nothing, and the rest of a text. -/
theorem readDecimal_between {sign : JsString} {i j k : ℕ} (n : ℤ) (rest : JsString)
    (h : sign.length = i) (hj : i + k = j) :
    readDecimal (sign ++ decimal k n ++ rest) i k = n % 10 ^ k ∧
      (sign ++ decimal k n ++ rest).drop j = rest := by
  constructor
  · rw [readDecimal_append_left (by rw [List.length_append, h, length_decimal]),
      readDecimal_last n h]
  · exact List.drop_left' (by rw [List.length_append, h, length_decimal, hj])

section Years
variable {year : ℤ} {clock : JsString} (hclock : hasShape clockShape clock = true)
include hclock

theorem readISOString_plain (h0 : 0 ≤ year) (h4 : year ≤ 9999) :
    readISOString (decimal 4 year ++ clock) = readClock year clock := by
  have hshape : hasShape (utf16 "0000" ++ clockShape) (decimal 4 year ++ clock) = true := by
    rw [(by decide : utf16 "0000" = List.replicate 4 0x30)]
    exact hasShape_append (hasShape_decimal 4 year) hclock
  have hnone : ([] : JsString).length = 0 := rfl
  have hbetween := readDecimal_between (k := 4) year clock hnone rfl
  rw [List.nil_append] at hbetween
  rw [readISOString, if_pos hshape, hbetween.1, hbetween.2, Int.emod_eq_of_lt h0 (by omega)]

theorem signed_not_plain {sign : JsString} (h : sign.length = 1) (n : ℤ) :
    ¬ hasShape (utf16 "0000" ++ clockShape) (sign ++ decimal 6 n ++ clock) = true := by
  intro hs
  have hlength := hasShape_length hs
  simp only [List.length_append, h, length_decimal, hasShape_length hclock] at hlength
  rw [(by decide : (utf16 "0000").length = 4)] at hlength
  omega

theorem readISOString_plus (h0 : 0 ≤ year) (h6 : year ≤ 999999) :
    readISOString (utf16 "+" ++ decimal 6 year ++ clock) = readClock year clock := by
  have hone : (utf16 "+").length = 1 := by decide
  have hshape : hasShape (utf16 "+000000" ++ clockShape) (utf16 "+" ++ decimal 6 year ++ clock) =
      true := by
    rw [(by decide : utf16 "+000000" = utf16 "+" ++ List.replicate 6 0x30)]
    exact hasShape_append (hasShape_append (by decide) (hasShape_decimal 6 year)) hclock
  have hbetween := readDecimal_between (k := 6) year clock hone rfl
  rw [readISOString, if_neg (signed_not_plain hclock hone year), if_pos hshape, hbetween.1,
    hbetween.2, Int.emod_eq_of_lt h0 (by omega)]

theorem readISOString_minus (h0 : year < 0) (h6 : -999999 ≤ year) :
    readISOString (utf16 "-" ++ decimal 6 (-year) ++ clock) = readClock year clock := by
  have hone : (utf16 "-").length = 1 := by decide
  have hother : ¬ hasShape (utf16 "+000000" ++ clockShape)
      (utf16 "-" ++ decimal 6 (-year) ++ clock) = true := by
    rw [(by decide : utf16 "+000000" = 0x2B :: List.replicate 6 0x30),
      (by decide : utf16 "-" = [0x2D])]
    simp [hasShape]
  have hshape : hasShape (utf16 "-000000" ++ clockShape)
      (utf16 "-" ++ decimal 6 (-year) ++ clock) = true := by
    rw [(by decide : utf16 "-000000" = utf16 "-" ++ List.replicate 6 0x30)]
    exact hasShape_append (hasShape_append (by decide) (hasShape_decimal 6 (-year))) hclock
  have hbetween := readDecimal_between (k := 6) (-year) clock hone rfl
  rw [Int.emod_eq_of_lt (by omega) (by omega)] at hbetween
  have hne : readDecimal (utf16 "-" ++ decimal 6 (-year) ++ clock) 1 6 ≠ 0 := by
    rw [hbetween.1]
    omega
  rw [readISOString, if_neg (signed_not_plain hclock hone (-year)), if_neg hother,
    if_pos ⟨hshape, hne⟩, hbetween.1, hbetween.2, neg_neg]

end Years

theorem readISOString_toISOString {ms : ℤ} (h : timeClip ms = some ms) :
    readISOString (toISOString ms) = some ms := by
  have hshape := hasShape_clockText ms
  obtain ⟨hlow, hhigh⟩ := civilDate_year (ms / 86400000)
  have hbounds := timeClip_bounds h
  rw [toISOString_eq, ← readClock_clockText h]
  unfold yearText
  by_cases h4 : 0 ≤ (civilDate (ms / 86400000)).year ∧ (civilDate (ms / 86400000)).year ≤ 9999
  · rw [if_pos h4, readISOString_plain hshape h4.1 h4.2]
  · rw [if_neg h4]
    by_cases h0 : 0 ≤ (civilDate (ms / 86400000)).year
    · rw [if_pos h0, readISOString_plus hshape h0 (by omega)]
    · rw [if_neg h0, readISOString_minus hshape (by omega) (by omega)]

/-- The concrete Postgres reads such a text as the instant, in microseconds. -/
theorem plainPostgres_timestamptz {ms : ℤ} (h : FourDigits ms) :
    plainPostgres.timestamptz (toISOString ms) = some (1000 * ms) := by
  obtain ⟨hmonth, hday, hhour, hminute, hsecond, hms⟩ := clockText_fields ms
  obtain ⟨hm1, hm12, hd1, hd31, hdays⟩ := civilDate_spec (ms / 86400000)
  have hlength := length_toISOString h
  obtain ⟨h1, h9⟩ := h
  have hyear : yearText (civilDate (ms / 86400000)).year =
      decimal 4 (civilDate (ms / 86400000)).year := if_pos ⟨by omega, h9⟩
  have hnone : ([] : JsString).length = 0 := rfl
  have hbetween := readDecimal_between (k := 4) (civilDate (ms / 86400000)).year (clockText ms)
    hnone rfl
  rw [List.nil_append, Int.emod_eq_of_lt (by omega) (by omega)] at hbetween
  have hbehind : ∀ i k, readDecimal (decimal 4 (civilDate (ms / 86400000)).year ++ clockText ms)
      (4 + i) k = readDecimal (clockText ms) i k := by
    intro i k
    rw [readDecimal_eq, readDecimal_eq, ← List.drop_drop, List.drop_left' (length_decimal 4 _)]
  have hdate : CivilDate.mk (civilDate (ms / 86400000)).year
      ((civilDate (ms / 86400000)).month % 100) ((civilDate (ms / 86400000)).day % 100) =
        civilDate (ms / 86400000) := by
    rw [Int.emod_eq_of_lt (by omega) (by omega), Int.emod_eq_of_lt (by omega) (by omega)]
  show readTimestamp (toISOString ms) = _
  rw [readTimestamp, if_pos hlength, toISOString_eq, hyear]
  simp only [hbetween.1, hbehind 1, hbehind 4, hbehind 7, hbehind 10, hbehind 13, hbehind 16,
    hmonth, hday, hhour, hminute, hsecond, hms, hdate, hdays, Option.some.injEq]
  omega

theorem dateParse_toISOString [DateFormats] {ms : ℤ} (h : timeClip ms = some ms) :
    dateParse (toISOString ms) = some ms := by
  rw [dateParse, readISOString_toISOString h]
  rfl

/-! ### The characters -/

/-- A digit or one of `+ - T : . Z`. -/
def isIsoChar (c : CodeUnit) : Bool :=
  isDigit c || c ∈ ([0x2B, 0x2D, 0x54, 0x3A, 0x2E, 0x5A] : JsString)

theorem isIsoChar_decimal (k : ℕ) : ∀ n, ∀ c ∈ decimal k n, isIsoChar c = true := by
  induction k with
  | zero => exact fun _ c hc => absurd hc List.not_mem_nil
  | succ k ih =>
    intro n c hc
    rw [decimal_succ] at hc
    rcases List.mem_append.mp hc with hc | hc
    · exact ih _ c hc
    · rw [List.mem_singleton.mp hc]
      rw [isIsoChar, (digit_spec n).1, Bool.true_or]

theorem isIsoChar_field {a mark : JsString} {k : ℕ} {n : ℤ} (h : ∀ c ∈ a, isIsoChar c = true)
    (hmark : ∀ c ∈ mark, isIsoChar c = true) :
    ∀ c ∈ a ++ mark ++ decimal k n, isIsoChar c = true :=
  List.forall_mem_append.mpr ⟨List.forall_mem_append.mpr ⟨h, hmark⟩, isIsoChar_decimal k n⟩

theorem toISOString_chars (ms : ℤ) : ∀ c ∈ toISOString ms, isIsoChar c = true := by
  have hmark : ∀ mark ∈ ["+", "-", "T", ":", ".", "Z"],
      ∀ c ∈ utf16 mark, isIsoChar c = true := by
    simp only [← List.all_eq_true]
    decide
  simp only [List.forall_mem_cons] at hmark
  obtain ⟨hplus, hdash, hT, hcolon, hdot, hZ, -⟩ := hmark
  have hyear : ∀ c ∈ yearText (civilDate (ms / 86400000)).year, isIsoChar c = true := by
    unfold yearText
    split_ifs
    · exact isIsoChar_decimal _ _
    · exact List.forall_mem_append.mpr ⟨hplus, isIsoChar_decimal _ _⟩
    · exact List.forall_mem_append.mpr ⟨hdash, isIsoChar_decimal _ _⟩
  exact List.forall_mem_append.mpr ⟨isIsoChar_field (isIsoChar_field (isIsoChar_field
    (isIsoChar_field (isIsoChar_field (isIsoChar_field hyear hdash) hdash) hT) hcolon) hcolon)
    hdot, hZ⟩

end GachaMind.User
