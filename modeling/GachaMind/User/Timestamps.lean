import GachaMind.User.Instants

/-!
# Timestamps of ISO 8601

The extended format: a date of the calendar, `T`, a time of day to the minute or to the second,
and a zone or none. `isTimestamp` reads a text character by character; it accepts the texts of
`Timestamp` and no others (`isTimestamp_iff`).
-/

namespace GachaMind.User
open GachaMind.Js GachaMind.Shared

/-! ### Shapes -/

/-- A number that `k` digits show. -/
def Fits (k : ℕ) (n : ℤ) : Prop := 0 ≤ n ∧ n < 10 ^ k

theorem numberOfDigits_decimal_of_fits {k : ℕ} {n : ℤ} (h : Fits k n) :
    numberOfDigits (decimal k n) = n := by
  rw [numberOfDigits_decimal, Int.emod_eq_of_lt h.1 h.2]

theorem decimal_numberOfDigits (s : JsString) (h : ∀ c ∈ s, isDigit c = true) :
    Fits s.length (numberOfDigits s) ∧ decimal s.length (numberOfDigits s) = s := by
  induction s using List.reverseRecOn with
  | nil => exact ⟨⟨le_rfl, by decide⟩, rfl⟩
  | append_singleton s c ih =>
    obtain ⟨⟨h0, hlt⟩, htext⟩ := ih fun d hd => h d (List.mem_append_left _ hd)
    have hc := h c (List.mem_append_right _ (List.mem_singleton_self c))
    simp only [isDigit, Bool.and_eq_true, decide_eq_true_eq, UInt16.le_iff_toNat_le,
      UInt16.reduceToNat] at hc
    have hlast : numberOfDigits (s ++ [c]) = 10 * numberOfDigits s + ((c.toNat : ℤ) - 0x30) := by
      rw [numberOfDigits, List.foldl_append]
      rfl
    have hdiv : (10 * numberOfDigits s + ((c.toNat : ℤ) - 0x30)) / 10 = numberOfDigits s := by
      omega
    have hmod : (10 * numberOfDigits s + ((c.toNat : ℤ) - 0x30)) % 10 = (c.toNat : ℤ) - 0x30 := by
      omega
    have hunit : (0x30 : CodeUnit) + ((c.toNat : ℤ) - 0x30).toNat.toUInt16 = c := by
      apply UInt16.toNat_inj.mp
      have hnat : ((c.toNat : ℤ) - 0x30).toNat = c.toNat - 0x30 := by omega
      rw [hnat]
      simp only [UInt16.toNat_add, UInt16.reduceToNat, Nat.toUInt16_eq, UInt16.toNat_ofNat']
      omega
    rw [hlast, List.length_append, List.length_singleton]
    constructor
    · constructor
      · omega
      · rw [pow_succ]
        omega
    · rw [decimal_succ, hdiv, hmod, htext, hunit]

theorem hasShape_append_iff {a b s : JsString} : hasShape (a ++ b) s = true ↔
    ∃ u v, s = u ++ v ∧ hasShape a u = true ∧ hasShape b v = true := by
  constructor
  · intro h
    simp only [hasShape, Bool.and_eq_true, beq_iff_eq, List.length_append] at h
    obtain ⟨hlength, hall⟩ := h
    have hfront : a.length = (s.take a.length).length := by
      rw [List.length_take]
      omega
    have hsplit := List.take_append_drop a.length s
    rw [← hsplit, List.zip_append hfront, List.all_append, Bool.and_eq_true] at hall
    refine ⟨_, _, hsplit.symm, ?_, ?_⟩
    · rw [hasShape, ← hfront, hall.1]
      simp
    · rw [hasShape, List.length_drop, hall.2, Bool.and_true, beq_iff_eq]
      omega
  · rintro ⟨u, v, rfl, ha, hb⟩
    exact hasShape_append ha hb

theorem hasShape_digits {k : ℕ} {s : JsString} :
    hasShape (List.replicate k 0x30) s = true ↔ ∃ n, Fits k n ∧ s = decimal k n := by
  constructor
  · intro h
    simp only [hasShape, Bool.and_eq_true, beq_iff_eq, List.length_replicate] at h
    obtain ⟨hlength, hall⟩ := h
    have hdigits : ∀ c ∈ s, isDigit c = true := by
      intro c hc
      obtain ⟨i, hi, rfl⟩ := List.getElem_of_mem hc
      have hzip := List.all_eq_true.mp hall (0x30, s[i])
        (List.mem_iff_getElem.mpr ⟨i, by simp [hlength, hi], by simp⟩)
      exact hzip
    obtain ⟨hfits, htext⟩ := decimal_numberOfDigits s hdigits
    rw [hlength]
    exact ⟨_, hfits, htext.symm⟩
  · rintro ⟨n, -, rfl⟩
    exact hasShape_decimal k n

theorem hasShape_mark {c : CodeUnit} {s : JsString} (hc : c ≠ 0x30) :
    hasShape [c] s = true ↔ s = [c] := by
  cases s with
  | nil => simp [hasShape]
  | cons d s =>
    cases s with
    | nil =>
      simp only [hasShape, List.zip_cons_cons, List.zip_nil_right, List.all_cons, List.all_nil,
        if_neg hc, List.length_singleton, beq_self_eq_true, Bool.true_and, Bool.and_true,
        beq_iff_eq, List.cons.injEq, and_true]
      exact eq_comm
    | cons e s => simp [hasShape]

/-- Two numbers of two digits with a colon between them. -/
theorem hasShape_clock {s : JsString} : hasShape (utf16 "00:00") s = true ↔
    ∃ a b, Fits 2 a ∧ Fits 2 b ∧ s = decimal 2 a ++ utf16 ":" ++ decimal 2 b := by
  rw [(by decide : utf16 "00:00" = List.replicate 2 0x30 ++ [0x3A] ++ List.replicate 2 0x30),
    (by decide : utf16 ":" = [0x3A])]
  simp only [hasShape_append_iff, hasShape_digits, hasShape_mark (c := 0x3A) (by decide)]
  constructor
  · rintro ⟨_, _, rfl, ⟨_, _, rfl, ⟨a, ha, rfl⟩, rfl⟩, b, hb, rfl⟩
    exact ⟨a, b, ha, hb, rfl⟩
  · rintro ⟨a, b, ha, hb, rfl⟩
    exact ⟨_, _, rfl, ⟨_, _, rfl, ⟨a, ha, rfl⟩, rfl⟩, b, hb, rfl⟩

/-! ### Dates -/

def dateText (date : CivilDate) : JsString :=
  decimal 4 date.year ++ utf16 "-" ++ decimal 2 date.month ++ utf16 "-" ++ decimal 2 date.day

def dateOf (s : JsString) : CivilDate := ⟨readDecimal s 0 4, readDecimal s 5 2, readDecimal s 8 2⟩

/-- A day of the calendar, which Postgres counts from the year 1, in a year of four digits. -/
def CivilDate.IsDay (date : CivilDate) : Prop :=
  1 ≤ date.year ∧ date.year ≤ 9999 ∧ civilDate (daysUntil date) = date

def isCalendarDate (s : JsString) : Bool :=
  hasShape (utf16 "0000-00-00") s && decide (1 ≤ (dateOf s).year) &&
    decide (civilDate (daysUntil (dateOf s)) = dateOf s)

theorem length_dateText (date : CivilDate) : (dateText date).length = 10 := by
  simp only [dateText, List.length_append, length_decimal, (by decide : (utf16 "-").length = 1)]

theorem dateOf_dateText {date : CivilDate} (hy : Fits 4 date.year) (hm : Fits 2 date.month)
    (hd : Fits 2 date.day) : dateOf (dateText date) = date := by
  rw [dateText, (by decide : utf16 "-" = [0x2D])]
  show CivilDate.mk (numberOfDigits (decimal 4 date.year)) (numberOfDigits (decimal 2 date.month))
    (numberOfDigits (decimal 2 date.day)) = date
  rw [numberOfDigits_decimal_of_fits hy, numberOfDigits_decimal_of_fits hm,
    numberOfDigits_decimal_of_fits hd]

theorem hasShape_date {s : JsString} : hasShape (utf16 "0000-00-00") s = true ↔
    ∃ date : CivilDate, Fits 4 date.year ∧ Fits 2 date.month ∧ Fits 2 date.day ∧
      s = dateText date := by
  unfold dateText
  rw [(by decide : utf16 "0000-00-00" = List.replicate 4 0x30 ++ [0x2D] ++
    List.replicate 2 0x30 ++ [0x2D] ++ List.replicate 2 0x30), (by decide : utf16 "-" = [0x2D])]
  simp only [hasShape_append_iff, hasShape_digits, hasShape_mark (c := 0x2D) (by decide)]
  constructor
  · rintro ⟨_, _, rfl, ⟨_, _, rfl, ⟨_, _, rfl, ⟨_, _, rfl, ⟨y, hy, rfl⟩, rfl⟩, m, hm, rfl⟩, rfl⟩,
      d, hd, rfl⟩
    exact ⟨⟨y, m, d⟩, hy, hm, hd, rfl⟩
  · rintro ⟨date, hy, hm, hd, rfl⟩
    exact ⟨_, _, rfl, ⟨_, _, rfl, ⟨_, _, rfl, ⟨_, _, rfl, ⟨_, hy, rfl⟩, rfl⟩, _, hm, rfl⟩, rfl⟩,
      _, hd, rfl⟩

theorem isCalendarDate_iff {s : JsString} :
    isCalendarDate s = true ↔ ∃ date : CivilDate, date.IsDay ∧ s = dateText date := by
  simp only [isCalendarDate, Bool.and_eq_true, decide_eq_true_eq]
  constructor
  · rintro ⟨⟨hshape, hyear⟩, hday⟩
    obtain ⟨date, hy, hm, hd, rfl⟩ := hasShape_date.mp hshape
    rw [dateOf_dateText hy hm hd] at hyear hday
    have hlast := hy.2
    exact ⟨date, ⟨hyear, by omega, hday⟩, rfl⟩
  · rintro ⟨date, ⟨hyear, hlast, hday⟩, rfl⟩
    obtain ⟨hm1, hm12, hd1, hd31, -⟩ := civilDate_spec (daysUntil date)
    rw [hday] at hm1 hm12 hd1 hd31
    have hy : Fits 4 date.year := ⟨by omega, by omega⟩
    have hm : Fits 2 date.month := ⟨by omega, by omega⟩
    have hd : Fits 2 date.day := ⟨by omega, by omega⟩
    rw [dateOf_dateText hy hm hd]
    exact ⟨⟨hasShape_date.mpr ⟨date, hy, hm, hd, rfl⟩, hyear⟩, hday⟩

/-! ### Times of day -/

/-- The whole seconds and the digits of a fraction, if there is one. -/
abbrev Seconds := ℤ × JsString

/-- A minute of the day and a second of it, no more than 60 in a leap second. The day ends at
24:00. -/
structure InDay (hour minute : ℤ) (seconds : Option Seconds) : Prop where
  hour_nonneg : 0 ≤ hour
  minute_nonneg : 0 ≤ minute
  minute_le : minute ≤ 59
  second : ∀ s ∈ seconds, 0 ≤ s.1 ∧ s.1 ≤ 60 ∧ ∀ c ∈ s.2, isDigit c = true
  leap : ∀ s ∈ seconds, s.1 = 60 → ∀ c ∈ s.2, c = 0x30
  ends : hour ≤ 23 ∨ hour = 24 ∧ minute = 0 ∧ ∀ s ∈ seconds, s.1 = 0 ∧ ∀ c ∈ s.2, c = 0x30

def fractionText (fraction : JsString) : JsString :=
  if fraction = [] then [] else utf16 "." ++ fraction

def secondsText : Option Seconds → JsString
  | none => []
  | some seconds => utf16 ":" ++ decimal 2 seconds.1 ++ fractionText seconds.2

/-- The digits of a fraction, and what follows it. -/
def readFraction : JsString → JsString × JsString
  | 0x2E :: d :: rest =>
    if isDigit d then ((d :: rest).takeWhile isDigit, (d :: rest).dropWhile isDigit)
    else ([], 0x2E :: d :: rest)
  | s => ([], s)

def readSeconds (s : JsString) : Option Seconds × JsString :=
  if hasShape (utf16 ":00") (s.take 3) then
    (some (readDecimal s 1 2, (readFraction (s.drop 3)).1), (readFraction (s.drop 3)).2)
  else (none, s)

theorem inDay_iff {hour minute : ℤ} {seconds : Option Seconds} : InDay hour minute seconds ↔
    ((0 ≤ hour ∧ 0 ≤ minute) ∧ minute ≤ 59) ∧
      (∀ s ∈ seconds, (0 ≤ s.1 ∧ s.1 ≤ 60) ∧ s.2.all isDigit = true) ∧
      (∀ s ∈ seconds, s.1 = 60 → s.2.all (fun c => c == 0x30) = true) ∧
      (hour ≤ 23 ∨ hour = 24 ∧ minute = 0 ∧
        ∀ s ∈ seconds, s.1 = 0 ∧ s.2.all (fun c => c == 0x30) = true) := by
  simp only [List.all_eq_true, beq_iff_eq, and_assoc]
  constructor
  · rintro ⟨hhour, hminute, hle, hsecond, hleap, hends⟩
    exact ⟨hhour, hminute, hle, hsecond, hleap, hends⟩
  · rintro ⟨hhour, hminute, hle, hsecond, hleap, hends⟩
    exact ⟨hhour, hminute, hle, hsecond, hleap, hends⟩

instance (hour minute : ℤ) (seconds : Option Seconds) : Decidable (InDay hour minute seconds) :=
  decidable_of_iff' _ inDay_iff

theorem readFraction_append (s : JsString) :
    s = fractionText (readFraction s).1 ++ (readFraction s).2 ∧
      ∀ c ∈ (readFraction s).1, isDigit c = true := by
  unfold readFraction
  split
  case h_1 d rest =>
    split_ifs with hd
    · have hne : (d :: rest).takeWhile isDigit ≠ [] := by
        rw [List.takeWhile_cons_of_pos hd]
        exact List.cons_ne_nil _ _
      rw [fractionText, if_neg hne, (by decide : utf16 "." = [0x2E]), List.append_assoc,
        List.takeWhile_append_dropWhile]
      exact ⟨rfl, fun c hc => List.mem_takeWhile_imp hc⟩
    · exact ⟨rfl, fun c hc => (by cases hc)⟩
  case h_2 => exact ⟨rfl, fun c hc => (by cases hc)⟩

/-- Where the digits of a time of day end. -/
def EndsDigits (rest : JsString) : Prop :=
  ∀ c ∈ rest.head?, isDigit c = false ∧ c ≠ 0x2E ∧ c ≠ 0x3A

theorem readFraction_fractionText {fraction rest : JsString}
    (hdigits : ∀ c ∈ fraction, isDigit c = true) (hrest : EndsDigits rest) :
    readFraction (fractionText fraction ++ rest) = (fraction, rest) := by
  cases fraction with
  | nil =>
    rw [fractionText, if_pos rfl, List.nil_append]
    unfold readFraction
    split
    case h_1 => exact absurd rfl (hrest 0x2E rfl).2.1
    case h_2 => rfl
  | cons d fraction =>
    have hd := hdigits d List.mem_cons_self
    have hstop : rest.takeWhile isDigit = [] ∧ rest.dropWhile isDigit = rest := by
      cases rest with
      | nil => exact ⟨rfl, rfl⟩
      | cons c rest =>
        have hc := (hrest c rfl).1
        exact ⟨List.takeWhile_cons_of_neg (by simp [hc]), List.dropWhile_cons_of_neg (by simp [hc])⟩
    rw [fractionText, if_neg (List.cons_ne_nil _ _), (by decide : utf16 "." = [0x2E])]
    show (if isDigit d then ((d :: (fraction ++ rest)).takeWhile isDigit,
      (d :: (fraction ++ rest)).dropWhile isDigit) else _) = _
    rw [if_pos hd, ← List.cons_append, List.takeWhile_append_of_pos hdigits,
      List.dropWhile_append_of_pos hdigits, hstop.1, hstop.2, List.append_nil]

theorem hasShape_seconds {s : JsString} : hasShape (utf16 ":00") s = true ↔
    ∃ n, Fits 2 n ∧ s = utf16 ":" ++ decimal 2 n := by
  rw [(by decide : utf16 ":00" = [0x3A] ++ List.replicate 2 0x30),
    (by decide : utf16 ":" = [0x3A])]
  simp only [hasShape_append_iff, hasShape_digits, hasShape_mark (c := 0x3A) (by decide)]
  constructor
  · rintro ⟨_, _, rfl, rfl, n, hn, rfl⟩
    exact ⟨n, hn, rfl⟩
  · rintro ⟨n, hn, rfl⟩
    exact ⟨_, _, rfl, rfl, n, hn, rfl⟩

theorem readSeconds_append (s : JsString) :
    s = secondsText (readSeconds s).1 ++ (readSeconds s).2 := by
  rw [readSeconds]
  split_ifs with hshape
  · obtain ⟨n, hn, htake⟩ := hasShape_seconds.mp hshape
    have hvalue : readDecimal s 1 2 = n := by
      have hdigits : (s.drop 1).take 2 = decimal 2 n := by
        rw [List.take_drop, htake, (by decide : utf16 ":" = [0x3A])]
        rfl
      rw [readDecimal_eq, hdigits, numberOfDigits_decimal_of_fits hn]
    show s = utf16 ":" ++ decimal 2 (readDecimal s 1 2) ++
      fractionText (readFraction (s.drop 3)).1 ++ (readFraction (s.drop 3)).2
    rw [hvalue, ← htake, List.append_assoc, ← (readFraction_append (s.drop 3)).1,
      List.take_append_drop]
  · rfl

theorem readSeconds_secondsText {seconds : Option Seconds} {rest : JsString}
    (hseconds : ∀ s ∈ seconds, Fits 2 s.1 ∧ ∀ c ∈ s.2, isDigit c = true)
    (hrest : EndsDigits rest) : readSeconds (secondsText seconds ++ rest) = (seconds, rest) := by
  cases seconds with
  | none =>
    have hshape : ¬hasShape (utf16 ":00") (rest.take 3) = true := by
      intro hshape
      obtain ⟨n, -, htake⟩ := hasShape_seconds.mp hshape
      cases rest with
      | nil => cases htake
      | cons c rest =>
        rw [(by decide : utf16 ":" = [0x3A])] at htake
        exact (hrest c rfl).2.2 (List.cons.inj htake).1
    rw [secondsText, List.nil_append, readSeconds, if_neg hshape]
  | some seconds =>
    obtain ⟨hfits, hdigits⟩ := hseconds seconds rfl
    have hlength : (utf16 ":" ++ decimal 2 seconds.1).length = 3 := by
      rw [List.length_append, length_decimal]
      decide
    have htext : secondsText (some seconds) ++ rest =
        (utf16 ":" ++ decimal 2 seconds.1) ++ (fractionText seconds.2 ++ rest) :=
      List.append_assoc _ _ _
    have hvalue : readDecimal ((utf16 ":" ++ decimal 2 seconds.1) ++
        (fractionText seconds.2 ++ rest)) 1 2 = seconds.1 := by
      rw [readDecimal_append_left hlength.ge, readDecimal_last _ (by decide),
        Int.emod_eq_of_lt hfits.1 hfits.2]
    rw [htext, readSeconds, List.take_left' hlength, List.drop_left' hlength, hvalue,
      readFraction_fractionText hdigits hrest, if_pos (hasShape_seconds.mpr ⟨_, hfits, rfl⟩)]

/-! ### Zones -/

/-- Local time, UTC, or an offset from UTC in hours or in hours and minutes. -/
inductive Zone where
  | unstated
  | utc
  | hours (west : Bool) (hour : ℤ)
  | minutes (west : Bool) (hour minute : ℤ)

def signText (west : Bool) : JsString := if west then utf16 "-" else utf16 "+"

def Zone.text : Zone → JsString
  | .unstated => []
  | .utc => utf16 "Z"
  | .hours west hour => signText west ++ decimal 2 hour
  | .minutes west hour minute => signText west ++ (decimal 2 hour ++ utf16 ":" ++ decimal 2 minute)

/-- Offsets of less than sixteen hours, as Postgres takes them. -/
def Zone.InRange : Zone → Prop
  | .unstated => True
  | .utc => True
  | .hours _ hour => 0 ≤ hour ∧ hour ≤ 15
  | .minutes _ hour minute => (0 ≤ hour ∧ hour ≤ 15) ∧ 0 ≤ minute ∧ minute ≤ 59

def isOffset (s : JsString) : Bool :=
  (hasShape (utf16 "00") s || hasShape (utf16 "00:00") s && decide (readDecimal s 3 2 ≤ 59)) &&
    decide (readDecimal s 0 2 ≤ 15)

def isZone : JsString → Bool
  | [] => true
  | c :: s => c == 0x5A && s.isEmpty || (c == 0x2B || c == 0x2D) && isOffset s

theorem clock_fields {a b : ℤ} (ha : Fits 2 a) (hb : Fits 2 b) :
    readDecimal (decimal 2 a ++ utf16 ":" ++ decimal 2 b) 0 2 = a ∧
      readDecimal (decimal 2 a ++ utf16 ":" ++ decimal 2 b) 3 2 = b := by
  have hlength : (decimal 2 a ++ utf16 ":").length = 3 := by
    rw [List.length_append, length_decimal]
    decide
  constructor
  · rw [List.append_assoc, readDecimal_append_left (by rw [length_decimal]), readDecimal_eq,
      List.drop_zero, List.take_of_length_le (length_decimal 2 a).le,
      numberOfDigits_decimal_of_fits ha]
  · rw [readDecimal_last _ hlength, Int.emod_eq_of_lt hb.1 hb.2]

theorem hasShape_hour {s : JsString} :
    hasShape (utf16 "00") s = true ↔ ∃ n, Fits 2 n ∧ s = decimal 2 n := by
  rw [(by decide : utf16 "00" = List.replicate 2 0x30), hasShape_digits]

theorem hour_field {n : ℤ} (hn : Fits 2 n) : readDecimal (decimal 2 n) 0 2 = n := by
  rw [readDecimal_eq, List.drop_zero, List.take_of_length_le (length_decimal 2 n).le,
    numberOfDigits_decimal_of_fits hn]

theorem isOffset_iff {s : JsString} : isOffset s = true ↔
    ∃ hour, (0 ≤ hour ∧ hour ≤ 15) ∧ (s = decimal 2 hour ∨
      ∃ minute, (0 ≤ minute ∧ minute ≤ 59) ∧
        s = decimal 2 hour ++ utf16 ":" ++ decimal 2 minute) := by
  simp only [isOffset, Bool.and_eq_true, Bool.or_eq_true, decide_eq_true_eq]
  constructor
  · rintro ⟨hhour | ⟨hclock, hminute⟩, hle⟩
    · obtain ⟨hour, hfits, rfl⟩ := hasShape_hour.mp hhour
      rw [hour_field hfits] at hle
      exact ⟨hour, ⟨hfits.1, hle⟩, .inl rfl⟩
    · obtain ⟨hour, minute, hfits, hfits', rfl⟩ := hasShape_clock.mp hclock
      rw [(clock_fields hfits hfits').1] at hle
      rw [(clock_fields hfits hfits').2] at hminute
      exact ⟨hour, ⟨hfits.1, hle⟩, .inr ⟨minute, ⟨hfits'.1, hminute⟩, rfl⟩⟩
  · rintro ⟨hour, ⟨h0, h15⟩, htext⟩
    have hfits : Fits 2 hour := ⟨h0, by omega⟩
    rcases htext with rfl | ⟨minute, ⟨hm0, hm59⟩, rfl⟩
    · rw [hour_field hfits]
      exact ⟨.inl (hasShape_hour.mpr ⟨hour, hfits, rfl⟩), h15⟩
    · have hfits' : Fits 2 minute := ⟨hm0, by omega⟩
      rw [(clock_fields hfits hfits').1, (clock_fields hfits hfits').2]
      exact ⟨.inr ⟨hasShape_clock.mpr ⟨hour, minute, hfits, hfits', rfl⟩, hm59⟩, h15⟩

theorem isZone_iff {s : JsString} :
    isZone s = true ↔ ∃ zone : Zone, zone.InRange ∧ s = zone.text := by
  have hsigns : signText true = [0x2D] ∧ signText false = [0x2B] := by decide
  constructor
  · intro h
    cases s with
    | nil => exact ⟨.unstated, trivial, rfl⟩
    | cons c s =>
      simp only [isZone, Bool.or_eq_true, Bool.and_eq_true, beq_iff_eq, List.isEmpty_iff] at h
      rcases h with ⟨rfl, rfl⟩ | ⟨hsign, hoffset⟩
      · exact ⟨.utc, trivial, by decide⟩
      · obtain ⟨west, hwest⟩ : ∃ west, signText west = [c] := by
          rcases hsign with rfl | rfl
          · exact ⟨false, hsigns.2⟩
          · exact ⟨true, hsigns.1⟩
        have htext : c :: s = signText west ++ s := by rw [hwest, List.singleton_append]
        obtain ⟨hour, hrange, rfl | ⟨minute, hrange', rfl⟩⟩ := isOffset_iff.mp hoffset
        · exact ⟨.hours west hour, hrange, htext⟩
        · exact ⟨.minutes west hour minute, ⟨hrange, hrange'⟩, htext⟩
  · have hoffset : ∀ {west s}, isOffset s = true → isZone (signText west ++ s) = true := by
      intro west s h
      cases west with
      | true =>
        rw [hsigns.1]
        simp [isZone, h]
      | false =>
        rw [hsigns.2]
        simp [isZone, h]
    rintro ⟨zone, hrange, rfl⟩
    cases zone with
    | unstated => rfl
    | utc => decide
    | hours west hour => exact hoffset (isOffset_iff.mpr ⟨hour, hrange, .inl rfl⟩)
    | minutes west hour minute =>
      exact hoffset (isOffset_iff.mpr ⟨hour, hrange.1, .inr ⟨minute, hrange.2, rfl⟩⟩)

theorem Zone.endsDigits (zone : Zone) : EndsDigits zone.text := by
  have hfirst : ∀ (c : CodeUnit) (rest : JsString), c ∈ [0x5A, 0x2B, 0x2D] →
      EndsDigits (c :: rest) := by
    intro c rest hc d hd
    obtain rfl := Option.some.inj hd
    fin_cases hc <;> decide
  have hsign : ∀ (west : Bool) (rest : JsString), EndsDigits (signText west ++ rest) := by
    intro west rest
    cases west with
    | true => exact hfirst 0x2D rest (by decide)
    | false => exact hfirst 0x2B rest (by decide)
  cases zone with
  | unstated => exact fun c hc => (by cases hc)
  | utc => exact hfirst 0x5A [] (by decide)
  | hours west hour => exact hsign west _
  | minutes west hour minute => exact hsign west _

/-! ### Timestamps -/

structure Timestamp where
  date : CivilDate
  hour : ℤ
  minute : ℤ
  seconds : Option Seconds
  zone : Zone
  is_day : date.IsDay
  in_day : InDay hour minute seconds
  in_range : zone.InRange

def Timestamp.text (t : Timestamp) : JsString :=
  dateText t.date ++ utf16 "T" ++ (decimal 2 t.hour ++ utf16 ":" ++ decimal 2 t.minute) ++
    (secondsText t.seconds ++ t.zone.text)

/-- What stands behind the minutes. -/
def isClock (hour minute : ℤ) (s : JsString) : Bool :=
  decide (InDay hour minute (readSeconds s).1) && isZone (readSeconds s).2

def isTimestamp (s : JsString) : Bool :=
  isCalendarDate (s.take 10) && s[10]? == some 0x54 &&
    hasShape (utf16 "00:00") ((s.drop 11).take 5) &&
    isClock (readDecimal ((s.drop 11).take 5) 0 2) (readDecimal ((s.drop 11).take 5) 3 2)
      (s.drop 16)

theorem InDay.fits {hour minute : ℤ} {seconds : Option Seconds} (h : InDay hour minute seconds) :
    Fits 2 hour ∧ Fits 2 minute ∧
      ∀ s ∈ seconds, Fits 2 s.1 ∧ ∀ c ∈ s.2, isDigit c = true := by
  have hminute := h.minute_le
  have hhour : hour ≤ 24 := by
    rcases h.ends with hle | ⟨heq, -⟩
    all_goals omega
  refine ⟨⟨h.hour_nonneg, by omega⟩, ⟨h.minute_nonneg, by omega⟩, ?_⟩
  intro s hs
  obtain ⟨h0, h60, hdigits⟩ := h.second s hs
  exact ⟨⟨h0, by omega⟩, hdigits⟩

theorem isClock_iff {hour minute : ℤ} {s : JsString} : isClock hour minute s = true ↔
    ∃ seconds, ∃ zone : Zone, InDay hour minute seconds ∧ zone.InRange ∧
      s = secondsText seconds ++ zone.text := by
  rw [isClock, Bool.and_eq_true, decide_eq_true_eq, isZone_iff]
  constructor
  · rintro ⟨hday, zone, hrange, hzone⟩
    have htext := readSeconds_append s
    rw [hzone] at htext
    exact ⟨_, zone, hday, hrange, htext⟩
  · rintro ⟨seconds, zone, hday, hrange, rfl⟩
    rw [readSeconds_secondsText hday.fits.2.2 zone.endsDigits]
    exact ⟨hday, zone, hrange, rfl⟩

/-- The reader accepts the texts of timestamps and no others. -/
theorem isTimestamp_iff {s : JsString} : isTimestamp s = true ↔ ∃ t : Timestamp, s = t.text := by
  simp only [isTimestamp, Bool.and_eq_true, beq_iff_eq]
  constructor
  · rintro ⟨⟨⟨hdate, hmark⟩, hshape⟩, hclock⟩
    obtain ⟨date, hday, hdate⟩ := isCalendarDate_iff.mp hdate
    obtain ⟨hour, minute, hhour, hminute, htime⟩ := hasShape_clock.mp hshape
    rw [htime, (clock_fields hhour hminute).1, (clock_fields hhour hminute).2] at hclock
    obtain ⟨seconds, zone, hinday, hrange, hrest⟩ := isClock_iff.mp hclock
    refine ⟨⟨date, hour, minute, seconds, zone, hday, hinday, hrange⟩, ?_⟩
    have htail : s.drop 10 = utf16 "T" ++ s.drop 11 := by
      rw [(by decide : utf16 "T" = [0x54]), List.singleton_append]
      obtain ⟨hlt, hget⟩ := List.getElem?_eq_some_iff.mp hmark
      rw [List.drop_eq_getElem_cons hlt, hget]
    have hdrop : s.drop 16 = (s.drop 11).drop 5 := by rw [List.drop_drop]
    show s = dateText date ++ utf16 "T" ++ (decimal 2 hour ++ utf16 ":" ++ decimal 2 minute) ++
      (secondsText seconds ++ zone.text)
    rw [← hrest, ← htime, ← hdate, hdrop, List.append_assoc, List.append_assoc,
      List.take_append_drop, ← htail, List.take_append_drop]
  · rintro ⟨t, rfl⟩
    obtain ⟨hhour, hminute, -⟩ := t.in_day.fits
    have hfront : (dateText t.date ++ utf16 "T").length = 11 := by
      rw [List.length_append, length_dateText]
      decide
    have hclock : (decimal 2 t.hour ++ utf16 ":" ++ decimal 2 t.minute).length = 5 := by
      rw [List.length_append, List.length_append, length_decimal, length_decimal]
      decide
    have hdate : t.text.take 10 = dateText t.date := by
      rw [Timestamp.text, List.append_assoc, List.append_assoc, List.take_left' (length_dateText _)]
    have hmark : t.text[10]? = some 0x54 := by
      rw [Timestamp.text, List.append_assoc, List.append_assoc,
        List.getElem?_append_right (length_dateText _).le, length_dateText]
      rfl
    have hrest : t.text.drop 11 = (decimal 2 t.hour ++ utf16 ":" ++ decimal 2 t.minute) ++
        (secondsText t.seconds ++ t.zone.text) := by
      rw [Timestamp.text, List.append_assoc, List.drop_left' hfront]
    have hlast : t.text.drop 16 = (t.text.drop 11).drop 5 := by rw [List.drop_drop]
    rw [hdate, hlast, hrest, List.take_left' hclock, List.drop_left' hclock,
      (clock_fields hhour hminute).1, (clock_fields hhour hminute).2]
    refine ⟨⟨⟨?_, hmark⟩, ?_⟩, ?_⟩
    · exact isCalendarDate_iff.mpr ⟨t.date, t.is_day, rfl⟩
    · exact hasShape_clock.mpr ⟨t.hour, t.minute, hhour, hminute, rfl⟩
    · exact isClock_iff.mpr ⟨t.seconds, t.zone, t.in_day, t.in_range, rfl⟩

example : isTimestamp (utf16 "2024-02-29T23:59:59.123456+09:00") = true ∧
    isTimestamp (utf16 "2026-01-01T00:00Z") = true ∧
    isTimestamp (utf16 "2026-01-01T24:00:00.0") = true ∧
    isTimestamp (utf16 "2023-02-29T23:59:59Z") = false ∧
    isTimestamp (utf16 "2026-01-01T23:59:60.5Z") = false ∧
    isTimestamp (utf16 "2026-01-01T24:00:01Z") = false := by decide +kernel

end GachaMind.User
