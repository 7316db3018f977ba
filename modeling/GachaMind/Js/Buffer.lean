import GachaMind.Js

/-!
# Strings as bytes

UTF-8 as `Buffer` and the streams of Node write and read strings: a surrogate without its partner
is written as U+FFFD, bytes that are no character are read as U+FFFD. base64url, as `Buffer` writes
and reads it.
-/

namespace GachaMind.Js

def isHighSurrogate (c : CodeUnit) : Bool := 0xD800 ≤ c && c ≤ 0xDBFF

def isLowSurrogate (c : CodeUnit) : Bool := 0xDC00 ≤ c && c ≤ 0xDFFF

def replacement : Char := Char.ofNat 0xFFFD

def codePoints : JsString → List Char
  | [] => []
  | [c] => [if isHighSurrogate c || isLowSurrogate c then replacement else Char.ofNat c.toNat]
  | c :: d :: rest =>
    if isHighSurrogate c then
      if isLowSurrogate d then
        Char.ofNat (0x10000 + (c.toNat - 0xD800) * 0x400 + (d.toNat - 0xDC00)) :: codePoints rest
      else replacement :: codePoints (d :: rest)
    else if isLowSurrogate c then replacement :: codePoints (d :: rest)
    else Char.ofNat c.toNat :: codePoints (d :: rest)

def utf8 (s : JsString) : List UInt8 := (codePoints s).flatMap String.utf8EncodeChar

example : utf8 (utf16 "사😀") = [0xEC, 0x82, 0xAC, 0xF0, 0x9F, 0x98, 0x80] ∧
    utf8 [0xD800] = [0xEF, 0xBF, 0xBD] := by decide +kernel

/-! ### Bytes as text -/

/-- A character whose first bytes have been read: its value so far, the number of bytes to come,
and where the next one lies. -/
structure PartialChar where
  point : ℕ
  needed : ℕ
  lower : UInt8
  upper : UInt8
  deriving DecidableEq

def leadByte (b : UInt8) : List Char × Option PartialChar :=
  if b < 0x80 then ([Char.ofNat b.toNat], none)
  else if 0xC2 ≤ b ∧ b ≤ 0xDF then ([], some ⟨b.toNat - 0xC0, 1, 0x80, 0xBF⟩)
  else if 0xE0 ≤ b ∧ b ≤ 0xEF then
    ([], some ⟨b.toNat - 0xE0, 2, if b = 0xE0 then 0xA0 else 0x80, if b = 0xED then 0x9F else 0xBF⟩)
  else if 0xF0 ≤ b ∧ b ≤ 0xF4 then
    ([], some ⟨b.toNat - 0xF0, 3, if b = 0xF0 then 0x90 else 0x80, if b = 0xF4 then 0x8F else 0xBF⟩)
  else ([replacement], none)

/-- The characters of UTF-8. What starts a character and is not one becomes one U+FFFD. -/
def utf8Chars : Option PartialChar → List UInt8 → List Char
  | none, [] => []
  | some _, [] => [replacement]
  | none, b :: bytes => (leadByte b).1 ++ utf8Chars (leadByte b).2 bytes
  | some p, b :: bytes =>
    if p.lower ≤ b ∧ b ≤ p.upper then
      let point := p.point * 64 + (b.toNat - 0x80)
      if p.needed = 1 then Char.ofNat point :: utf8Chars none bytes
      else utf8Chars (some ⟨point, p.needed - 1, 0x80, 0xBF⟩) bytes
    else replacement :: (leadByte b).1 ++ utf8Chars (leadByte b).2 bytes

/-- `bytes.toString("utf8")`. -/
def fromUtf8 (bytes : List UInt8) : JsString := (utf8Chars none bytes).flatMap codeUnits

def IsAscii (s : JsString) : Prop := ∀ c ∈ s, c < 0x80

theorem codePoints_cons {c : CodeUnit} {s : JsString} (hc : c < 0xD800) :
    codePoints (c :: s) = Char.ofNat c.toNat :: codePoints s := by
  have hlt : c.toNat < 0xD800 := UInt16.lt_iff_toNat_lt.mp hc
  have hhigh : isHighSurrogate c = false := by
    simp only [isHighSurrogate, Bool.and_eq_false_iff, decide_eq_false_iff_not,
      UInt16.le_iff_toNat_le, UInt16.reduceToNat]
    omega
  have hlow : isLowSurrogate c = false := by
    simp only [isLowSurrogate, Bool.and_eq_false_iff, decide_eq_false_iff_not,
      UInt16.le_iff_toNat_le, UInt16.reduceToNat]
    omega
  cases s with
  | nil => simp [codePoints, hhigh, hlow]
  | cons d s => simp [codePoints, hhigh, hlow]

theorem fromUtf8_ascii {c : CodeUnit} {s : JsString} (hc : c < 0x80) :
    fromUtf8 (utf8 (c :: s)) = c :: fromUtf8 (utf8 s) := by
  have hall : ∀ n < 0x80, String.utf8EncodeChar (Char.ofNat n) = [n.toUInt8] ∧
      leadByte n.toUInt8 = ([Char.ofNat n], none) ∧ codeUnits (Char.ofNat n) = [n.toUInt16] := by
    decide
  obtain ⟨hbytes, hlead, hunits⟩ := hall c.toNat (UInt16.lt_iff_toNat_lt.mp hc)
  have hbmp : c < 0xD800 := UInt16.lt_trans hc (by decide)
  rw [fromUtf8, utf8, codePoints_cons hbmp, List.flatMap_cons, hbytes, List.singleton_append,
    utf8Chars, hlead, List.singleton_append, List.flatMap_cons, hunits]
  simp [fromUtf8, utf8]

theorem fromUtf8_utf8 {s : JsString} (h : IsAscii s) : fromUtf8 (utf8 s) = s := by
  induction s with
  | nil => rfl
  | cons c s ih =>
    rw [fromUtf8_ascii (h c List.mem_cons_self), ih fun d hd => h d (List.mem_cons_of_mem c hd)]

/-! ### base64url -/

def base64Char (n : ℕ) : CodeUnit :=
  if n < 26 then 0x41 + n.toUInt16
  else if n < 52 then 0x61 + (n - 26).toUInt16
  else if n < 62 then 0x30 + (n - 52).toUInt16
  else if n = 62 then 0x2D
  else 0x5F

/-- The six bits of a character, of base64 or of base64url. -/
def base64Digit (c : CodeUnit) : Option ℕ :=
  if 0x41 ≤ c ∧ c ≤ 0x5A then some (c.toNat - 0x41)
  else if 0x61 ≤ c ∧ c ≤ 0x7A then some (c.toNat - 0x61 + 26)
  else if 0x30 ≤ c ∧ c ≤ 0x39 then some (c.toNat - 0x30 + 52)
  else if c = 0x2D ∨ c = 0x2B then some 62
  else if c = 0x5F ∨ c = 0x2F then some 63
  else none

/-- Bytes in groups of six bits, the last one filled with zeros. -/
def sextets : List UInt8 → List ℕ
  | [] => []
  | [a] => [a.toNat / 4, a.toNat % 4 * 16]
  | [a, b] => [a.toNat / 4, a.toNat % 4 * 16 + b.toNat / 16, b.toNat % 16 * 4]
  | a :: b :: c :: bytes =>
    a.toNat / 4 :: (a.toNat % 4 * 16 + b.toNat / 16) :: (b.toNat % 16 * 4 + c.toNat / 64) ::
      (c.toNat % 64) :: sextets bytes

/-- The whole bytes of groups of six bits. -/
def ofSextets : List ℕ → List UInt8
  | w :: x :: y :: z :: digits =>
    (w * 4 + x / 16).toUInt8 :: (x % 16 * 16 + y / 4).toUInt8 :: (y % 4 * 64 + z).toUInt8 ::
      ofSextets digits
  | [w, x, y] => [(w * 4 + x / 16).toUInt8, (x % 16 * 16 + y / 4).toUInt8]
  | [w, x] => [(w * 4 + x / 16).toUInt8]
  | _ => []

/-- `bytes.toString("base64url")`. -/
def toBase64url (bytes : List UInt8) : JsString := (sextets bytes).map base64Char

def lowByte (c : CodeUnit) : CodeUnit := c &&& 0xFF

/-- `Buffer.from(s, "base64url")`: of a code unit the low byte counts, padding ends the text, other
characters are skipped. -/
def fromBase64url (s : JsString) : List UInt8 :=
  ofSextets (((s.map lowByte).takeWhile fun c => c ≠ 0x3D).filterMap base64Digit)

theorem sextets_lt (bytes : List UInt8) : ∀ n ∈ sextets bytes, n < 64 := by
  induction bytes using sextets.induct with
  | case1 => simp [sextets]
  | case2 a =>
    have := a.toNat_lt
    simp only [sextets, List.forall_mem_cons]
    refine ⟨by omega, by omega, by simp⟩
  | case3 a b =>
    have := a.toNat_lt
    have := b.toNat_lt
    simp only [sextets, List.forall_mem_cons]
    refine ⟨by omega, by omega, by omega, by simp⟩
  | case4 a b c bytes ih =>
    have := a.toNat_lt
    have := b.toNat_lt
    have := c.toNat_lt
    simp only [sextets, List.forall_mem_cons]
    exact ⟨by omega, by omega, by omega, by omega, ih⟩

theorem ofSextets_sextets (bytes : List UInt8) : ofSextets (sextets bytes) = bytes := by
  have hbyte : ∀ (a : UInt8) (n : ℕ), n = a.toNat → n.toUInt8 = a := by
    rintro a n rfl
    simp
  induction bytes using sextets.induct with
  | case1 => rfl
  | case2 a =>
    have := a.toNat_lt
    rw [sextets, ofSextets, hbyte a _ (by omega)]
  | case3 a b =>
    have := a.toNat_lt
    have := b.toNat_lt
    rw [sextets, ofSextets, hbyte a _ (by omega), hbyte b _ (by omega)]
  | case4 a b c bytes ih =>
    have := a.toNat_lt
    have := b.toNat_lt
    have := c.toNat_lt
    rw [sextets, ofSextets, hbyte a _ (by omega), hbyte b _ (by omega), hbyte c _ (by omega), ih]

theorem base64Digit_char {n : ℕ} (h : n < 64) : base64Digit (base64Char n) = some n ∧
    base64Char n ≠ 0x3D ∧ lowByte (base64Char n) = base64Char n := by
  have hall : ∀ n < 64, base64Digit (base64Char n) = some n ∧ base64Char n ≠ 0x3D ∧
      lowByte (base64Char n) = base64Char n := by decide
  exact hall n h

theorem fromBase64url_toBase64url (bytes : List UInt8) :
    fromBase64url (toBase64url bytes) = bytes := by
  have hlow : (toBase64url bytes).map lowByte = toBase64url bytes := by
    rw [toBase64url, List.map_map]
    apply List.map_congr_left
    intro n hn
    exact (base64Digit_char (sextets_lt bytes n hn)).2.2
  have hplain : (toBase64url bytes).takeWhile (fun c => c ≠ 0x3D) = toBase64url bytes := by
    rw [List.takeWhile_eq_self_iff, toBase64url]
    intro c hc
    obtain ⟨n, hn, rfl⟩ := List.mem_map.mp hc
    exact decide_eq_true (base64Digit_char (sextets_lt bytes n hn)).2.1
  have hdigits : (toBase64url bytes).filterMap base64Digit = sextets bytes := by
    have hread : ∀ n ∈ sextets bytes, (base64Digit ∘ base64Char) n = some n := fun n hn =>
      (base64Digit_char (sextets_lt bytes n hn)).1
    rw [toBase64url, List.filterMap_map, List.filterMap_congr hread, List.filterMap_some]
  rw [fromBase64url, hlow, hplain, hdigits, ofSextets_sextets]

example : toBase64url (utf8 (utf16 "사|a")) = utf16 "7IKsfGE" ∧
    fromUtf8 (fromBase64url (utf16 "7IKs_GE=x")) = utf16 "사\uFFFDa" ∧
    fromBase64url (utf16 "ōA") = fromBase64url (utf16 "MA") := by decide +kernel

end GachaMind.Js
