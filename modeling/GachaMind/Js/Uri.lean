import GachaMind.Js

/-!
# `decodeURIComponent`

`Decode` of the language reads a text in which some characters are written as the octets of
their UTF-8 encoding, each as `%` and two hexadecimal digits, and throws on every other use of
`%`. `UriDecodes` is the grammar of these texts, and `decodeURIComponent_eq_some` says that the
function accepts exactly them.
-/

namespace GachaMind.Js

/-! ### The grammar -/

def percent : CodeUnit := 0x25

def hexDigit (c : CodeUnit) : Option ℕ :=
  if 0x30 ≤ c ∧ c ≤ 0x39 then some (c.toNat - 0x30)
  else if 0x41 ≤ c ∧ c ≤ 0x46 then some (c.toNat - 0x37)
  else if 0x61 ≤ c ∧ c ≤ 0x66 then some (c.toNat - 0x57)
  else none

/-- The octet that two hexadecimal digits stand for. -/
def hexOctet (x y : CodeUnit) : Option UInt8 := do
  let high ← hexDigit x
  let low ← hexDigit y
  return UInt8.ofNat (16 * high + low)

/-- The text is an escape for each of the octets. -/
inductive Escaped : List UInt8 → JsString → Prop
  | nil : Escaped [] []
  | cons {b : UInt8} {bs : List UInt8} {x y : CodeUnit} {e : JsString}
      (h : hexOctet x y = some b) (hs : Escaped bs e) : Escaped (b :: bs) (percent :: x :: y :: e)

/-- The text `s` is `t` with some of its characters escaped. -/
inductive UriDecodes : JsString → JsString → Prop
  | nil : UriDecodes [] []
  | unit {c : CodeUnit} {s t : JsString} (h : c ≠ percent) (hs : UriDecodes s t) :
      UriDecodes (c :: s) (c :: t)
  | escape {c : Char} {e s t : JsString} (h : Escaped (String.utf8EncodeChar c) e)
      (hs : UriDecodes s t) : UriDecodes (e ++ s) (codeUnits c ++ t)

/-! ### The function -/

/-- A code unit that stands for itself, or the octet of an escape. -/
inductive Piece where
  | unit (c : CodeUnit)
  | octet (b : UInt8)
  deriving DecidableEq

def pieces : JsString → Option (List Piece)
  | [] => some []
  | c :: rest =>
    if c = percent then
      match rest with
      | x :: y :: rest => do
        let b ← hexOctet x y
        let ps ← pieces rest
        return .octet b :: ps
      | _ => none
    else do
      let ps ← pieces rest
      return .unit c :: ps

/-- The number of leading 1 bits, where five stands for five or more. -/
def leadingOnes (b : UInt8) : ℕ :=
  if b < 0x80 then 0
  else if b < 0xC0 then 1
  else if b < 0xE0 then 2
  else if b < 0xF0 then 3
  else if b < 0xF8 then 4
  else 5

/-- The code point of which the octets are the UTF-8 encoding. -/
def utf8Char (octets : List UInt8) : Option Char :=
  (octets.toByteArray.utf8DecodeChar? 0).filter fun c => String.utf8EncodeChar c = octets

def assemble : List Piece → Option JsString
  | [] => some []
  | .unit c :: rest => do
    let t ← assemble rest
    return c :: t
  | .octet a :: rest =>
    match leadingOnes a, rest with
    | 0, rest => do
      let c ← utf8Char [a]
      let t ← assemble rest
      return codeUnits c ++ t
    | 2, .octet b :: rest => do
      let c ← utf8Char [a, b]
      let t ← assemble rest
      return codeUnits c ++ t
    | 3, .octet b :: .octet d :: rest => do
      let c ← utf8Char [a, b, d]
      let t ← assemble rest
      return codeUnits c ++ t
    | 4, .octet b :: .octet d :: .octet e :: rest => do
      let c ← utf8Char [a, b, d, e]
      let t ← assemble rest
      return codeUnits c ++ t
    | _, _ => none

/-- `decodeURIComponent(s)`; `none` is the `URIError` that it throws. -/
def decodeURIComponent (s : JsString) : Option JsString := do
  let ps ← pieces s
  assemble ps

/-! ### Escapes and octets -/

theorem utf8Char_eq_some {octets : List UInt8} {c : Char} :
    utf8Char octets = some c ↔ String.utf8EncodeChar c = octets := by
  rw [utf8Char, Option.filter_eq_some_iff, decide_eq_true_eq]
  constructor
  · exact fun h => h.2
  · rintro rfl
    have h := ByteArray.utf8DecodeChar?_utf8EncodeChar_append (b := .empty) (c := c)
    rw [ByteArray.append_empty] at h
    exact ⟨h, rfl⟩

theorem pieces_unit {c : CodeUnit} (h : c ≠ percent) (s : JsString) :
    pieces (c :: s) = (pieces s).map fun ps => .unit c :: ps := by
  rw [pieces.eq_def]
  simp only [if_neg h]
  cases pieces s <;> rfl

theorem pieces_escape {e : JsString} {bs : List UInt8} (h : Escaped bs e) (s : JsString) :
    pieces (e ++ s) = (pieces s).map fun ps => bs.map .octet ++ ps := by
  induction h with
  | nil => simp
  | @cons b bs x y e h _ ih =>
    rw [List.cons_append, List.cons_append, List.cons_append, pieces, if_pos rfl, h]
    simp only [bind, pure, Option.bind_some, ih]
    cases pieces s <;> rfl

theorem leadingOnes_ofNat {n : ℕ} (h : n < 256) :
    leadingOnes (UInt8.ofNat n) = if n < 0x80 then 0 else if n < 0xC0 then 1
      else if n < 0xE0 then 2 else if n < 0xF0 then 3 else if n < 0xF8 then 4 else 5 := by
  have hn : (UInt8.ofNat n).toNat = n := by simp [Nat.mod_eq_of_lt h]
  simp only [leadingOnes, UInt8.lt_iff_toNat_lt, hn]
  rfl

theorem assemble_escape (c : Char) (ps : List Piece) :
    assemble ((String.utf8EncodeChar c).map .octet ++ ps) =
      (assemble ps).map fun t => codeUnits c ++ t := by
  have hdecode := utf8Char_eq_some.mpr (show String.utf8EncodeChar c = _ from rfl)
  -- the length of the encoding is the number of leading ones of its first octet
  fun_cases String.utf8EncodeChar c with
  | case1 v h1 =>
    rw [String.utf8EncodeChar, if_pos h1] at hdecode
    have hlead : leadingOnes (UInt8.ofNat v) = 0 := by
      rw [leadingOnes_ofNat (by omega), if_pos (by omega)]
    simp only [List.map_cons, List.map_nil, List.cons_append, List.nil_append, assemble, hlead]
    rw [hdecode]
    cases assemble ps <;> rfl
  | case2 v h1 h2 =>
    rw [String.utf8EncodeChar, if_neg h1, if_pos h2] at hdecode
    have hlead : leadingOnes (UInt8.ofNat (v / 64 % 0x20 + 0xc0)) = 2 := by
      rw [leadingOnes_ofNat (by omega), if_neg (by omega), if_neg (by omega), if_pos (by omega)]
    simp only [List.map_cons, List.map_nil, List.cons_append, List.nil_append, assemble, hlead]
    rw [hdecode]
    cases assemble ps <;> rfl
  | case3 v h1 h2 h3 =>
    rw [String.utf8EncodeChar, if_neg h1, if_neg h2, if_pos h3] at hdecode
    have hlead : leadingOnes (UInt8.ofNat (v / 4096 % 0x10 + 0xe0)) = 3 := by
      rw [leadingOnes_ofNat (by omega), if_neg (by omega), if_neg (by omega), if_neg (by omega),
        if_pos (by omega)]
    simp only [List.map_cons, List.map_nil, List.cons_append, List.nil_append, assemble, hlead]
    rw [hdecode]
    cases assemble ps <;> rfl
  | case4 v h1 h2 h3 =>
    rw [String.utf8EncodeChar, if_neg h1, if_neg h2, if_neg h3] at hdecode
    have hlead : leadingOnes (UInt8.ofNat (v / 262144 % 0x08 + 0xf0)) = 4 := by
      rw [leadingOnes_ofNat (by omega), if_neg (by omega), if_neg (by omega), if_neg (by omega),
        if_neg (by omega), if_pos (by omega)]
    simp only [List.map_cons, List.map_nil, List.cons_append, List.nil_append, assemble, hlead]
    rw [hdecode]
    cases assemble ps <;> rfl

/-! ### The function reads the grammar -/

theorem pieces_nil {s : JsString} (h : pieces s = some []) : s = [] := by
  fun_cases pieces s with
  | case1 => rfl
  | case2 x y rest => simp [pieces, Option.bind_eq_some_iff] at h
  | case3 rest hrest => simp [pieces] at h
  | case4 c rest hc => simp [pieces_unit hc] at h

theorem pieces_cons_unit {s : JsString} {c : CodeUnit} {ps : List Piece}
    (h : pieces s = some (.unit c :: ps)) :
    ∃ rest, s = c :: rest ∧ c ≠ percent ∧ pieces rest = some ps := by
  fun_cases pieces s with
  | case1 => simp [pieces] at h
  | case2 x y rest => simp [pieces, Option.bind_eq_some_iff] at h
  | case3 rest hrest => simp [pieces] at h
  | case4 d rest hd =>
    rw [pieces_unit hd, Option.map_eq_some_iff] at h
    obtain ⟨qs, hqs, he⟩ := h
    cases he
    exact ⟨rest, rfl, hd, hqs⟩

theorem pieces_cons_octet {s : JsString} {b : UInt8} {ps : List Piece}
    (h : pieces s = some (.octet b :: ps)) :
    ∃ x y rest, s = percent :: x :: y :: rest ∧ hexOctet x y = some b ∧
      pieces rest = some ps := by
  fun_cases pieces s with
  | case1 => simp [pieces] at h
  | case2 x y rest =>
    simp only [pieces, if_true, bind, pure, Option.bind_eq_some_iff] at h
    obtain ⟨d, hd, qs, hqs, he⟩ := h
    cases he
    exact ⟨x, y, rest, rfl, hd, hqs⟩
  | case3 rest hrest => simp [pieces] at h
  | case4 d rest hd => simp [pieces_unit hd] at h

theorem pieces_octets {s : JsString} {octets : List UInt8} {ps : List Piece}
    (h : pieces s = some (octets.map .octet ++ ps)) :
    ∃ e rest, s = e ++ rest ∧ Escaped octets e ∧ pieces rest = some ps := by
  induction octets generalizing s with
  | nil => exact ⟨[], s, rfl, .nil, h⟩
  | cons b bs ih =>
    obtain ⟨x, y, s', rfl, hb, hs⟩ := pieces_cons_octet h
    obtain ⟨e, rest, rfl, he, hrest⟩ := ih hs
    exact ⟨percent :: x :: y :: e, rest, rfl, .cons hb he, hrest⟩

theorem UriDecodes.of_octets (octets : List UInt8) {s t : JsString} {ps : List Piece}
    (hs : pieces s = some (octets.map .octet ++ ps))
    (h : (do
      let c ← utf8Char octets
      let t ← assemble ps
      return codeUnits c ++ t) = some t)
    (ih : ∀ {s t : JsString}, pieces s = some ps → assemble ps = some t → UriDecodes s t) :
    UriDecodes s t := by
  simp only [bind, pure, Option.bind_eq_some_iff] at h
  obtain ⟨c, hc, u, hu, he⟩ := h
  obtain rfl := utf8Char_eq_some.mp hc
  obtain rfl := Option.some.inj he
  obtain ⟨e, rest, rfl, hescaped, hrest⟩ := pieces_octets hs
  exact .escape hescaped (ih hrest hu)

theorem UriDecodes.of_assemble {ps : List Piece} {s t : JsString} (hs : pieces s = some ps)
    (h : assemble ps = some t) : UriDecodes s t := by
  fun_induction assemble ps generalizing s t with
  | case1 =>
    obtain rfl := pieces_nil hs
    obtain rfl := Option.some.inj h
    exact .nil
  | case2 c ps ih =>
    simp only [bind, pure, Option.bind_eq_some_iff] at h
    obtain ⟨u, hu, he⟩ := h
    obtain rfl := Option.some.inj he
    obtain ⟨rest, rfl, hc, hrest⟩ := pieces_cons_unit hs
    exact .unit hc (ih hrest hu)
  | case3 a ps _ ih => exact of_octets [a] hs h ih
  | case4 a b ps _ ih => exact of_octets [a, b] hs h ih
  | case5 a b d ps _ ih => exact of_octets [a, b, d] hs h ih
  | case6 a b d e ps _ ih => exact of_octets [a, b, d, e] hs h ih
  | case7 => cases h

theorem decodeURIComponent_eq_some {s t : JsString} :
    decodeURIComponent s = some t ↔ UriDecodes s t := by
  rw [decodeURIComponent, bind, instMonadOption]
  constructor
  · intro h
    obtain ⟨ps, hs, ht⟩ := Option.bind_eq_some_iff.mp h
    exact .of_assemble hs ht
  · intro h
    induction h with
    | nil => rfl
    | @unit c s t hc _ ih =>
      obtain ⟨ps, hs, ht⟩ := Option.bind_eq_some_iff.mp ih
      simp only [pieces_unit hc, hs, Option.map_some, Option.bind_some, assemble, ht]
      rfl
    | @escape c e s t he _ ih =>
      obtain ⟨ps, hs, ht⟩ := Option.bind_eq_some_iff.mp ih
      simp only [pieces_escape he, hs, Option.map_some, Option.bind_some, assemble_escape, ht]

/-- U+C0AC in three octets, and a lone `%`. -/
example : decodeURIComponent (utf16 "a=%EC%82%AC") = some (utf16 "a=사") ∧
    decodeURIComponent (utf16 "100%") = none := by decide +kernel

end GachaMind.Js
