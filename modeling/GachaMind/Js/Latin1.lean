import GachaMind.Js.Buffer

/-!
# Bytes written as another encoding than they were read in

A text that was read from bytes as latin1, one code unit a byte, and is written as UTF-8 comes out
with two bytes for each byte from 0x80 on.
-/

namespace GachaMind.Js

def fromLatin1 (bytes : List UInt8) : JsString := bytes.map UInt8.toUInt16

/-- The UTF-8 encoding of the character that latin1 reads from a byte. -/
def reencode (b : UInt8) : List UInt8 :=
  if b < 0x80 then [b] else [0xC0 + b / 64, 0x80 + b % 64]

def recode (bytes : List UInt8) : List UInt8 := bytes.flatMap reencode

theorem fromLatin1_append (a b : List UInt8) :
    fromLatin1 (a ++ b) = fromLatin1 a ++ fromLatin1 b :=
  List.map_append

theorem fromLatin1_inj {a b : List UInt8} (h : fromLatin1 a = fromLatin1 b) : a = b := by
  apply List.map_injective_iff.mpr _ h
  intro x y hxy
  apply UInt8.toNat_inj.mp
  simpa using congrArg UInt16.toNat hxy

theorem utf8_fromLatin1 (bytes : List UInt8) : utf8 (fromLatin1 bytes) = recode bytes := by
  have hall : ∀ n < 256, String.utf8EncodeChar (Char.ofNat n) = reencode n.toUInt8 := by
    decide +kernel
  induction bytes with
  | nil => rfl
  | cons b bytes ih =>
    have hlt : b.toUInt16 < 0xD800 := by
      apply UInt16.lt_iff_toNat_lt.mpr
      have := b.toNat_lt
      simp only [UInt8.toNat_toUInt16, UInt16.reduceToNat]
      omega
    have hunit := hall b.toNat b.toNat_lt
    rw [fromLatin1, List.map_cons, utf8, codePoints_cons hlt, List.flatMap_cons,
      UInt8.toNat_toUInt16, hunit, recode, List.flatMap_cons]
    simpa [utf8, fromLatin1, recode] using ih

/-! ### What is left as it was -/

theorem reencode_ascii {b : UInt8} (h : b < 0x80) : reencode b = [b] := if_pos h

theorem recode_append (a b : List UInt8) : recode (a ++ b) = recode a ++ recode b :=
  List.flatMap_append

theorem recode_ascii {bytes : List UInt8} (h : ∀ b ∈ bytes, b < 0x80) : recode bytes = bytes := by
  induction bytes with
  | nil => rfl
  | cons b bytes ih =>
    obtain ⟨hb, hbytes⟩ := List.forall_mem_cons.mp h
    rw [recode, List.flatMap_cons, reencode_ascii hb]
    exact congrArg (b :: ·) (ih hbytes)

theorem length_reencode (b : UInt8) : (reencode b).length = if b < 0x80 then 1 else 2 := by
  unfold reencode
  split_ifs <;> rfl

theorem length_recode_le (bytes : List UInt8) : bytes.length ≤ (recode bytes).length := by
  induction bytes with
  | nil => exact le_rfl
  | cons b bytes ih =>
    have hb := length_reencode b
    rw [recode, List.flatMap_cons, List.length_append, List.length_cons]
    change bytes.length ≤ (bytes.flatMap reencode).length at ih
    split_ifs at hb <;> omega

theorem ascii_of_recode {bytes : List UInt8} (h : recode bytes = bytes) :
    ∀ b ∈ bytes, b < 0x80 := by
  induction bytes with
  | nil => exact fun b hb => absurd hb List.not_mem_nil
  | cons b bytes ih =>
    have hlength := congrArg List.length h
    rw [recode, List.flatMap_cons, List.length_append, List.length_cons, length_reencode] at hlength
    have hle := length_recode_le bytes
    unfold recode at hle
    have hb : b < 0x80 := by
      by_contra hb
      rw [if_neg hb] at hlength
      omega
    rw [recode, List.flatMap_cons, reencode_ascii hb] at h
    exact List.forall_mem_cons.mpr ⟨hb, ih (List.cons.inj h).2⟩

theorem recode_eq_self_iff {bytes : List UInt8} :
    recode bytes = bytes ↔ IsAscii (fromLatin1 bytes) := by
  have hunit : ∀ b : UInt8, b.toUInt16 < 0x80 ↔ b < 0x80 := by
    intro b
    rw [UInt16.lt_iff_toNat_lt, UInt8.lt_iff_toNat_lt]
    simp
  rw [IsAscii, fromLatin1, List.forall_mem_map]
  constructor
  · intro h b hb
    exact (hunit b).mpr (ascii_of_recode h b hb)
  · intro h
    exact recode_ascii fun b hb => (hunit b).mp (h b hb)

theorem mem_reencode {b x : UInt8} (hb : b < 0x80) (h : b ∈ reencode x) : b = x := by
  have hx := x.toNat_lt
  have hb' := UInt8.lt_iff_toNat_lt.mp hb
  simp only [UInt8.reduceToNat] at hb'
  unfold reencode at h
  split_ifs at h with hascii
  · exact List.mem_singleton.mp h
  · exfalso
    simp only [List.mem_cons, List.not_mem_nil, or_false] at h
    rcases h with rfl | rfl
    · simp only [UInt8.toNat_add, UInt8.toNat_div, UInt8.reduceToNat] at hb'
      omega
    · simp only [UInt8.toNat_add, UInt8.toNat_mod, UInt8.reduceToNat] at hb'
      omega

/-- A byte below 0x80 comes out only where it came in. -/
theorem mem_recode {b : UInt8} (hb : b < 0x80) {bytes : List UInt8} :
    b ∈ recode bytes ↔ b ∈ bytes := by
  rw [recode, List.mem_flatMap]
  constructor
  · rintro ⟨x, hx, hmem⟩
    rwa [mem_reencode hb hmem]
  · intro hmem
    exact ⟨b, hmem, by rw [reencode_ascii hb]; exact List.mem_singleton_self b⟩

end GachaMind.Js
