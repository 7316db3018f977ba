import Mathlib

/-!
# Rounding to 53 significant bits

Round to nearest, ties to even, on rationals, with an unbounded exponent: on the
normal range of binary64 this is the rounding of every arithmetic operation. The
two facts used of it are monotonicity and that integers of at most 53 bits are
kept.
-/

namespace Binary64

/-- The nearest integer, the even one of two. -/
def roundEven (q : ℚ) : ℤ :=
  if q - ⌊q⌋ < 1 / 2 then ⌊q⌋
  else if 1 / 2 < q - ⌊q⌋ then ⌊q⌋ + 1
  else if ⌊q⌋ % 2 = 0 then ⌊q⌋ else ⌊q⌋ + 1

theorem floor_le_roundEven (q : ℚ) : ⌊q⌋ ≤ roundEven q := by
  unfold roundEven
  split_ifs <;> omega

theorem roundEven_le_floor_add_one (q : ℚ) : roundEven q ≤ ⌊q⌋ + 1 := by
  unfold roundEven
  split_ifs <;> omega

theorem roundEven_intCast (n : ℤ) : roundEven n = n := by
  simp [roundEven]

theorem roundEven_mono {x y : ℚ} (h : x ≤ y) : roundEven x ≤ roundEven y := by
  rcases (Int.floor_mono h).lt_or_eq with hf | hf
  · have hx := roundEven_le_floor_add_one x
    have hy := floor_le_roundEven y
    omega
  · have hr : x - ⌊x⌋ ≤ y - ⌊y⌋ := by
      rw [hf]
      linarith
    unfold roundEven
    rw [hf] at hr ⊢
    split_ifs <;> first | omega | linarith

def ulpExponent (q : ℚ) : ℤ := Int.log 2 q - 52

/-- The double nearest to a non-negative rational. -/
def fl (q : ℚ) : ℚ :=
  if q = 0 then 0 else roundEven (q / 2 ^ ulpExponent q) * 2 ^ ulpExponent q

theorem fl_zero : fl 0 = 0 := by simp [fl]

theorem fl_of_pos {q : ℚ} (hq : 0 < q) :
    fl q = roundEven (q / 2 ^ ulpExponent q) * 2 ^ ulpExponent q := by
  rw [fl, if_neg hq.ne']

theorem fl_of_multiple {q : ℚ} (hq : 0 < q) {m : ℤ} (hm : q = m * 2 ^ ulpExponent q) :
    fl q = q := by
  have hp : (2 : ℚ) ^ ulpExponent q ≠ 0 := by positivity
  have hdiv : q / 2 ^ ulpExponent q = m := by
    rw [div_eq_iff hp]
    exact hm
  rw [fl_of_pos hq, hdiv, roundEven_intCast]
  exact hm.symm

theorem fl_natCast {n : ℕ} (hn : n < 2 ^ 53) : fl n = n := by
  rcases Nat.eq_zero_or_pos n with rfl | hpos
  · simpa using fl_zero
  · have hq : (0 : ℚ) < n := by exact_mod_cast hpos
    have hlog : Nat.log 2 n ≤ 52 := by
      have := Nat.log_lt_of_lt_pow hpos.ne' hn
      omega
    have hulp : ulpExponent n = -((52 - Nat.log 2 n : ℕ) : ℤ) := by
      rw [ulpExponent, Int.log_natCast]
      omega
    refine fl_of_multiple hq (m := n * 2 ^ (52 - Nat.log 2 n)) ?_
    rw [hulp, zpow_neg, zpow_natCast]
    push_cast
    rw [mul_assoc, mul_inv_cancel₀ (by positivity), mul_one]

theorem fl_le_pow {q : ℚ} (hq : 0 < q) : fl q ≤ 2 ^ (Int.log 2 q + 1) := by
  have hp : (0 : ℚ) < 2 ^ ulpExponent q := by positivity
  have hlt : q / 2 ^ ulpExponent q ≤ ((2 ^ 53 : ℤ) : ℚ) := by
    rw [div_le_iff₀ hp]
    have h := (Int.lt_zpow_succ_log_self (b := 2) (by norm_num) q).le
    calc q ≤ 2 ^ (Int.log 2 q + 1) := by exact_mod_cast h
      _ = ((2 ^ 53 : ℤ) : ℚ) * 2 ^ ulpExponent q := by
        rw [ulpExponent, show Int.log 2 q + 1 = 53 + (Int.log 2 q - 52) by ring,
          zpow_add₀ (by norm_num)]
        norm_num
  have hr : roundEven (q / 2 ^ ulpExponent q) ≤ 2 ^ 53 :=
    (roundEven_mono hlt).trans_eq (roundEven_intCast _)
  rw [fl_of_pos hq]
  calc (roundEven (q / 2 ^ ulpExponent q) : ℚ) * 2 ^ ulpExponent q
      ≤ (2 ^ 53 : ℤ) * 2 ^ ulpExponent q := by gcongr
    _ = 2 ^ (Int.log 2 q + 1) := by
      rw [ulpExponent, show Int.log 2 q + 1 = 53 + (Int.log 2 q - 52) by ring,
        zpow_add₀ (by norm_num)]
      norm_num

theorem pow_le_fl {q : ℚ} (hq : 0 < q) : 2 ^ Int.log 2 q ≤ fl q := by
  have hp : (0 : ℚ) < 2 ^ ulpExponent q := by positivity
  have hpow : (2 : ℚ) ^ Int.log 2 q = ((2 ^ 52 : ℤ) : ℚ) * 2 ^ ulpExponent q := by
    rw [ulpExponent, show Int.log 2 q = 52 + (Int.log 2 q - 52) by ring, zpow_add₀ (by norm_num)]
    norm_num
  have hle : ((2 ^ 52 : ℤ) : ℚ) ≤ q / 2 ^ ulpExponent q := by
    rw [le_div_iff₀ hp, ← hpow]
    exact_mod_cast Int.zpow_log_le_self (b := 2) (by norm_num) hq
  have hr : (2 ^ 52 : ℤ) ≤ roundEven (q / 2 ^ ulpExponent q) :=
    (roundEven_intCast _).symm.trans_le (roundEven_mono hle)
  rw [fl_of_pos hq, hpow]
  gcongr

theorem fl_nonneg {q : ℚ} (hq : 0 ≤ q) : 0 ≤ fl q := by
  rcases hq.eq_or_lt with rfl | hq
  · rw [fl_zero]
  · exact le_trans (by positivity) (pow_le_fl hq)

/-- Rounding is monotone: inside a binade by `roundEven_mono`, across binades
because the powers of two between them are kept. -/
theorem fl_mono {x y : ℚ} (hx : 0 ≤ x) (h : x ≤ y) : fl x ≤ fl y := by
  rcases hx.eq_or_lt with rfl | hx
  · rw [fl_zero]
    exact fl_nonneg h
  have hy : 0 < y := hx.trans_le h
  rcases (Int.log_mono_right (b := 2) hx h).lt_or_eq with hlog | hlog
  · calc fl x ≤ 2 ^ (Int.log 2 x + 1) := fl_le_pow hx
      _ ≤ 2 ^ Int.log 2 y := zpow_le_zpow_right₀ (by norm_num) (by omega)
      _ ≤ fl y := pow_le_fl hy
  · have hulp : ulpExponent x = ulpExponent y := by rw [ulpExponent, ulpExponent, hlog]
    rw [fl_of_pos hx, fl_of_pos hy, hulp]
    have hdiv : x / 2 ^ ulpExponent y ≤ y / 2 ^ ulpExponent y := by gcongr
    have hr := roundEven_mono hdiv
    gcongr

end Binary64
