import GachaMind.Js

/-!
# Comparing numbers

`a < b`, `a - b` and `sort` with a comparison function. The difference of two finite numbers is
not rounded: rounding changes neither its sign nor whether it is zero.
-/

namespace GachaMind.Js

/-- `a < b`. -/
def JsNumber.lt : JsNumber → JsNumber → Bool
  | .nan, _ => false
  | _, .nan => false
  | .negInfinity, b => decide (b ≠ .negInfinity)
  | _, .negInfinity => false
  | .posInfinity, _ => false
  | .finite _, .posInfinity => true
  | .finite p, .finite q => decide (p < q)

/-- `a - b`. -/
def JsNumber.sub : JsNumber → JsNumber → JsNumber
  | .nan, _ => .nan
  | _, .nan => .nan
  | .posInfinity, .posInfinity => .nan
  | .negInfinity, .negInfinity => .nan
  | .posInfinity, _ => .posInfinity
  | .negInfinity, _ => .negInfinity
  | .finite _, .posInfinity => .negInfinity
  | .finite _, .negInfinity => .posInfinity
  | .finite p, .finite q => .finite (p - q)

/-- `n > 0`; `sort` takes NaN for zero. -/
def JsNumber.isPositive (n : JsNumber) : Bool := (JsNumber.finite 0).lt n

/-- `xs.sort(compareFn)` for a consistent comparison function. -/
def sortBy {α : Type} (compareFn : α → α → JsNumber) (xs : List α) : List α :=
  xs.insertionSort fun a b => (compareFn a b).isPositive = false

theorem isPositive_finite (q : ℚ) : (JsNumber.finite q).isPositive = decide (0 < q) := rfl

/-- `p - q || tie`. -/
theorem sub_or_isPositive (p q : ℚ) (tie : ℤ) :
    (((JsNumber.finite p).sub (.finite q)).or (.finite tie)).isPositive = false ↔
      p < q ∨ p = q ∧ tie ≤ 0 := by
  have hsub : (JsNumber.finite p).sub (.finite q) = .finite (p - q) := rfl
  rw [hsub, JsNumber.or]
  by_cases heq : p = q
  · rw [if_pos (sub_eq_zero.mpr heq), isPositive_finite, decide_eq_false_iff_not, not_lt,
      Int.cast_nonpos]
    exact ⟨fun h => Or.inr ⟨heq, h⟩, fun h => (h.resolve_left heq.not_lt).2⟩
  · rw [if_neg (sub_ne_zero.mpr heq), isPositive_finite, decide_eq_false_iff_not, not_lt,
      sub_nonpos]
    exact ⟨fun h => Or.inl (lt_of_le_of_ne h heq), fun h => (h.resolve_right fun h => heq h.1).le⟩

end GachaMind.Js
