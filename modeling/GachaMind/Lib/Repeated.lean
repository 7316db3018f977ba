import Mathlib

/-!
# Texts that are closed by a mark and repeated

A text without the mark can be read back from the first items of its repetition, as long as it is
not longer than what is kept of it.
-/

namespace Repeated

variable {α : Type*} [Inhabited α] {n i : ℕ} {mark : α} {a b l : List α}

/-- The first `n` items of the list, over and over. -/
def cycleTo (n : ℕ) (l : List α) : List α :=
  (List.range n).map fun i => l.getD (i % l.length) default

theorem getElem?_cycleTo (hn : i < n) (hl : i < l.length) : (cycleTo n l)[i]? = l[i]? := by
  have hrange : (List.range n)[i]? = some i := List.getElem?_range hn
  rw [cycleTo, List.getElem?_map, hrange, Option.map_some, Nat.mod_eq_of_lt hl,
    List.getD_eq_getElem _ _ hl, List.getElem?_eq_getElem hl]

theorem getElem?_cycleTo_closed (hn : i < n) (hl : i < a.length) :
    (cycleTo n (a ++ [mark]))[i]? = a[i]? := by
  rw [getElem?_cycleTo hn (by simp; omega), List.getElem?_append_left hl]

theorem getElem?_cycleTo_mark (hn : a.length < n) :
    (cycleTo n (a ++ [mark]))[a.length]? = some mark := by
  rw [getElem?_cycleTo hn (by simp)]
  simp

/-- Where the shorter text is closed, the longer one goes on. -/
theorem length_le_of_cycleTo (ha : mark ∉ a) (hla : a.length ≤ n)
    (h : cycleTo n (a ++ [mark]) = cycleTo n (b ++ [mark])) : a.length ≤ b.length := by
  by_contra hlt
  have hb : b.length < a.length := by omega
  have hn : b.length < n := by omega
  have hmark := @getElem?_cycleTo_mark _ _ _ mark _ hn
  rw [← h, getElem?_cycleTo_closed hn hb] at hmark
  exact ha (List.mem_of_getElem? hmark)

theorem eq_of_cycleTo (ha : mark ∉ a) (hb : mark ∉ b) (hla : a.length ≤ n) (hlb : b.length ≤ n)
    (h : cycleTo n (a ++ [mark]) = cycleTo n (b ++ [mark])) : a = b := by
  have hlength : a.length = b.length :=
    le_antisymm (length_le_of_cycleTo ha hla h) (length_le_of_cycleTo hb hlb h.symm)
  apply List.ext_getElem? fun i => ?_
  by_cases hi : i < a.length
  · have hn : i < n := by omega
    rw [← @getElem?_cycleTo_closed _ _ _ _ mark _ hn hi, h,
      getElem?_cycleTo_closed hn (by omega)]
  · rw [List.getElem?_eq_none (by omega), List.getElem?_eq_none (by omega)]

end Repeated
