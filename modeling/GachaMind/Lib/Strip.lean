import Mathlib

/-!
# Cutting off both ends

A list without its longest prefix and suffix of elements of one kind.
-/

namespace Strip

universe u

variable {α : Type u} {p : α → Bool} {l : List α}

def strip (p : α → Bool) (l : List α) : List α := ((l.dropWhile p).reverse.dropWhile p).reverse

/-- Neither end is of the kind that is cut off. -/
structure Bare (p : α → Bool) (l : List α) : Prop where
  first : ∀ x, l.head? = some x → p x = false
  last : ∀ x, l.getLast? = some x → p x = false

theorem dropWhile_of_first (h : ∀ x, l.head? = some x → p x = false) : l.dropWhile p = l := by
  cases l with
  | nil => rfl
  | cons x l =>
    rw [List.dropWhile_cons, h x rfl]
    rfl

theorem head?_dropWhile {x : α} (h : (l.dropWhile p).head? = some x) : p x = false := by
  have hhead := List.head?_dropWhile_not p l
  rw [h] at hhead
  simpa using hhead

theorem bare_strip (p : α → Bool) (l : List α) : Bare p (strip p l) where
  first x h := by
    have hsuffix := (l.dropWhile p).reverse.dropWhile_suffix p
    have hkept : strip p l <+: l.dropWhile p := List.reverse_suffix.mp (by simpa [strip])
    obtain ⟨rest, hrest⟩ := hkept
    apply head?_dropWhile (l := l)
    rw [← hrest, List.head?_append, h]
    rfl
  last x h := by
    rw [strip, List.getLast?_reverse] at h
    exact head?_dropWhile h

theorem Bare.strip_eq (h : Bare p l) : strip p l = l := by
  have hlast : ∀ x, l.reverse.head? = some x → p x = false := by
    intro x hx
    rw [List.head?_reverse] at hx
    exact h.last x hx
  rw [strip, dropWhile_of_first h.first, dropWhile_of_first hlast, List.reverse_reverse]

theorem strip_strip (p : α → Bool) (l : List α) : strip p (strip p l) = strip p l :=
  (bare_strip p l).strip_eq

theorem strip_cons_of_pos {x : α} (h : p x = true) : strip p (x :: l) = strip p l := by
  rw [strip, List.dropWhile_cons, h]
  rfl

/-- An element that stays keeps what precedes the suffix. -/
theorem strip_cons_of_neg {x : α} (h : p x = false) :
    strip p (x :: l) = x :: (l.reverse.dropWhile p).reverse := by
  have hfirst : (x :: l).dropWhile p = x :: l := by
    rw [List.dropWhile_cons, h]
    rfl
  rw [strip, hfirst, List.reverse_cons, List.dropWhile_append]
  split_ifs with hempty
  · rw [List.isEmpty_iff.mp hempty, List.dropWhile_cons, h]
    rfl
  · rw [List.reverse_append]
    rfl

end Strip
