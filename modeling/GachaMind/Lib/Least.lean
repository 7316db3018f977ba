import Mathlib

/-!
# The first of a sorted list

Over a relation that is a total order on the members of a list, the list sorted by it starts
with its least member, which depends neither on the order of the list nor on repetitions.
-/

namespace Least

universe u v

variable {α : Type u} {le : α → α → Prop} {l m : List α}

structure OrderedOn (le : α → α → Prop) (l : List α) : Prop where
  total : ∀ x ∈ l, ∀ y ∈ l, le x y ∨ le y x
  trans : ∀ x ∈ l, ∀ y ∈ l, ∀ z ∈ l, le x y → le y z → le x z
  antisymm : ∀ x ∈ l, ∀ y ∈ l, le x y → le y x → x = y

/-- `x` is the least member. -/
structure LeastOf (le : α → α → Prop) (l : List α) (x : α) : Prop where
  mem : x ∈ l
  le : ∀ y ∈ l, le x y

theorem OrderedOn.subset (h : OrderedOn le l) (hm : m ⊆ l) : OrderedOn le m where
  total x hx y hy := h.total x (hm hx) y (hm hy)
  trans x hx y hy z hz := h.trans x (hm hx) y (hm hy) z (hm hz)
  antisymm x hx y hy := h.antisymm x (hm hx) y (hm hy)

theorem OrderedOn.refl (h : OrderedOn le l) {x : α} (hx : x ∈ l) : le x x :=
  (h.total x hx x hx).elim id id

theorem LeastOf.unique (h : OrderedOn le l) {x y : α} (hx : LeastOf le l x) (hy : LeastOf le l y) :
    x = y :=
  h.antisymm x hx.mem y hy.mem (hx.le y hy.mem) (hy.le x hx.mem)

/-- By a key, and among members of one key by another order. -/
theorem OrderedOn.lex {β : Type v} [LinearOrder β] {tie : α → α → Prop} (h : OrderedOn tie l)
    (key : α → β)
    (hle : ∀ x ∈ l, ∀ y ∈ l, le x y ↔ key x < key y ∨ key x = key y ∧ tie x y) :
    OrderedOn le l where
  total x hx y hy := by
    rw [hle x hx y hy, hle y hy x hx]
    rcases lt_trichotomy (key x) (key y) with hlt | heq | hlt
    · exact Or.inl (Or.inl hlt)
    · exact (h.total x hx y hy).imp (fun ht => Or.inr ⟨heq, ht⟩) fun ht => Or.inr ⟨heq.symm, ht⟩
    · exact Or.inr (Or.inl hlt)
  trans x hx y hy z hz hxy hyz := by
    rw [hle x hx y hy] at hxy
    rw [hle y hy z hz] at hyz
    rw [hle x hx z hz]
    rcases hxy with hlt | ⟨heq, ht⟩
    · rcases hyz with hlt' | ⟨heq', -⟩
      · exact Or.inl (hlt.trans hlt')
      · exact Or.inl (heq' ▸ hlt)
    · rcases hyz with hlt' | ⟨heq', ht'⟩
      · exact Or.inl (heq ▸ hlt')
      · exact Or.inr ⟨heq.trans heq', h.trans x hx y hy z hz ht ht'⟩
  antisymm x hx y hy hxy hyx := by
    rw [hle x hx y hy] at hxy
    rw [hle y hy x hx] at hyx
    rcases hxy with hlt | ⟨heq, ht⟩
    · exact absurd hyx (not_or.mpr ⟨hlt.asymm, fun hsame => hlt.ne' hsame.1⟩)
    · exact h.antisymm x hx y hy ht (hyx.resolve_left heq.not_gt).2

variable [DecidableRel le]

theorem head_insertionSort_leastOf {x : α} (h : OrderedOn le l)
    (hx : (l.insertionSort le).head? = some x) : LeastOf le l x := by
  induction l generalizing x with
  | nil => cases hx
  | cons a l ih =>
    have hself := h.refl (List.mem_cons_self (a := a) (l := l))
    rw [List.insertionSort_cons] at hx
    cases hsort : l.insertionSort le with
    | nil =>
      have hnil : l = [] := List.eq_nil_of_length_eq_zero (by
        rw [← List.length_insertionSort le l, hsort, List.length_nil])
      rw [hsort] at hx
      obtain rfl := Option.some.inj hx
      rw [hnil]
      exact ⟨List.mem_singleton_self a, fun y hy => List.mem_singleton.mp hy ▸ hself⟩
    | cons b rest =>
      have hb := ih (h.subset (List.subset_cons_self a l)) (by rw [hsort]; rfl)
      have hb' : b ∈ a :: l := List.mem_cons_of_mem a hb.mem
      rw [hsort, List.orderedInsert] at hx
      split_ifs at hx with hle
      · obtain rfl := Option.some.inj hx
        refine ⟨List.mem_cons_self, List.forall_mem_cons.mpr ⟨hself, ?_⟩⟩
        intro y hy
        exact h.trans a List.mem_cons_self b hb' y (List.mem_cons_of_mem a hy) hle (hb.le y hy)
      · obtain rfl := Option.some.inj hx
        have hba := (h.total b hb' a List.mem_cons_self).resolve_right hle
        exact ⟨hb', List.forall_mem_cons.mpr ⟨hba, hb.le⟩⟩

theorem head_insertionSort_eq_none : (l.insertionSort le).head? = none ↔ l = [] := by
  rw [List.head?_eq_none_iff, ← List.length_eq_zero_iff, List.length_insertionSort,
    List.length_eq_zero_iff]

theorem head_insertionSort_iff (h : OrderedOn le l) {x : α} :
    (l.insertionSort le).head? = some x ↔ LeastOf le l x := by
  constructor
  · exact head_insertionSort_leastOf h
  · intro hx
    cases hhead : (l.insertionSort le).head? with
    | none =>
      rw [head_insertionSort_eq_none.mp hhead] at hx
      cases hx.mem
    | some y => rw [(head_insertionSort_leastOf h hhead).unique h hx]

end Least
