import Mathlib

/-!
# Competition ranks

Rows ordered by a descending key, rows of one key being peers. The rank of a row is the place
of its first peer, so peers share a rank and a rank is one more than the rows above it. The
rows that a prefix of the order shows are compared with a row that the order does not list.
-/

namespace Ranking

universe u v

variable {α : Type u} {β : Type v} [LinearOrder β] {key : α → β} {rows : List α}

def Descending (key : α → β) (rows : List α) : Prop := rows.Pairwise fun x y => key y ≤ key x

theorem Descending.tail {x : α} (h : Descending key (x :: rows)) : Descending key rows :=
  (List.pairwise_cons.mp h).2

theorem Descending.le_head {x y : α} (h : Descending key (x :: rows)) (hy : y ∈ rows) :
    key y ≤ key x :=
  (List.pairwise_cons.mp h).1 y hy

def firstPeer (key : α → β) (k : β) (rows : List α) : ℕ :=
  rows.findIdx fun x => decide (key x = k)

theorem countP_eq_zero_of_le {k : β} (h : ∀ x ∈ rows, key x ≤ k) :
    rows.countP (fun x => decide (k < key x)) = 0 := by
  rw [List.countP_eq_zero]
  intro x hx
  simpa using h x hx

/-- The rows before the first peer are the rows above the key. -/
theorem firstPeer_eq_countP {k : β} (h : Descending key rows) (hk : ∃ x ∈ rows, key x = k) :
    firstPeer key k rows = rows.countP fun x => decide (k < key x) := by
  induction rows with
  | nil =>
    obtain ⟨x, hx, -⟩ := hk
    cases hx
  | cons x rows ih =>
    by_cases hx : key x = k
    · have hnone : (x :: rows).countP (fun x => decide (k < key x)) = 0 := by
        refine countP_eq_zero_of_le fun y hy => ?_
        rcases List.mem_cons.mp hy with rfl | hy
        · exact hx.le
        · exact (h.le_head hy).trans hx.le
      rw [hnone, firstPeer, List.findIdx_cons, decide_eq_true hx]
      rfl
    · obtain ⟨y, hy, hky⟩ := hk
      have hy' : y ∈ rows := (List.mem_cons.mp hy).resolve_left fun hyx => hx (hyx ▸ hky)
      have habove : k < key x := lt_of_le_of_ne (hky ▸ h.le_head hy') (Ne.symm hx)
      have hrest := ih h.tail ⟨y, hy', hky⟩
      rw [List.countP_cons_of_pos (by simpa using habove), ← hrest, firstPeer, List.findIdx_cons,
        decide_eq_false hx]
      rfl

/-- Fewer than `n` rows are above one of the first `n`. -/
theorem countP_above_lt {x : α} {n : ℕ} (h : Descending key rows) (hx : x ∈ rows.take n) :
    rows.countP (fun y => decide (key x < key y)) < n := by
  obtain ⟨i, hi, rfl⟩ := List.mem_iff_getElem.mp hx
  rw [List.length_take] at hi
  rw [List.getElem_take]
  rw [← firstPeer_eq_countP h ⟨rows[i], List.getElem_mem _, rfl⟩]
  have hle : firstPeer key (key rows[i]) rows ≤ i := by
    by_contra hlt
    simpa using List.not_of_lt_findIdx (not_le.mp hlt)
  omega

/-- The rank of a key among rows, whatever the order in which they come. -/
def rank (key : α → β) (rows : List α) (k : β) : ℕ :=
  firstPeer key k (rows.insertionSort fun x y => key y ≤ key x) + 1

theorem rank_eq_countP {k : β} (hk : ∃ x ∈ rows, key x = k) :
    rank key rows k = rows.countP (fun x => decide (k < key x)) + 1 := by
  let le : α → α → Prop := fun x y => key y ≤ key x
  have htotal : Std.Total le := ⟨fun x y => le_total (key y) (key x)⟩
  have htrans : IsTrans α le := ⟨fun x y z hxy hyz => le_trans hyz hxy⟩
  have hsorted : Descending key (rows.insertionSort le) := List.pairwise_insertionSort le rows
  have hperm := List.perm_insertionSort le rows
  obtain ⟨x, hx, hxk⟩ := hk
  rw [rank, firstPeer_eq_countP hsorted ⟨x, hperm.mem_iff.mpr hx, hxk⟩, hperm.countP_eq]

/-- Sorting by the key keeps peers in the order in which they come. -/
theorem filter_insertionSort (key : α → β) (rows : List α) (k : β) :
    (rows.insertionSort fun x y => key y ≤ key x).filter (fun x => decide (key x = k)) =
      rows.filter fun x => decide (key x = k) := by
  let le : α → α → Prop := fun x y => key y ≤ key x
  let peers := rows.filter fun x => decide (key x = k)
  have hkey : ∀ x ∈ peers, key x = k := fun x hx => of_decide_eq_true (List.mem_filter.mp hx).2
  have hpeers : peers.Pairwise le := by
    apply List.pairwise_of_forall_mem_list
    intro x hx y hy
    exact ((hkey y hy).trans (hkey x hx).symm).le
  have hsub : peers.Sublist (rows.insertionSort le) :=
    List.sublist_insertionSort hpeers List.filter_sublist
  have hkept : peers.Sublist ((rows.insertionSort le).filter fun x => decide (key x = k)) := by
    have h := hsub.filter fun x => decide (key x = k)
    rwa [List.filter_filter, List.filter_congr fun x _ => Bool.and_self _] at h
  apply Eq.symm
  apply hkept.eq_of_length
  exact ((List.perm_insertionSort le rows).filter _).length_eq.symm

/-- The first `n` rows are all at least a bound where `n` rows, or all rows, are. -/
theorem forall_take_iff {k : β} {n : ℕ} (h : Descending key rows) :
    (∀ x ∈ rows.take n, k ≤ key x) ↔
      min n rows.length ≤ rows.countP fun x => decide (k ≤ key x) := by
  induction rows generalizing n with
  | nil => simp
  | cons x rows ih =>
    cases n with
    | zero => simp
    | succ n =>
      rw [List.take_succ_cons, List.forall_mem_cons, List.length_cons]
      by_cases hx : k ≤ key x
      · rw [ih h.tail, List.countP_cons_of_pos (by simpa using hx)]
        constructor
        · intro hs
          omega
        · intro hs
          exact ⟨hx, by omega⟩
      · have hzero : (x :: rows).countP (fun x => decide (k ≤ key x)) = 0 := by
          rw [List.countP_eq_zero]
          intro y hy hky
          rcases List.mem_cons.mp hy with rfl | hy
          · exact hx (by simpa using hky)
          · exact hx (le_trans (by simpa using hky) (h.le_head hy))
        rw [hzero]
        exact iff_of_false (fun hs => hx hs.1) (by omega)

end Ranking
