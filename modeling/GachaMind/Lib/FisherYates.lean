import Mathlib

/-!
# The Fisher–Yates shuffle

The loop goes from the last position down to the second and swaps each with a position
at or before it. A list without repetitions comes out in each of its orders for exactly
one sequence of choices, so what is true of a share of the orders is true of the same
share of the choices.
-/

namespace FisherYates

variable {α : Type*}

/-- Position `k` is swapped with position `c k`, for every `k` from `i` down to 1. -/
def swapDown (c : ℕ → ℕ) : ℕ → Array α → Array α
  | 0, a => a
  | i + 1, a => swapDown c i (a.swapIfInBounds (i + 1) (c (i + 1)))

/-- A choice for each position of a list of length `n` but the first. -/
abbrev Choices (n : ℕ) : Type := (k : Fin (n - 1)) → Fin (k + 2)

def Choices.toFun {n : ℕ} (c : Choices n) : ℕ → ℕ
  | 0 => 0
  | i + 1 => if h : i < n - 1 then c ⟨i, h⟩ else 0

def arrange {n : ℕ} (c : Choices n) (items : List α) : List α :=
  (swapDown c.toFun (n - 1) items.toArray).toList

/-! ### The loop -/

theorem swapIfInBounds_perm (a : Array α) (i j : ℕ) :
    (a.swapIfInBounds i j).toList.Perm a.toList := by
  rw [Array.swapIfInBounds]
  split_ifs
  · exact (Array.swap_perm ..).toList
  · exact .refl _
  · exact .refl _

theorem getElem?_swapIfInBounds {a : Array α} {i j : ℕ} (hi : i < a.size) (hj : j < a.size)
    (k : ℕ) : (a.swapIfInBounds i j)[k]? =
      if j = k then a[i]? else if i = k then a[j]? else a[k]? := by
  rw [Array.swapIfInBounds_def, dif_pos hi, dif_pos hj, Array.getElem?_swap]
  rw [Array.getElem?_eq_getElem hi, Array.getElem?_eq_getElem hj]

theorem swapDown_perm (c : ℕ → ℕ) (i : ℕ) (a : Array α) :
    (swapDown c i a).toList.Perm a.toList := by
  induction i generalizing a with
  | zero => exact .refl _
  | succ i ih => exact (ih _).trans (swapIfInBounds_perm a _ _)

/-- The loop leaves the positions above the one it starts at. -/
theorem getElem?_swapDown {c : ℕ → ℕ} (hc : ∀ k, c k ≤ k) {i k : ℕ} (hk : i < k) :
    ∀ {a : Array α}, i < a.size → (swapDown c i a)[k]? = a[k]? := by
  induction i with
  | zero => exact fun _ => rfl
  | succ i ih =>
    intro a ha
    have hle := hc (i + 1)
    have hstep := ih (by omega) (a := a.swapIfInBounds (i + 1) (c (i + 1))) (by simp; omega)
    rw [swapDown, hstep, getElem?_swapIfInBounds ha (by omega), if_neg (by omega),
      if_neg (by omega)]

theorem getElem?_swapDown_top {c : ℕ → ℕ} (hc : ∀ k, c k ≤ k) {i : ℕ} {a : Array α}
    (ha : i + 1 < a.size) : (swapDown c (i + 1) a)[i + 1]? = a[c (i + 1)]? := by
  have hle := hc (i + 1)
  rw [swapDown, getElem?_swapDown hc (by omega) (by simp; omega),
    getElem?_swapIfInBounds ha (by omega)]
  by_cases he : c (i + 1) = i + 1
  · rw [if_pos he, he]
  · rw [if_neg he, if_pos rfl]

/-! ### One sequence of choices for each order -/

/-- Different choices give different orders: the position the loop visits first shows what was
chosen for it, and the rest is the loop on the swapped array. -/
theorem swapDown_inj {c c' : ℕ → ℕ} (hc : ∀ k, c k ≤ k) (hc' : ∀ k, c' k ≤ k) {i : ℕ} :
    ∀ {a : Array α}, a.toList.Nodup → (i = 0 ∨ i < a.size) → swapDown c i a = swapDown c' i a →
      ∀ k, 0 < k → k ≤ i → c k = c' k := by
  induction i with
  | zero => intro a _ _ _ k h0 hk; omega
  | succ i ih =>
    intro a hn hi he k h0 hk
    have ha : i + 1 < a.size := by omega
    have hle := hc (i + 1)
    have hle' := hc' (i + 1)
    have htop : a[c (i + 1)]? = a[c' (i + 1)]? := by
      rw [← getElem?_swapDown_top hc ha, ← getElem?_swapDown_top hc' ha, he]
    have hsame : c (i + 1) = c' (i + 1) := by
      rw [← Array.getElem?_toList, ← Array.getElem?_toList] at htop
      exact (List.getElem?_inj (by simp; omega) hn).mp htop
    by_cases hki : k = i + 1
    · rw [hki, hsame]
    · rw [swapDown, swapDown, hsame] at he
      refine ih ?_ (by simp; omega) he k h0 (by omega)
      exact (swapIfInBounds_perm a _ _).nodup_iff.mpr hn

theorem swapDown_congr {c c' : ℕ → ℕ} {i : ℕ} (h : ∀ k, 0 < k → k ≤ i → c k = c' k) :
    ∀ a : Array α, swapDown c i a = swapDown c' i a := by
  induction i with
  | zero => exact fun _ => rfl
  | succ i ih =>
    intro a
    rw [swapDown, swapDown, h (i + 1) (by omega) le_rfl]
    exact ih (fun k h0 hk => h k h0 (by omega)) _

/-- Two orders of one list that differ at most in their first entries are the same. -/
theorem eq_of_perm_of_tail {xs ys : List α} (hp : ys.Perm xs)
    (h : ∀ k, 0 < k → ys[k]? = xs[k]?) : ys = xs := by
  cases xs with
  | nil => exact hp.eq_nil
  | cons x xs =>
    cases ys with
    | nil => exact absurd hp.symm.eq_nil (List.cons_ne_nil x xs)
    | cons y ys =>
      have htail : ys = xs := List.ext_getElem? fun k => by simpa using h (k + 1) (by omega)
      subst htail
      have hone : [y].Perm [x] := (List.perm_append_right_iff ys).mp hp
      rw [List.singleton_perm_singleton.mp hone]

/-- Every order is reached: the entry wanted at the position the loop visits first lies at or before
it, since the later positions hold what they should. -/
theorem exists_swapDown {i : ℕ} : ∀ {a : Array α} {ys : List α}, ys.Nodup → ys.Perm a.toList →
    (i = 0 ∨ i < a.size) → (∀ k, i < k → ys[k]? = a.toList[k]?) →
    ∃ c : ℕ → ℕ, (∀ k, c k ≤ k) ∧ (swapDown c i a).toList = ys := by
  induction i with
  | zero =>
    intro a ys _ hp _ h
    exact ⟨fun _ => 0, fun _ => Nat.zero_le _, (eq_of_perm_of_tail hp h).symm⟩
  | succ i ih =>
    intro a ys hn hp hi h
    have ha : i + 1 < a.size := by omega
    have hlen : ys.length = a.size := by simpa using hp.length_eq
    have hmem : ys[i + 1] ∈ a.toList := hp.subset (List.getElem_mem _)
    obtain ⟨j, hj, hget⟩ := List.mem_iff_getElem.mp hmem
    have hja : j < a.size := by simpa using hj
    have hji : j ≤ i + 1 := by
      by_contra hlt
      have he : ys[j]? = ys[i + 1]? := by
        rw [h j (by omega), List.getElem?_eq_getElem hj, hget, List.getElem?_eq_getElem]
      exact hlt ((List.getElem?_inj (by omega) hn).mp he).le
    have hswap : ∀ k, i < k → ys[k]? = (a.swapIfInBounds (i + 1) j).toList[k]? := by
      intro k hk
      refine Eq.trans ?_ Array.getElem?_toList.symm
      rw [getElem?_swapIfInBounds ha hja]
      split_ifs with hjk hik
      · obtain rfl : j = i + 1 := by omega
        rw [← hjk, List.getElem?_eq_getElem (by omega), ← hget, Array.getElem?_eq_getElem hja,
          Array.getElem_toList]
      · rw [← hik, List.getElem?_eq_getElem (by omega), ← hget, Array.getElem?_eq_getElem hja,
          Array.getElem_toList]
      · rw [h k (by omega), Array.getElem?_toList]
    obtain ⟨c, hc, he⟩ := ih hn (hp.trans (swapIfInBounds_perm a _ _).symm) (by simp; omega) hswap
    refine ⟨Function.update c (i + 1) j, fun k => ?_, ?_⟩
    · by_cases hk : k = i + 1
      · rw [hk, Function.update_self]
        exact hji
      · rw [Function.update_of_ne hk]
        exact hc k
    · rw [swapDown, Function.update_self, ← he]
      refine congrArg Array.toList (swapDown_congr (fun k _ hk => ?_) _)
      exact Function.update_of_ne (by omega) _ _

theorem Choices.toFun_le {n : ℕ} (c : Choices n) (k : ℕ) : c.toFun k ≤ k := by
  cases k with
  | zero => exact le_rfl
  | succ k =>
    rw [Choices.toFun]
    split_ifs with h
    · exact Nat.lt_succ_iff.mp (c ⟨k, h⟩).isLt
    · exact Nat.zero_le _

theorem Choices.toFun_at {n : ℕ} (c : Choices n) (k : Fin (n - 1)) : c.toFun (k + 1) = c k := by
  rw [Choices.toFun, dif_pos k.isLt]

theorem Choices.ext_toFun {n : ℕ} {c c' : Choices n}
    (h : ∀ k, 0 < k → k ≤ n - 1 → c.toFun k = c'.toFun k) : c = c' := by
  funext k
  refine Fin.ext ?_
  rw [← c.toFun_at, ← c'.toFun_at]
  exact h _ (Nat.succ_pos _) k.isLt

theorem arrange_perm {n : ℕ} (c : Choices n) (items : List α) : (arrange c items).Perm items :=
  swapDown_perm _ _ _

/-- A sequence of choices for each order of a list without repetitions, and only one. -/
theorem arrange_bijective {items : List α} (hn : items.Nodup) :
    Function.Bijective fun c : Choices items.length =>
      (⟨arrange c items, arrange_perm c items⟩ : {ys : List α // ys.Perm items}) := by
  have hstart : items.length - 1 = 0 ∨ items.length - 1 < items.toArray.size := by simp; omega
  constructor
  · intro c c' he
    have hlist : arrange c items = arrange c' items := congrArg Subtype.val he
    refine Choices.ext_toFun (swapDown_inj c.toFun_le c'.toFun_le ?_ hstart ?_)
    · exact hn
    · exact Array.toList_inj.mp hlist
  · intro ⟨ys, hp⟩
    obtain ⟨c, hc, he⟩ := exists_swapDown (hp.nodup_iff.mpr hn) hp hstart fun k hk => by
      rw [List.getElem?_eq_none (by have := hp.length_eq; omega),
        List.getElem?_eq_none (by simp; omega)]
    let choices : Choices items.length := fun k => ⟨c (k + 1), Nat.lt_succ_of_le (hc _)⟩
    refine ⟨choices, Subtype.ext (Eq.trans ?_ he)⟩
    refine congrArg Array.toList (swapDown_congr (fun k h0 hk => ?_) _)
    obtain ⟨k, rfl⟩ := Nat.exists_eq_succ_of_ne_zero h0.ne'
    exact choices.toFun_at ⟨k, hk⟩

/-! ### Counting -/

theorem card_orders {items : List α} (hn : items.Nodup) :
    Nat.card {ys : List α // ys.Perm items} = items.length.factorial := by
  classical
  rw [Nat.subtype_card items.permutations.toFinset fun ys => by
    rw [List.mem_toFinset, List.mem_permutations]]
  rw [List.toFinset_card_of_nodup (List.nodup_permutations items hn), List.length_permutations]

theorem card_choices {items : List α} (hn : items.Nodup) :
    Nat.card (Choices items.length) = items.length.factorial := by
  rw [Nat.card_congr (Equiv.ofBijective _ (arrange_bijective hn)), card_orders hn]

/-- The orders that begin with `front` are the orders of what is left of the list. -/
theorem card_orders_from {items front : List α} (hn : items.Nodup) (hf : front.Nodup)
    (hsub : front ⊆ items) :
    Nat.card {ys : List α // ys.Perm items ∧ ys.take front.length = front} =
      (items.length - front.length).factorial := by
  classical
  have hsplit : (front ++ items.diff front).Perm items :=
    List.subperm_append_diff_self_of_count_le (List.subperm_ext_iff.mp (hf.subperm hsub))
  have hrest : (items.diff front).length = items.length - front.length := by
    have hlen := hsplit.length_eq
    rw [List.length_append] at hlen
    omega
  have hnodup : (items.diff front).Nodup := (hsplit.nodup_iff.mpr hn).of_append_right
  rw [← hrest, ← card_orders hnodup]
  refine Nat.card_congr
    { toFun := fun ys => ⟨ys.1.drop front.length, ?_⟩
      invFun := fun zs => ⟨front ++ zs.1, ?_⟩
      left_inv := fun ys => Subtype.ext ?_
      right_inv := fun zs => Subtype.ext ?_ }
  · obtain ⟨ys, hp, hy⟩ := ys
    have hsame : front ++ ys.drop front.length = ys := by
      conv_rhs => rw [← List.take_append_drop front.length ys, hy]
    refine (List.perm_append_left_iff front).mp ?_
    rw [hsame]
    exact hp.trans hsplit.symm
  · exact ⟨((List.perm_append_left_iff front).mpr zs.2).trans hsplit, List.take_left⟩
  · obtain ⟨ys, -, hy⟩ := ys
    show front ++ ys.drop front.length = ys
    conv_rhs => rw [← List.take_append_drop front.length ys, hy]
  · exact List.drop_left

theorem card_choices_from {items front : List α} (hn : items.Nodup) (hf : front.Nodup)
    (hsub : front ⊆ items) :
    Nat.card {c : Choices items.length // (arrange c items).take front.length = front} =
      (items.length - front.length).factorial := by
  rw [← card_orders_from hn hf hsub]
  refine Nat.card_congr (Equiv.trans ?_ (Equiv.subtypeSubtypeEquivSubtypeInter _ _))
  exact (Equiv.ofBijective _ (arrange_bijective hn)).subtypeEquiv fun c => Iff.rfl

end FisherYates
