import GachaMind.Lib.Ranking

/-!
# Pages behind a key

A statement that takes the rows below a key, sorts them by the key, descending, and returns the
first ones. Rows of one key come in any order, another one with every statement. The key of the
last row of a page is where the next page starts: no row is lost or returned twice as long as
the rows of a page and those behind it have different keys.
-/

namespace Keyset
open Ranking

universe u v

variable {α : Type u} {κ : Type v} [LinearOrder κ] {key : α → κ}

/-- The rows below a key, all of them for `⊤`. -/
def past (key : α → κ) (after : WithTop κ) (rows : List α) : List α :=
  rows.filter fun x => decide ((key x : WithTop κ) < after)

/-- An order in which a statement may return `rows`. -/
structure Sorts (key : α → κ) (rows sorted : List α) : Prop where
  perm : sorted.Perm rows
  descending : Descending key sorted

def sort (key : α → κ) (rows : List α) : List α := rows.insertionSort fun x y => key y ≤ key x

theorem sorts_sort (key : α → κ) (rows : List α) : Sorts key rows (sort key rows) where
  perm := List.perm_insertionSort _ rows
  descending := by
    have htotal : Std.Total fun x y : α => key y ≤ key x := ⟨fun x y => le_total (key y) (key x)⟩
    have htrans : IsTrans α fun x y => key y ≤ key x := ⟨fun x y z hxy hyz => le_trans hyz hxy⟩
    exact List.pairwise_insertionSort _ rows

theorem past_top (rows : List α) : past key ⊤ rows = rows := by
  rw [past, List.filter_eq_self]
  intro x _
  exact decide_eq_true (WithTop.coe_lt_top _)

theorem mem_past {after : WithTop κ} {rows : List α} {x : α} :
    x ∈ past key after rows ↔ x ∈ rows ∧ (key x : WithTop κ) < after := by
  rw [past, List.mem_filter, decide_eq_true_eq]

theorem past_append (after : WithTop κ) (rows rows' : List α) :
    past key after (rows ++ rows') = past key after rows ++ past key after rows' :=
  List.filter_append _ _

theorem past_eq_nil {after : WithTop κ} {rows : List α}
    (h : ∀ x ∈ rows, after ≤ (key x : WithTop κ)) : past key after rows = [] := by
  rw [past, List.filter_eq_nil_iff]
  intro x hx hlt
  exact absurd (of_decide_eq_true hlt) (not_lt.mpr (h x hx))

theorem past_eq_self {after : WithTop κ} {rows : List α}
    (h : ∀ x ∈ rows, (key x : WithTop κ) < after) : past key after rows = rows := by
  rw [past, List.filter_eq_self]
  exact fun x hx => decide_eq_true (h x hx)

theorem past_past {after before : WithTop κ} (h : after ≤ before) (rows : List α) :
    past key after (past key before rows) = past key after rows := by
  rw [past, past, past, List.filter_filter]
  refine List.filter_congr fun x _ => ?_
  by_cases hx : (key x : WithTop κ) < after
  · simp [hx, hx.trans_le h]
  · simp [hx]

theorem length_past_lt {after : WithTop κ} {rows : List α} {x : α}
    (hx : x ∈ past key after rows) :
    (past key (key x) rows).length < (past key after rows).length := by
  rw [← past_past (mem_past.mp hx).2.le rows]
  refine List.length_filter_lt_length_iff_exists.mpr ⟨x, hx, ?_⟩
  simp

section Page
variable {after : WithTop κ} {rows page rest : List α} {last : α}

theorem Sorts.last_le (h : Sorts key (past key after rows) (page ++ rest))
    (hlast : page.getLast? = some last) : ∀ x ∈ page, key last ≤ key x := by
  obtain ⟨start, rfl⟩ := List.getLast?_eq_some_iff.mp hlast
  intro x hx
  rcases List.mem_append.mp hx with hx | hx
  · have hdesc := (List.pairwise_append.mp h.descending).1
    exact (List.pairwise_append.mp hdesc).2.2 x hx last (List.mem_singleton_self _)
  · exact (congrArg key (List.mem_singleton.mp hx)).ge

theorem Sorts.last_lt (h : Sorts key (past key after rows) (page ++ rest))
    (hlast : page.getLast? = some last) : (key last : WithTop κ) < after := by
  have hmem : last ∈ page ++ rest := List.mem_append_left _ (List.mem_of_getLast? hlast)
  exact (mem_past.mp (h.perm.mem_iff.mp hmem)).2

/-- What a page leaves is what the next statement finds behind its last row. -/
theorem Sorts.behind (h : Sorts key (past key after rows) (page ++ rest))
    (hnodup : (rows.map key).Nodup) (hlast : page.getLast? = some last) :
    Sorts key (past key (key last) rows) rest := by
  have hdesc := List.pairwise_append.mp h.descending
  refine ⟨?_, hdesc.2.1⟩
  have hkeys : ((page ++ rest).map key).Nodup := by
    have hsub : (past key after rows).map key |>.Nodup :=
      hnodup.sublist (List.filter_sublist.map key)
    exact (h.perm.map key).nodup_iff.mpr hsub
  have hmem := List.mem_of_getLast? hlast
  have hbelow : ∀ x ∈ rest, (key x : WithTop κ) < key last := by
    intro x hx
    rw [List.map_append] at hkeys
    have hne := (List.nodup_append.mp hkeys).2.2 _ (List.mem_map_of_mem hmem) _
      (List.mem_map_of_mem hx)
    exact WithTop.coe_lt_coe.mpr (lt_of_le_of_ne (hdesc.2.2 last hmem x hx) (Ne.symm hne))
  have habove : ∀ x ∈ page, ((key last : κ) : WithTop κ) ≤ key x := fun x hx =>
    WithTop.coe_le_coe.mpr (h.last_le hlast x hx)
  have hpast := h.perm.filter fun x => decide ((key x : WithTop κ) < key last)
  change (past key (key last) (page ++ rest)).Perm (past key (key last) (past key after rows))
    at hpast
  rwa [past_append, past_eq_nil habove, List.nil_append, past_eq_self hbelow,
    past_past (h.last_lt hlast).le] at hpast

/-- A page, and behind it any order of what is behind its last row. -/
theorem Sorts.append (h : Sorts key (past key after rows) (page ++ rest))
    (hnodup : (rows.map key).Nodup) (hlast : page.getLast? = some last) {next : List α}
    (hnext : Sorts key (past key (key last) rows) next) :
    Sorts key (past key after rows) (page ++ next) where
  perm := ((hnext.perm.trans (h.behind hnodup hlast).perm.symm).append_left page).trans h.perm
  descending := by
    refine List.pairwise_append.mpr
      ⟨(List.pairwise_append.mp h.descending).1, hnext.descending, fun x hx y hy => ?_⟩
    have hy := (mem_past.mp (hnext.perm.mem_iff.mp hy)).2
    exact (WithTop.coe_lt_coe.mp hy).le.trans (h.last_le hlast x hx)

end Page

omit [LinearOrder κ] in
theorem nodup_of_length {rows shown : List α} (hsub : ∀ x ∈ shown, x ∈ rows)
    (hshown : (shown.map key).Nodup) (hlength : rows.length ≤ shown.length) :
    (rows.map key).Nodup := by
  have hsubset : shown.map key ⊆ rows.map key := by
    intro k hk
    obtain ⟨x, hx, rfl⟩ := List.mem_map.mp hk
    exact List.mem_map_of_mem (hsub x hx)
  have hperm := (List.subperm_of_subset hshown hsubset).perm_of_length_le (by simpa using hlength)
  exact hperm.nodup_iff.mp hshown

end Keyset
