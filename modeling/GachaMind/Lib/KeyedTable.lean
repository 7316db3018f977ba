import Mathlib

/-!
# Insertion-ordered tables keyed by a projection

Rows are kept in insertion order and no two rows share a key. `set` replaces the
row of a present key in place and appends otherwise, the behaviour of an
insertion-ordered map whose values carry their own key; `insertNew` is the
insertion under a uniqueness constraint. The uniqueness of keys is a field, so
that every operation proves it once.
-/

namespace KeyedTable

universe u v w

structure Table {α : Type u} {κ : Type v} (key : α → κ) where
  rows : List α
  nodup : (rows.map key).Nodup

variable {α : Type u} {κ : Type v} {key : α → κ}

@[ext]
theorem Table.ext {t s : Table key} (h : t.rows = s.rows) : t = s := by
  cases t
  cases s
  cases h
  rfl

instance [DecidableEq α] : DecidableEq (Table key) := fun t s =>
  decidable_of_iff (t.rows = s.rows) ⟨Table.ext, fun h => by rw [h]⟩

def Table.empty : Table key := ⟨[], List.nodup_nil⟩

instance : Inhabited (Table key) := ⟨Table.empty⟩

def Table.keys (t : Table key) : List κ := t.rows.map key

def Table.size (t : Table key) : ℕ := t.rows.length

@[simp] theorem rows_empty : (Table.empty : Table key).rows = [] := rfl
@[simp] theorem keys_empty : (Table.empty : Table key).keys = [] := rfl
@[simp] theorem size_empty : (Table.empty : Table key).size = 0 := rfl

theorem keys_nodup (t : Table key) : t.keys.Nodup := t.nodup

theorem length_keys (t : Table key) : t.keys.length = t.size := List.length_map ..

theorem key_mem_keys {t : Table key} {x : α} (h : x ∈ t.rows) : key x ∈ t.keys :=
  List.mem_map_of_mem h

theorem mem_keys {t : Table key} {k : κ} : k ∈ t.keys ↔ ∃ x ∈ t.rows, key x = k :=
  List.mem_map

theorem rows_inj {t : Table key} {x y : α} (hx : x ∈ t.rows) (hy : y ∈ t.rows)
    (h : key x = key y) : x = y :=
  List.inj_on_of_nodup_map t.nodup hx hy h

def Table.mapRows (t : Table key) (f : α → α) (hf : ∀ x, key (f x) = key x) : Table key where
  rows := t.rows.map f
  nodup := by
    have h : (t.rows.map f).map key = t.rows.map key := by simp [Function.comp_def, hf]
    rw [h]
    exact t.nodup

@[simp] theorem rows_mapRows (t : Table key) (f : α → α) (hf : ∀ x, key (f x) = key x) :
    (t.mapRows f hf).rows = t.rows.map f := rfl

@[simp] theorem keys_mapRows (t : Table key) (f : α → α) (hf : ∀ x, key (f x) = key x) :
    (t.mapRows f hf).keys = t.keys := by
  simp [Table.keys, Function.comp_def, hf]

@[simp] theorem size_mapRows (t : Table key) (f : α → α) (hf : ∀ x, key (f x) = key x) :
    (t.mapRows f hf).size = t.size := by
  simp [Table.size]

variable [DecidableEq κ]

def Table.get? (t : Table key) (k : κ) : Option α := t.rows.find? fun x => key x = k

theorem get?_eq_some {t : Table key} {k : κ} {x : α} :
    t.get? k = some x ↔ x ∈ t.rows ∧ key x = k := by
  constructor
  · intro h
    exact ⟨List.mem_of_find?_eq_some h, by simpa using List.find?_some h⟩
  · intro hs
    obtain ⟨hx, rfl⟩ := hs
    cases hf : t.get? (key x) with
    | none => simpa using List.find?_eq_none.mp hf x hx
    | some y =>
      have hy : key y = key x := by simpa using List.find?_some hf
      rw [rows_inj (List.mem_of_find?_eq_some hf) hx hy]

theorem get?_eq_none {t : Table key} {k : κ} : t.get? k = none ↔ k ∉ t.keys := by
  simp [Table.get?, Table.keys, List.find?_eq_none]

theorem get?_of_mem {t : Table key} {x : α} (h : x ∈ t.rows) : t.get? (key x) = some x :=
  get?_eq_some.mpr ⟨h, rfl⟩

theorem get?_isSome {t : Table key} {k : κ} : (t.get? k).isSome ↔ k ∈ t.keys := by
  rw [Option.isSome_iff_ne_none, ne_eq, get?_eq_none, not_not]

theorem exists_get? {t : Table key} {k : κ} (h : k ∈ t.keys) : ∃ x, t.get? k = some x :=
  Option.isSome_iff_exists.mp (get?_isSome.mpr h)

theorem mem_keys_of_get? {t : Table key} {k : κ} {x : α} (h : t.get? k = some x) : k ∈ t.keys :=
  get?_isSome.mp (by rw [h]; rfl)

/-! ### Deleting a key -/

def Table.erase (t : Table key) (k : κ) : Table key where
  rows := t.rows.filter fun x => key x ≠ k
  nodup := t.nodup.sublist (List.filter_sublist.map key)

@[simp] theorem rows_erase (t : Table key) (k : κ) :
    (t.erase k).rows = t.rows.filter fun x => key x ≠ k := rfl

theorem keys_erase (t : Table key) (k : κ) : (t.erase k).keys = t.keys.filter (· ≠ k) := by
  simp [Table.keys, List.filter_map, Function.comp_def]

@[simp] theorem mem_keys_erase {t : Table key} {k l : κ} :
    l ∈ (t.erase k).keys ↔ l ∈ t.keys ∧ l ≠ k := by
  simp [keys_erase]

theorem get?_erase (t : Table key) (k l : κ) :
    (t.erase k).get? l = if l = k then none else t.get? l := by
  split_ifs with h
  · rw [get?_eq_none]
    simp [h]
  · apply Option.ext
    intro x
    simp only [get?_eq_some, rows_erase, List.mem_filter, decide_eq_true_eq]
    constructor
    · intro hs
      obtain ⟨⟨hx, -⟩, hl⟩ := hs
      exact ⟨hx, hl⟩
    · intro hs
      obtain ⟨hx, rfl⟩ := hs
      exact ⟨⟨hx, h⟩, rfl⟩

theorem size_erase (t : Table key) (k : κ) :
    (t.erase k).size = if k ∈ t.keys then t.size - 1 else t.size := by
  rw [← length_keys, ← length_keys, keys_erase]
  split_ifs with h
  · rw [← List.length_erase_of_mem h, List.Nodup.erase_eq_filter (keys_nodup t) k]
    congr 2
    funext l
    by_cases hl : l = k <;> simp [hl]
  · rw [List.filter_eq_self.mpr]
    intro l hl
    simpa using fun hk : l = k => h (hk ▸ hl)

theorem size_le_size_erase (t : Table key) (k : κ) : t.size ≤ (t.erase k).size + 1 := by
  rw [size_erase]
  split_ifs <;> omega

/-! ### Updating rows in place -/

theorem get?_mapRows (t : Table key) (f : α → α) (hf : ∀ x, key (f x) = key x) (k : κ) :
    (t.mapRows f hf).get? k = (t.get? k).map f := by
  simp [Table.get?, List.find?_map, hf]

def Table.modify (t : Table key) (k : κ) (f : α → α) (hf : ∀ x, key (f x) = key x) : Table key :=
  t.mapRows (fun x => if key x = k then f x else x) fun x => by split_ifs <;> simp [hf]

@[simp] theorem rows_modify (t : Table key) (k : κ) (f : α → α) (hf : ∀ x, key (f x) = key x) :
    (t.modify k f hf).rows = t.rows.map fun x => if key x = k then f x else x := rfl

@[simp] theorem keys_modify (t : Table key) (k : κ) (f : α → α) (hf : ∀ x, key (f x) = key x) :
    (t.modify k f hf).keys = t.keys := keys_mapRows ..

@[simp] theorem size_modify (t : Table key) (k : κ) (f : α → α) (hf : ∀ x, key (f x) = key x) :
    (t.modify k f hf).size = t.size := size_mapRows ..

theorem get?_modify (t : Table key) (k l : κ) (f : α → α) (hf : ∀ x, key (f x) = key x) :
    (t.modify k f hf).get? l = if l = k then (t.get? l).map f else t.get? l := by
  rw [Table.modify, get?_mapRows]
  cases hx : t.get? l with
  | none => simp
  | some x =>
    have hl : key x = l := (get?_eq_some.mp hx).2
    simp only [Option.map_some, hl]
    split_ifs <;> rfl

/-! ### Insertion -/

def Table.insertNew (t : Table key) (x : α) (h : key x ∉ t.keys) : Table key where
  rows := t.rows ++ [x]
  nodup := by
    rw [List.map_append, List.nodup_append]
    refine ⟨t.nodup, List.nodup_singleton _, ?_⟩
    intro k hk l hl heq
    rw [List.map_singleton, List.mem_singleton] at hl
    subst heq
    subst hl
    exact h hk

def Table.replaceRow (t : Table key) (x : α) : Table key :=
  t.mapRows (fun y => if key y = key x then x else y) fun y => by
    split_ifs with h
    · exact h.symm
    · rfl

/-- Replaces the row with the same key in place, or appends. -/
def Table.set (t : Table key) (x : α) : Table key :=
  if h : key x ∈ t.keys then t.replaceRow x else t.insertNew x h

theorem rows_set_of_new {t : Table key} {x : α} (h : key x ∉ t.keys) :
    (t.set x).rows = t.rows ++ [x] := by
  simp [Table.set, h, Table.insertNew]

theorem keys_set_of_new {t : Table key} {x : α} (h : key x ∉ t.keys) :
    (t.set x).keys = t.keys ++ [key x] := by
  simp [Table.keys, rows_set_of_new h]

theorem size_set_of_new {t : Table key} {x : α} (h : key x ∉ t.keys) :
    (t.set x).size = t.size + 1 := by
  simp [Table.size, rows_set_of_new h]

theorem keys_set_of_mem {t : Table key} {x : α} (h : key x ∈ t.keys) :
    (t.set x).keys = t.keys := by
  rw [Table.set, dif_pos h]
  exact keys_mapRows ..

@[simp] theorem mem_keys_set {t : Table key} {x : α} {k : κ} :
    k ∈ (t.set x).keys ↔ k = key x ∨ k ∈ t.keys := by
  by_cases h : key x ∈ t.keys
  · rw [keys_set_of_mem h]
    constructor
    · exact Or.inr
    · intro hs
      rcases hs with rfl | hk
      · exact h
      · exact hk
  · rw [keys_set_of_new h, List.mem_append, List.mem_singleton, or_comm]

theorem mem_rows_set {t : Table key} {x y : α} :
    y ∈ (t.set x).rows ↔ y = x ∨ (y ∈ t.rows ∧ key y ≠ key x) := by
  by_cases h : key x ∈ t.keys
  · rw [Table.set, dif_pos h, Table.replaceRow, rows_mapRows, List.mem_map]
    constructor
    · intro hs
      obtain ⟨z, hz, rfl⟩ := hs
      split_ifs with hk
      · exact Or.inl rfl
      · exact Or.inr ⟨hz, hk⟩
    · intro hs
      rcases hs with rfl | ⟨hy, hk⟩
      · obtain ⟨z, hz, hkz⟩ := mem_keys.mp h
        exact ⟨z, hz, if_pos hkz⟩
      · exact ⟨y, hy, if_neg hk⟩
  · rw [rows_set_of_new h, List.mem_append, List.mem_singleton]
    constructor
    · intro hs
      rcases hs with hy | rfl
      · exact Or.inr ⟨hy, fun hk => h (hk ▸ key_mem_keys hy)⟩
      · exact Or.inl rfl
    · intro hs
      rcases hs with rfl | ⟨hy, -⟩
      · exact Or.inr rfl
      · exact Or.inl hy

/-- What a row and its replacement have in common stays in place. -/
theorem map_rows_set {β : Type w} {t : Table key} {x y : α} (f : α → β) (hy : y ∈ t.rows)
    (hk : key x = key y) (hf : f x = f y) : (t.set x).rows.map f = t.rows.map f := by
  have hmem : key x ∈ t.keys := hk ▸ key_mem_keys hy
  rw [Table.set, dif_pos hmem, Table.replaceRow, rows_mapRows, List.map_map]
  refine List.map_congr_left fun z hz => ?_
  rw [Function.comp_apply]
  split_ifs with he
  · rw [rows_inj hz hy (he.trans hk), hf]
  · rfl

theorem get?_set (t : Table key) (x : α) (k : κ) :
    (t.set x).get? k = if k = key x then some x else t.get? k := by
  split_ifs with h
  · rw [get?_eq_some, mem_rows_set]
    exact ⟨Or.inl rfl, h.symm⟩
  · apply Option.ext
    intro y
    simp only [get?_eq_some, mem_rows_set]
    constructor
    · intro hs
      rcases hs with ⟨rfl | ⟨hy, -⟩, hk⟩
      · exact absurd hk.symm h
      · exact ⟨hy, hk⟩
    · intro hs
      obtain ⟨hy, rfl⟩ := hs
      exact ⟨Or.inr ⟨hy, h⟩, rfl⟩

theorem get?_insertNew (t : Table key) (x : α) (h : key x ∉ t.keys) (k : κ) :
    (t.insertNew x h).get? k = if k = key x then some x else t.get? k := by
  rw [← get?_set, Table.set, dif_neg h]

theorem set_self {t : Table key} {k : κ} {x : α} (h : t.get? k = some x) : t.set x = t := by
  obtain ⟨hx, -⟩ := get?_eq_some.mp h
  apply Table.ext
  rw [Table.set, dif_pos (key_mem_keys hx), Table.replaceRow, rows_mapRows]
  refine (List.map_congr_left fun y hy => ?_).trans (List.map_id _)
  rw [id_eq]
  split_ifs with hk
  · exact rows_inj hx hy hk.symm
  · rfl

theorem set_set {t : Table key} {x y : α} (h : key x = key y) : (t.set x).set y = t.set y := by
  apply Table.ext
  have hy : key y ∈ (t.set x).keys := mem_keys_set.mpr (.inl h.symm)
  rw [Table.set, dif_pos hy, Table.replaceRow, rows_mapRows]
  by_cases hx : key x ∈ t.keys
  · have hy' : key y ∈ t.keys := h ▸ hx
    rw [Table.set, dif_pos hx, Table.replaceRow, rows_mapRows, Table.set, dif_pos hy',
      Table.replaceRow, rows_mapRows, List.map_map]
    refine List.map_congr_left fun z _ => ?_
    simp only [Function.comp_apply, h]
    split_ifs <;> simp_all
  · have hy' : key y ∉ t.keys := h ▸ hx
    rw [rows_set_of_new hx, rows_set_of_new hy', List.map_append, List.map_singleton, if_pos h]
    congr 1
    refine (List.map_congr_left fun z hz => ?_).trans (List.map_id _)
    rw [id_eq, if_neg]
    intro hk
    exact hy' (hk ▸ key_mem_keys hz)

theorem mem_eraseP_key {l : List α} (h : (l.map key).Nodup) {k : κ} {x : α} :
    x ∈ l.eraseP (fun y => key y = k) ↔ x ∈ l ∧ key x ≠ k := by
  induction l with
  | nil => simp
  | cons y l ih =>
    rw [List.map_cons, List.nodup_cons] at h
    have hy : ∀ z ∈ l, key z ≠ key y := fun z hz he => h.1 (he ▸ List.mem_map_of_mem hz)
    by_cases hk : key y = k
    · rw [List.eraseP_cons_of_pos (by simpa using hk)]
      constructor
      · exact fun hx => ⟨List.mem_cons_of_mem _ hx, hk ▸ hy x hx⟩
      · intro hs
        obtain ⟨hx, hne⟩ := hs
        rcases List.mem_cons.mp hx with rfl | hx
        · exact absurd hk hne
        · exact hx
    · rw [List.eraseP_cons_of_neg (by simpa using hk), List.mem_cons, ih h.2, List.mem_cons]
      constructor
      · intro hs
        rcases hs with rfl | ⟨hx, hne⟩
        · exact ⟨.inl rfl, hk⟩
        · exact ⟨.inr hx, hne⟩
      · intro hs
        rcases hs with ⟨rfl | hx, hne⟩
        · exact .inl rfl
        · exact .inr ⟨hx, hne⟩

end KeyedTable
