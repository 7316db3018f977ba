import Mathlib

/-!
# Totals kept by key

An accumulator starts a total from a first entry and adds further entries to it, as the two
branches of an upsert do. `total` is the total of a list of entries and `none` of the
empty one.
-/

namespace GroupFold

universe u v w x

variable {α : Type u} {β : Type v}

structure Accumulator (α : Type u) (β : Type v) where
  start : α → β
  add : β → α → β

namespace Accumulator

def extend (acc : Accumulator α β) : Option β → α → Option β
  | none, a => some (acc.start a)
  | some b, a => some (acc.add b a)

def total (acc : Accumulator α β) (l : List α) : Option β := l.foldl acc.extend none

@[simp] theorem total_nil (acc : Accumulator α β) : acc.total [] = none := rfl

theorem total_concat (acc : Accumulator α β) (l : List α) (a : α) :
    acc.total (l ++ [a]) = acc.extend (acc.total l) a := by
  simp [total]

theorem total_eq_none (acc : Accumulator α β) {l : List α} : acc.total l = none ↔ l = [] := by
  induction l using List.reverseRecOn with
  | nil => simp
  | append_singleton l a _ =>
    rw [total_concat]
    cases acc.total l <;> simp [extend]

theorem total_map {γ : Type w} {δ : Type x} (acc : Accumulator α β) (acc' : Accumulator δ γ)
    (f : β → γ) (g : α → δ) (hstart : ∀ a, f (acc.start a) = acc'.start (g a))
    (hadd : ∀ b a, f (acc.add b a) = acc'.add (f b) (g a)) (l : List α) :
    (acc.total l).map f = acc'.total (l.map g) := by
  induction l using List.reverseRecOn with
  | nil => rfl
  | append_singleton l a ih =>
    rw [List.map_append, List.map_singleton, total_concat, total_concat, ← ih]
    cases acc.total l with
    | none => exact congrArg some (hstart a)
    | some b => exact congrArg some (hadd b a)

/-- Where the order of two entries never matters, neither does that of a list. -/
theorem total_perm (acc : Accumulator α β)
    (hstart : ∀ a b, acc.add (acc.start a) b = acc.add (acc.start b) a)
    (hadd : ∀ t a b, acc.add (acc.add t a) b = acc.add (acc.add t b) a)
    {l l' : List α} (h : l.Perm l') : acc.total l = acc.total l' := by
  refine h.foldl_eq' (fun a _ b _ t => ?_) none
  cases t with
  | none => exact congrArg some (hstart a b)
  | some t => exact congrArg some (hadd t a b)

end Accumulator

/-! ### The last of the greatest entries -/

variable {κ : Type w} [LinearOrder κ]

/-- The accumulator of an upsert that keeps the newer of two entries, the later one of equals. -/
def newest (key : α → κ) : Accumulator α α where
  start a := a
  add b a := if key b ≤ key a then a else b

theorem newest_mem {key : α → κ} {l : List α} {a : α} (h : (newest key).total l = some a) :
    a ∈ l := by
  induction l using List.reverseRecOn generalizing a with
  | nil => cases h
  | append_singleton l b ih =>
    rw [Accumulator.total_concat] at h
    cases hl : (newest key).total l with
    | none =>
      rw [hl] at h
      obtain rfl := Option.some.inj h
      exact List.mem_append_right l (List.mem_singleton_self _)
    | some c =>
      rw [hl] at h
      have hpick := Option.some.inj h
      simp only [newest] at hpick
      split_ifs at hpick with hle
      · exact hpick ▸ List.mem_append_right l (List.mem_singleton_self b)
      · exact hpick ▸ List.mem_append_left _ (ih hl)

theorem newest_max {key : α → κ} {l : List α} {a : α} (h : (newest key).total l = some a) :
    ∀ x ∈ l, key x ≤ key a := by
  induction l using List.reverseRecOn generalizing a with
  | nil => cases h
  | append_singleton l b ih =>
    rw [Accumulator.total_concat] at h
    intro x hx
    cases hl : (newest key).total l with
    | none =>
      rw [hl] at h
      obtain rfl := Option.some.inj h
      rw [(Accumulator.total_eq_none _).mp hl, List.nil_append, List.mem_singleton] at hx
      exact hx ▸ le_rfl
    | some c =>
      rw [hl] at h
      have hpick := Option.some.inj h
      simp only [newest] at hpick
      split_ifs at hpick with hle
      · subst hpick
        rcases List.mem_append.mp hx with hx | hx
        · exact (ih hl x hx).trans hle
        · exact (List.mem_singleton.mp hx) ▸ le_rfl
      · subst hpick
        rcases List.mem_append.mp hx with hx | hx
        · exact ih hl x hx
        · exact (List.mem_singleton.mp hx) ▸ (not_le.mp hle).le

theorem newest_concat_of_max {key : α → κ} {l : List α} {a : α} (h : ∀ x ∈ l, key x ≤ key a) :
    (newest key).total (l ++ [a]) = some a := by
  rw [Accumulator.total_concat]
  cases hl : (newest key).total l with
  | none => rfl
  | some c => exact congrArg some (if_pos (h c (newest_mem hl)))

/-- Of entries with one key, only the last one matters. -/
theorem newest_append_const {key : α → κ} {l m : List α} {c : κ} {z : α}
    (hm : ∀ x ∈ m, key x = c) (hz : m.getLast? = some z) :
    (newest key).total (l ++ m) = (newest key).extend ((newest key).total l) z := by
  induction m using List.reverseRecOn generalizing z with
  | nil => cases hz
  | append_singleton m y ih =>
    obtain rfl : y = z := by simpa using hz
    rw [← List.append_assoc, Accumulator.total_concat]
    have hy : key y = c := hm y (List.mem_append_right _ (List.mem_singleton_self y))
    cases hlast : m.getLast? with
    | none => rw [List.getLast?_eq_none_iff.mp hlast, List.append_nil]
    | some x =>
      have hx : key x = c := hm x (List.mem_append_left _ (List.mem_of_getLast? hlast))
      rw [ih (fun w hw => hm w (List.mem_append_left _ hw)) hlast]
      cases (newest key).total l with
      | none => exact congrArg some (if_pos (hx.trans hy.symm).le)
      | some b =>
        by_cases hb : key b ≤ c
        · simp [Accumulator.extend, newest, hx, hy, hb]
        · simp [Accumulator.extend, newest, hx, hy, hb]

/-- Groups whose entries have one key each: the last entry of the last of the greatest groups. -/
theorem newest_flatMap {β : Type x} {key : α → κ} {f : β → List α} {k : β → κ}
    (hk : ∀ b, ∀ a ∈ f b, key a = k b) (l : List β) :
    (newest key).total (l.flatMap f) =
      ((newest k).total (l.filter fun b => !(f b).isEmpty)).bind fun b => (f b).getLast? := by
  induction l using List.reverseRecOn with
  | nil => rfl
  | append_singleton l b ih =>
    rw [List.flatMap_append, List.filter_append, List.flatMap_singleton]
    cases hlast : (f b).getLast? with
    | none =>
      have hnil := List.getLast?_eq_none_iff.mp hlast
      rw [hnil, List.append_nil, ih]
      simp [hnil]
    | some z =>
      have hz : key z = k b := hk b z (List.mem_of_getLast? hlast)
      have hkeep : [b].filter (fun b => !(f b).isEmpty) = [b] := by
        apply List.filter_eq_self.mpr
        intro c hc
        rw [List.mem_singleton.mp hc]
        cases hf : f b with
        | nil => rw [hf] at hlast; cases hlast
        | cons x xs => rfl
      rw [newest_append_const (hk b) hlast, hkeep, Accumulator.total_concat, ih]
      cases hnewest : (newest k).total (l.filter fun b => !(f b).isEmpty) with
      | none => exact hlast.symm
      | some b0 =>
        have hmem := List.mem_filter.mp (newest_mem hnewest)
        obtain ⟨y, hy⟩ : ∃ y, (f b0).getLast? = some y := by
          cases hf : f b0 with
          | nil => simp [hf] at hmem
          | cons x xs => exact ⟨_, List.getLast?_cons⟩
        have hkey : key y = k b0 := hk b0 y (List.mem_of_getLast? hy)
        simp only [Option.bind_some, hy, Accumulator.extend, newest, hkey, hz]
        split_ifs with hle
        · exact hlast.symm
        · exact hy.symm

end GroupFold
