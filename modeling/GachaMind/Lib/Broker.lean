import Mathlib

/-!
# Queues that redeliver

A broker keeps a message until a consumer acknowledges it. A message is ready, or held by the
consumer that it was delivered to, and is ready again when that consumer returns it or is lost.
A consumer holds one message at a time. What the broker no longer keeps was acknowledged, so
whatever a consumer makes sure of before it acknowledges holds of every such message.
-/

namespace Broker

universe u v

variable {κ : Type u} {μ : Type v}

structure Queue (κ : Type u) (μ : Type v) where
  ready : List μ
  held : κ → Option μ

namespace Queue

def ofList (ms : List μ) : Queue κ μ := ⟨ms, fun _ => none⟩

/-- The message is ready, or delivered and not acknowledged. -/
def Keeps (q : Queue κ μ) (m : μ) : Prop := m ∈ q.ready ∨ ∃ k, q.held k = some m

theorem keeps_ofList {ms : List μ} {m : μ} : (ofList ms : Queue κ μ).Keeps m ↔ m ∈ ms := by
  refine ⟨fun h => ?_, .inl⟩
  rcases h with h | ⟨k, hk⟩
  · exact h
  · cases hk

/-- The broker takes a message. -/
def publish (q : Queue κ μ) (m : μ) : Queue κ μ := { q with ready := q.ready ++ [m] }

theorem keeps_publish {q : Queue κ μ} {m x : μ} : (q.publish m).Keeps x ↔ q.Keeps x ∨ x = m := by
  rw [Keeps, publish, List.mem_append, List.mem_singleton]
  exact or_right_comm

variable [DecidableEq κ]

/-- Any ready message may be the next one: the order is not part of the interface. -/
def deliver (q : Queue κ μ) (k : κ) (i : ℕ) : Option (μ × Queue κ μ) :=
  if (q.held k).isSome then none
  else q.ready[i]?.map fun m => (m, ⟨q.ready.eraseIdx i, Function.update q.held k (some m)⟩)

def ack (q : Queue κ μ) (k : κ) : Queue κ μ := { q with held := Function.update q.held k none }

def requeue (q : Queue κ μ) (k : κ) : Queue κ μ :=
  match q.held k with
  | none => q
  | some m => ⟨q.ready ++ [m], Function.update q.held k none⟩

variable {q q' : Queue κ μ} {k : κ} {i : ℕ} {m : μ}

theorem deliver_spec (h : q.deliver k i = some (m, q')) :
    m ∈ q.ready ∧ q'.held = Function.update q.held k (some m) ∧ ∀ x, q'.Keeps x ↔ q.Keeps x := by
  unfold deliver at h
  split_ifs at h with hheld
  obtain ⟨m', hm, he⟩ := Option.map_eq_some_iff.mp h
  cases he
  obtain ⟨hi, hm⟩ := List.getElem?_eq_some_iff.mp hm
  have hnone : q.held k = none := by simpa using hheld
  have hready : ∀ x, x ∈ q.ready ↔ x ∈ q.ready.eraseIdx i ∨ x = m := by
    intro x
    have hperm := List.getElem_cons_eraseIdx_perm hi
    rw [← hperm.mem_iff, List.mem_cons, hm]
    exact or_comm
  refine ⟨hm ▸ List.getElem_mem hi, rfl, fun x => ⟨fun hx => ?_, fun hx => ?_⟩⟩
  · rcases hx with hx | ⟨l, hl⟩
    · exact .inl ((hready x).mpr (.inl hx))
    · change Function.update q.held k (some m) l = some x at hl
      rw [Function.update_apply] at hl
      split_ifs at hl with hlk
      · exact .inl ((hready x).mpr (.inr (Option.some.inj hl).symm))
      · exact .inr ⟨l, hl⟩
  · rcases hx with hx | ⟨l, hl⟩
    · rcases (hready x).mp hx with hx | rfl
      · exact .inl hx
      · exact .inr ⟨k, Function.update_self ..⟩
    · have hlk : l ≠ k := by
        rintro rfl
        cases hnone.symm.trans hl
      exact .inr ⟨l, (Function.update_of_ne hlk ..).trans hl⟩

theorem held_of_ack {l : κ} {x : μ} (h : (q.ack k).held l = some x) : q.held l = some x := by
  change Function.update q.held k none l = some x at h
  rw [Function.update_apply] at h
  split_ifs at h
  exact h

theorem keeps_of_ack {x : μ} (h : (q.ack k).Keeps x) : q.Keeps x := by
  rcases h with h | ⟨l, hl⟩
  · exact .inl h
  · exact .inr ⟨l, held_of_ack hl⟩

/-- An acknowledgement loses nothing but the message that the consumer holds. -/
theorem keeps_ack {x : μ} (h : q.Keeps x) : (q.ack k).Keeps x ∨ q.held k = some x := by
  rcases h with h | ⟨l, hl⟩
  · exact .inl (.inl h)
  · by_cases hlk : l = k
    · exact .inr (hlk ▸ hl)
    · exact .inl (.inr ⟨l, (Function.update_of_ne hlk ..).trans hl⟩)

theorem keeps_requeue {x : μ} : (q.requeue k).Keeps x ↔ q.Keeps x := by
  unfold requeue
  cases hm : q.held k with
  | none => exact Iff.rfl
  | some m =>
    refine ⟨fun h => ?_, fun h => ?_⟩
    · rcases h with h | ⟨l, hl⟩
      · rcases List.mem_append.mp h with h | h
        · exact .inl h
        · exact .inr ⟨k, by rw [hm, List.mem_singleton.mp h]⟩
      · exact .inr ⟨l, held_of_ack hl⟩
    · rcases h with h | ⟨l, hl⟩
      · exact .inl (List.mem_append_left _ h)
      · by_cases hlk : l = k
        · rw [hlk, hm] at hl
          exact .inl (by simp [Option.some.inj hl])
        · exact .inr ⟨l, (Function.update_of_ne hlk ..).trans hl⟩

theorem held_requeue : (q.requeue k).held = (q.ack k).held := by
  unfold requeue
  cases hm : q.held k with
  | none =>
    have hself := Function.update_eq_self k q.held
    rw [hm] at hself
    exact hself.symm
  | some m => rfl

theorem held_of_requeue {l : κ} {x : μ} (h : (q.requeue k).held l = some x) :
    q.held l = some x := by
  rw [held_requeue] at h
  exact held_of_ack h

end Queue

end Broker
