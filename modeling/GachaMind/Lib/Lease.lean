import Mathlib

/-!
# Owners written in a shared register

A register names an owner for each key. A party claims a key after it has read its own
name there, and may write its name again while it claims the key. A key without an owner
can be taken by anyone, and an owner may be struck out once nobody claims the key. Under
these rules every claim is backed by the register, so no two parties claim one key.
-/

namespace Lease

universe u v

variable {κ : Type u} {σ : Type v}

structure State (κ : Type u) (σ : Type v) where
  owner : κ → Option σ
  claims : σ → Set κ

def State.Backed (s : State κ σ) : Prop := ∀ a k, k ∈ s.claims a → s.owner k = some a

theorem State.Backed.exclusive {s : State κ σ} (h : s.Backed) {a b : σ} {k : κ}
    (ha : k ∈ s.claims a) (hb : k ∈ s.claims b) : a = b :=
  Option.some.inj ((h a k ha).symm.trans (h b k hb))

/-- The rules. Along with any of them, claims may be given up. -/
inductive Step [DecidableEq κ] (s : State κ σ) : State κ σ → Prop
  | drop {t : State κ σ} (hc : ∀ a, t.claims a ⊆ s.claims a) (ho : t.owner = s.owner) : Step s t
  | check {t : State κ σ} {a : σ} {k : κ} (h : s.owner k = some a)
      (hc : ∀ b l, l ∈ t.claims b → l ∈ s.claims b ∨ (b = a ∧ l = k)) (ho : t.owner = s.owner) :
      Step s t
  | refresh {t : State κ σ} {a : σ} {k : κ} (h : k ∈ s.claims a)
      (hc : ∀ b, t.claims b ⊆ s.claims b) (ho : t.owner = Function.update s.owner k (some a)) :
      Step s t
  | take {t : State κ σ} {a : σ} {k : κ} (h : s.owner k = none)
      (hc : ∀ b, t.claims b ⊆ s.claims b) (ho : t.owner = Function.update s.owner k (some a)) :
      Step s t
  | strike {t : State κ σ} {k : κ} (h : ∀ a, k ∉ s.claims a)
      (hc : ∀ b, t.claims b ⊆ s.claims b) (ho : t.owner = Function.update s.owner k none) :
      Step s t

theorem Step.backed [DecidableEq κ] {s t : State κ σ} (hs : s.Backed) (h : Step s t) :
    t.Backed := by
  intro b l hl
  cases h with
  | drop hc ho =>
    rw [ho]
    exact hs b l (hc b hl)
  | check h hc ho =>
    rw [ho]
    rcases hc b l hl with hl | ⟨rfl, rfl⟩
    · exact hs b l hl
    · exact h
  | @refresh a k h hc ho =>
    have hold := hs b l (hc b hl)
    rw [ho, Function.update_apply]
    split_ifs with hk
    · rw [← hold, hk]
      exact (hs a k h).symm
    · exact hold
  | @take a k h hc ho =>
    have hold := hs b l (hc b hl)
    have hne : l ≠ k := by
      intro hk
      rw [hk, h] at hold
      cases hold
    rwa [ho, Function.update_of_ne hne]
  | @strike k h hc ho =>
    have hclaim := hc b hl
    have hne : l ≠ k := by
      intro hk
      exact h b (hk ▸ hclaim)
    rw [ho, Function.update_of_ne hne]
    exact hs b l hclaim

end Lease
