import GachaMind.Lib.Machine

/-!
# Two runs that look the same

`Unwinding` relates states of two systems that an observer cannot tell apart before an output
of a given kind. `Unwinding.run` is its rule: the second system takes the inputs of every run
of the first, up to the end or to such an output, and the observer sees the same of both.
-/

namespace Machine

universe u v w x y z

variable {σ : Type u} {τ : Type v} {ι : Type w} {ο : Type x} {ν : Type y} {κ : Type z}

section
variable {stop : ο → Bool} {see : ο → Option ν}

/-- What an observer sees of the outputs before the first that stops it. -/
def seen (stop : ο → Bool) (see : ο → Option ν) (os : List ο) : List ν :=
  (os.takeWhile fun o => !stop o).filterMap see

theorem seen_append (os ps : List ο) : seen stop see (os ++ ps) =
    seen stop see os ++ if os.any stop then [] else seen stop see ps := by
  induction os with
  | nil => rfl
  | cons o os ih =>
    cases ho : stop o with
    | true => simp [seen, ho]
    | false =>
      simp only [seen] at ih
      cases hs : see o <;> simp [seen, ho, hs, ih]

end

/-- `see k` is what the observer `k` sees of an output. -/
structure Unwinding (M : System σ ι ο) (N : System τ ι ο) (stop : ο → Bool)
    (see : κ → ο → Option ν) (R : σ → τ → Prop) : Prop where
  start : ∀ s, M.start s → ∃ t, N.start t ∧ R s t
  step : ∀ s t i s' os, Reachable M s → R s t → M.step s i s' os →
    ∃ t' ps, N.step t i t' ps ∧ (∀ k, seen stop (see k) ps = seen stop (see k) os) ∧
      ps.any stop = os.any stop ∧ (os.any stop = false → R s' t')

theorem Unwinding.run {M : System σ ι ο} {N : System τ ι ο} {stop : ο → Bool}
    {see : κ → ο → Option ν} {R : σ → τ → Prop} (h : Unwinding M N stop see R) {is : List ι}
    {s : σ} {os : List ο} (hr : Run M is s os) :
    ∃ js t ps, js <+: is ∧ Run N js t ps ∧ (∀ k, seen stop (see k) ps = seen stop (see k) os) ∧
      ps.any stop = os.any stop ∧ (os.any stop = false → js = is ∧ R s t) := by
  induction hr with
  | nil hs =>
    obtain ⟨t, ht, hrel⟩ := h.start _ hs
    exact ⟨[], t, [], List.prefix_rfl, .nil ht, fun _ => rfl, rfl, fun _ => ⟨rfl, hrel⟩⟩
  | @snoc is s s' os os' i hr hs ih =>
    obtain ⟨js, t, ps, hpre, hN, hseen, hany, hrel⟩ := ih
    cases hstop : os.any stop with
    | true =>
      -- the second run has stopped already
      refine ⟨js, t, ps, hpre.trans (List.prefix_append _ _), hN, fun k => ?_, ?_, fun hfree => ?_⟩
      · rw [seen_append, hstop, if_pos rfl, List.append_nil, hseen]
      · rw [List.any_append, hstop, Bool.true_or, hany, hstop]
      · simp [hstop] at hfree
    | false =>
      obtain ⟨rfl, hst⟩ := hrel hstop
      obtain ⟨t', ps', hstep, hseen', hany', hrel'⟩ := h.step _ _ _ _ _ ⟨_, _, hr⟩ hst hs
      refine ⟨_, t', _, List.prefix_rfl, hN.snoc hstep, fun k => ?_, ?_, fun hfree => ?_⟩
      · rw [seen_append, seen_append, hany, hseen, hseen']
      · rw [List.any_append, List.any_append, hany, hany']
      · exact ⟨rfl, hrel' (by simpa [hstop] using hfree)⟩

end Machine
