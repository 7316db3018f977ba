import Mathlib

/-!
# Labelled transition systems with outputs

A system has start states and a step relation that reads one input and emits a
list of outputs. `Run` collects the inputs and outputs from a start state. The
rules used everywhere else are `Reachable.invariant` (a property that holds at the
start and that every step keeps), its form `Reachable.recorded` for a system that
carries a recorder beside its state, and `Run.observed` (a recorder blocks no run).
-/

namespace Machine

universe u v w x

structure System (σ : Type u) (ι : Type v) (ο : Type w) where
  start : σ → Prop
  step : σ → ι → σ → List ο → Prop

variable {σ : Type u} {ι : Type v} {ο : Type w} {γ : Type x}

/-- Runs from a start state: the inputs consumed, the state reached, the outputs. -/
inductive Run (M : System σ ι ο) : List ι → σ → List ο → Prop
  | nil {s : σ} (h : M.start s) : Run M [] s []
  | snoc {is : List ι} {s t : σ} {os ps : List ο} {i : ι}
      (hr : Run M is s os) (h : M.step s i t ps) : Run M (is ++ [i]) t (os ++ ps)

def Reachable (M : System σ ι ο) (s : σ) : Prop := ∃ is os, Run M is s os

theorem Reachable.start {M : System σ ι ο} {s : σ} (h : M.start s) : Reachable M s :=
  ⟨[], [], .nil h⟩

theorem Reachable.step {M : System σ ι ο} {s t : σ} {i : ι} {ps : List ο}
    (hr : Reachable M s) (h : M.step s i t ps) : Reachable M t := by
  obtain ⟨is, os, hr⟩ := hr
  exact ⟨is ++ [i], os ++ ps, hr.snoc h⟩

theorem Reachable.invariant {M : System σ ι ο} {I : σ → Prop}
    (h0 : ∀ s, M.start s → I s)
    (hs : ∀ s i t ps, I s → M.step s i t ps → I t)
    {s : σ} (hr : Reachable M s) : I s := by
  obtain ⟨is, os, hr⟩ := hr
  induction hr with
  | nil h => exact h0 _ h
  | snoc _ h ih => exact hs _ _ _ _ ih h

/-- The invariant rule where the step may also use another property of the
reachable states, proved earlier. -/
theorem Reachable.invariant_of {M : System σ ι ο} {J I : σ → Prop}
    (hJ : ∀ s, Reachable M s → J s)
    (h0 : ∀ s, M.start s → I s)
    (hs : ∀ s i t ps, J s → I s → M.step s i t ps → I t)
    {s : σ} (hr : Reachable M s) : I s := by
  obtain ⟨is, os, hr⟩ := hr
  induction hr with
  | nil h => exact h0 _ h
  | snoc hr h ih => exact hs _ _ _ _ (hJ _ ⟨_, _, hr⟩) ih h

theorem Run.outputs {M : System σ ι ο} {P : ο → Prop}
    (hs : ∀ s i t ps, Reachable M s → M.step s i t ps → ∀ o ∈ ps, P o)
    {is : List ι} {s : σ} {os : List ο} (hr : Run M is s os) : ∀ o ∈ os, P o := by
  induction hr with
  | nil _ => simp
  | snoc hr h ih =>
    intro o ho
    rcases List.mem_append.mp ho with ho | ho
    · exact ih o ho
    · exact hs _ _ _ _ ⟨_, _, hr⟩ h o ho

/-! ### Going on from a state -/

/-- The system that starts where another one has arrived. -/
def System.since (M : System σ ι ο) (s0 : σ) : System σ ι ο where
  start s := s = s0
  step := M.step

theorem Reachable.of_since {M : System σ ι ο} {s0 s : σ} (h0 : Reachable M s0)
    (hr : Reachable (M.since s0) s) : Reachable M s := by
  obtain ⟨is, os, hr⟩ := hr
  induction hr with
  | nil h => exact h ▸ h0
  | snoc _ hs ih => exact ih.step hs

/-! ### Restriction by an assumption on the environment -/

def System.restrict (M : System σ ι ο) (A : σ → ι → Prop) : System σ ι ο where
  start := M.start
  step s i t os := A s i ∧ M.step s i t os

theorem Run.of_restrict {M : System σ ι ο} {A : σ → ι → Prop}
    {is : List ι} {s : σ} {os : List ο} (hr : Run (M.restrict A) is s os) : Run M is s os := by
  induction hr with
  | nil h => exact .nil h
  | snoc _ h ih => exact ih.snoc h.2

theorem Run.to_restrict {M : System σ ι ο} {A : σ → ι → Prop} (hA : ∀ s i, A s i)
    {is : List ι} {s : σ} {os : List ο} (hr : Run M is s os) : Run (M.restrict A) is s os := by
  induction hr with
  | nil h => exact .nil h
  | snoc _ h ih => exact ih.snoc ⟨hA _ _, h⟩

theorem Run.restrict_mono {M : System σ ι ο} {A B : σ → ι → Prop}
    (h : ∀ s i, Reachable (M.restrict A) s → A s i → B s i)
    {is : List ι} {s : σ} {os : List ο} (hr : Run (M.restrict A) is s os) :
    Run (M.restrict B) is s os := by
  induction hr with
  | nil h => exact .nil h
  | snoc hr hs ih => exact ih.snoc ⟨h _ _ ⟨_, _, hr⟩ hs.1, hs.2⟩

theorem Reachable.of_restrict {M : System σ ι ο} {A : σ → ι → Prop} {s : σ}
    (hr : Reachable (M.restrict A) s) : Reachable M s := by
  obtain ⟨is, os, hr⟩ := hr
  exact ⟨is, os, hr.of_restrict⟩

/-! ### Recorders -/

/-- The system that carries a recorder: each step updates it from the state before,
the input, the state after and the outputs. The recorder never blocks a step. -/
def System.observe (M : System σ ι ο) (g0 : γ) (record : γ → σ → ι → σ → List ο → γ) :
    System (σ × γ) ι ο where
  start s := M.start s.1 ∧ s.2 = g0
  step s i t os := M.step s.1 i t.1 os ∧ t.2 = record s.2 s.1 i t.1 os

/-- Every run of the bare system is a run of the observed one. -/
theorem Run.observed {M : System σ ι ο} (g0 : γ) (record : γ → σ → ι → σ → List ο → γ)
    {is : List ι} {s : σ} {os : List ο} (hr : Run M is s os) :
    ∃ g, Run (M.observe g0 record) is (s, g) os := by
  induction hr with
  | nil h => exact ⟨g0, .nil ⟨h, rfl⟩⟩
  | @snoc is s t os ps i hr h ih =>
    obtain ⟨g, hg⟩ := ih
    exact ⟨record g s i t ps, hg.snoc (t := (t, record g s i t ps)) ⟨h, rfl⟩⟩

theorem Run.of_observe {M : System σ ι ο} {g0 : γ} {record : γ → σ → ι → σ → List ο → γ}
    {is : List ι} {s : σ × γ} {os : List ο} (hr : Run (M.observe g0 record) is s os) :
    Run M is s.1 os := by
  induction hr with
  | nil h => exact .nil h.1
  | snoc _ h ih => exact ih.snoc h.1

theorem Reachable.of_observe {M : System σ ι ο} {g0 : γ}
    {record : γ → σ → ι → σ → List ο → γ} {s : σ × γ}
    (hr : Reachable (M.observe g0 record) s) : Reachable M s.1 := by
  obtain ⟨is, os, hr⟩ := hr
  exact ⟨is, os, hr.of_observe⟩

theorem Reachable.of_observe_restrict {M : System σ ι ο} {g0 : γ}
    {record : γ → σ → ι → σ → List ο → γ} {A : σ × γ → ι → Prop} {s : σ × γ}
    (hr : Reachable ((M.observe g0 record).restrict A) s) : Reachable M s.1 :=
  hr.of_restrict.of_observe

/-- The invariant rule for a state and what has been recorded of it. -/
theorem Reachable.recorded {M : System σ ι ο} {g0 : γ} {record : γ → σ → ι → σ → List ο → γ}
    {A : σ × γ → ι → Prop} {J : σ → Prop} {I : σ → γ → Prop}
    (hJ : ∀ s, Reachable M s → J s)
    (h0 : ∀ s, M.start s → I s g0)
    (hs : ∀ s g i t ps, J s → I s g → A (s, g) i → M.step s i t ps → I t (record g s i t ps))
    {s : σ × γ} (hr : Reachable ((M.observe g0 record).restrict A) s) : I s.1 s.2 := by
  refine hr.invariant_of (J := fun s => J s.1) (I := fun s => I s.1 s.2) ?_ ?_ ?_
  · intro s hr
    exact hJ _ hr.of_observe_restrict
  · intro s h
    obtain ⟨hm, hg⟩ := h
    rw [hg]
    exact h0 _ hm
  · intro s i t ps hj hi h
    obtain ⟨ha, hm, hg⟩ := h
    rw [hg]
    exact hs _ _ _ _ _ hj hi ha hm

theorem Reachable.to_restrict {M : System σ ι ο} {A : σ → ι → Prop} (hA : ∀ s i, A s i) {s : σ}
    (hr : Reachable M s) : Reachable (M.restrict A) s := by
  obtain ⟨is, os, hr⟩ := hr
  exact ⟨is, os, hr.to_restrict hA⟩

theorem Reachable.recorded_free {M : System σ ι ο} {g0 : γ}
    {record : γ → σ → ι → σ → List ο → γ} {J : σ → Prop} {I : σ → γ → Prop}
    (hJ : ∀ s, Reachable M s → J s)
    (h0 : ∀ s, M.start s → I s g0)
    (hs : ∀ s g i t ps, J s → I s g → M.step s i t ps → I t (record g s i t ps))
    {s : σ × γ} (hr : Reachable (M.observe g0 record) s) : I s.1 s.2 :=
  (hr.to_restrict (A := fun _ _ => True) fun _ _ => trivial).recorded hJ h0
    fun s g i t ps hj hi _ h => hs s g i t ps hj hi h

/-! ### Systems given by a partial step function -/

/-- The system of a start state and a partial step function; `none` blocks the input. -/
def ofFunction (s0 : σ) (f : σ → ι → Option (σ × List ο)) : System σ ι ο where
  start s := s = s0
  step s i t os := f s i = some (t, os)

def exec (f : σ → ι → Option (σ × List ο)) : σ → List ι → Option (σ × List ο)
  | s, [] => some (s, [])
  | s, i :: is => (f s i).bind fun r => (exec f r.1 is).map fun q => (q.1, r.2 ++ q.2)

theorem exec_run_from {s0 : σ} {f : σ → ι → Option (σ × List ο)} (js : List ι) :
    ∀ {is : List ι} {s t : σ} {os ps : List ο}, Run (ofFunction s0 f) is s os →
      exec f s js = some (t, ps) → Run (ofFunction s0 f) (is ++ js) t (os ++ ps) := by
  induction js with
  | nil =>
    intro is s t os ps hr he
    simp only [exec, Option.some.injEq, Prod.mk.injEq] at he
    obtain ⟨rfl, rfl⟩ := he
    simpa using hr
  | cons j js ih =>
    intro is s t os ps hr he
    simp only [exec, Option.bind_eq_some_iff, Option.map_eq_some_iff] at he
    obtain ⟨⟨r, qs⟩, hf, ⟨t', qs'⟩, he, hq⟩ := he
    obtain ⟨rfl, rfl⟩ := Prod.mk.inj hq
    have hstep : Run (ofFunction s0 f) (is ++ [j]) r (os ++ qs) := hr.snoc hf
    simpa [List.append_assoc] using ih hstep he

theorem exec_run {s0 : σ} {f : σ → ι → Option (σ × List ο)} {is : List ι} {t : σ}
    {os : List ο} (h : exec f s0 is = some (t, os)) : Run (ofFunction s0 f) is t os := by
  simpa using exec_run_from is (.nil (M := ofFunction s0 f) rfl) h

def observeStep (f : σ → ι → Option (σ × List ο)) (record : γ → σ → ι → σ → List ο → γ)
    (s : σ × γ) (i : ι) : Option ((σ × γ) × List ο) :=
  (f s.1 i).map fun r => ((r.1, record s.2 s.1 i r.1 r.2), r.2)

theorem ofFunction_observe (s0 : σ) (f : σ → ι → Option (σ × List ο)) (g0 : γ)
    (record : γ → σ → ι → σ → List ο → γ) :
    (ofFunction s0 f).observe g0 record = ofFunction (s0, g0) (observeStep f record) := by
  simp only [ofFunction, System.observe, System.mk.injEq]
  constructor
  · funext s
    simp [Prod.ext_iff]
  · funext s i t os
    simp only [observeStep, Option.map_eq_some_iff, Prod.ext_iff, eq_iff_iff]
    constructor
    · intro h
      obtain ⟨hf, hg⟩ := h
      exact ⟨(t.1, os), hf, ⟨rfl, hg.symm⟩, rfl⟩
    · intro h
      obtain ⟨⟨r, ps⟩, hf, ⟨rfl, hg⟩, rfl⟩ := h
      exact ⟨hf, hg.symm⟩

def restrictStep (f : σ → ι → Option (σ × List ο)) (A : σ → ι → Prop)
    [∀ s i, Decidable (A s i)] (s : σ) (i : ι) : Option (σ × List ο) :=
  if A s i then f s i else none

theorem ofFunction_restrict (s0 : σ) (f : σ → ι → Option (σ × List ο)) (A : σ → ι → Prop)
    [∀ s i, Decidable (A s i)] :
    (ofFunction s0 f).restrict A = ofFunction s0 (restrictStep f A) := by
  simp only [ofFunction, System.restrict, System.mk.injEq, true_and]
  funext s i t os
  by_cases h : A s i <;> simp [restrictStep, h]

theorem exec_get_run {s0 : σ} {f : σ → ι → Option (σ × List ο)} {is : List ι}
    (h : (exec f s0 is).isSome) :
    Run (ofFunction s0 f) is ((exec f s0 is).get h).1 ((exec f s0 is).get h).2 :=
  exec_run (Option.some_get h).symm

theorem exec_restrict_run {s0 : σ} {f : σ → ι → Option (σ × List ο)} {A : σ → ι → Prop}
    [∀ s i, Decidable (A s i)] {is : List ι} (h : (exec (restrictStep f A) s0 is).isSome) :
    Run ((ofFunction s0 f).restrict A) is ((exec (restrictStep f A) s0 is).get h).1
      ((exec (restrictStep f A) s0 is).get h).2 := by
  rw [ofFunction_restrict]
  exact exec_get_run h

theorem exec_observe_run {s0 : σ} {f : σ → ι → Option (σ × List ο)} {g0 : γ}
    {record : γ → σ → ι → σ → List ο → γ} {is : List ι}
    (h : (exec (observeStep f record) (s0, g0) is).isSome) :
    Run ((ofFunction s0 f).observe g0 record) is
      ((exec (observeStep f record) (s0, g0) is).get h).1
      ((exec (observeStep f record) (s0, g0) is).get h).2 := by
  rw [ofFunction_observe]
  exact exec_get_run h

theorem observeStep_step {s0 : σ} {f : σ → ι → Option (σ × List ο)} {g0 : γ}
    {record : γ → σ → ι → σ → List ο → γ} {s : σ × γ} {i : ι}
    (h : (observeStep f record s i).isSome) :
    ((ofFunction s0 f).observe g0 record).step s i ((observeStep f record s i).get h).1
      ((observeStep f record s i).get h).2 := by
  rw [ofFunction_observe]
  exact (Option.some_get h).symm

theorem exec_observe_restrict_run {s0 : σ} {f : σ → ι → Option (σ × List ο)} {g0 : γ}
    {record : γ → σ → ι → σ → List ο → γ} {A : σ × γ → ι → Prop} [∀ s i, Decidable (A s i)]
    {is : List ι} (h : (exec (restrictStep (observeStep f record) A) (s0, g0) is).isSome) :
    Run (((ofFunction s0 f).observe g0 record).restrict A) is
      ((exec (restrictStep (observeStep f record) A) (s0, g0) is).get h).1
      ((exec (restrictStep (observeStep f record) A) (s0, g0) is).get h).2 := by
  rw [ofFunction_observe]
  exact exec_restrict_run h

end Machine
