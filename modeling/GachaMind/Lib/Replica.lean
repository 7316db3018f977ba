import GachaMind.Lib.Machine

/-!
# Copies kept by messages

A subscriber of a system keeps a view that it rebuilds from the messages sent to it since it
subscribed. `Inbox` records these messages beside the system; `Reachable.replica` is the rule
that carries a relation between the state and a view from the first messages of a subscriber
through every later step.
-/

namespace Replica
open Machine

universe u v w x y z

variable {ν : Type u} {τ : Type v} {μ : Type w}

/-! ### Views -/

/-- The view after the messages, of which the `n`-th is processed at `clock n`. -/
def replay (receive : ν → τ → μ → ν) : (ℕ → τ) → ν → List μ → ν
  | _, view, [] => view
  | clock, view, m :: ms => replay receive (fun n => clock (n + 1)) (receive view (clock 0) m) ms

@[simp] theorem replay_nil (receive : ν → τ → μ → ν) (clock : ℕ → τ) (view : ν) :
    replay receive clock view [] = view := rfl

@[simp] theorem replay_cons (receive : ν → τ → μ → ν) (clock : ℕ → τ) (view : ν) (m : μ)
    (ms : List μ) : replay receive clock view (m :: ms) =
      replay receive (fun n => clock (n + 1)) (receive view (clock 0) m) ms := rfl

theorem replay_append (receive : ν → τ → μ → ν) (clock : ℕ → τ) (view : ν) (ms ns : List μ) :
    replay receive clock view (ms ++ ns) =
      replay receive (fun n => clock (n + ms.length)) (replay receive clock view ms) ns := by
  induction ms generalizing clock view with
  | nil => rfl
  | cons m ms ih =>
    rw [List.cons_append, replay_cons, replay_cons, ih]
    congr 1

/-- A part of the view that ignores the clock is a plain fold. -/
theorem replay_part {ω : Type x} {receive : ν → τ → μ → ν} {part : ν → ω} {step : ω → μ → ω}
    (h : ∀ view t m, part (receive view t m) = step (part view) m) (clock : ℕ → τ) (view : ν)
    (ms : List μ) : part (replay receive clock view ms) = ms.foldl step (part view) := by
  induction ms generalizing clock view with
  | nil => rfl
  | cons m ms ih => rw [replay_cons, ih, h, List.foldl_cons]

/-! ### Inboxes -/

variable {σ : Type x} {ι : Type y} {ο : Type z} {κ : Type u}

/-- Who is subscribed in a state, who is still connected after a step, and what one subscriber
is sent of the outputs of a step. -/
structure Feed (σ : Type x) (ι : Type y) (ο : Type z) (κ : Type u) (μ : Type w) where
  member : σ → κ → Bool
  connected : ι → σ → κ → Bool
  received : κ → List ο → List μ

/-- The messages sent to each connected subscriber since it subscribed. -/
abbrev Inbox (κ : Type u) (μ : Type w) := κ → Option (List μ)

/-- A subscriber that misses messages because it is not connected is connected no more. -/
def Feed.deliver (F : Feed σ ι ο κ μ) (inbox : Inbox κ μ) (s : σ) (i : ι) (t : σ)
    (os : List ο) : Inbox κ μ := fun k =>
  if F.connected i t k then
    if F.member s k then (inbox k).map fun ms => ms ++ F.received k os
    else some (F.received k os)
  else none

theorem Feed.deliver_eq_some {F : Feed σ ι ο κ μ} {inbox : Inbox κ μ} {s t : σ} {i : ι}
    {os : List ο} {k : κ} {ms : List μ} (h : F.deliver inbox s i t os k = some ms) :
    F.connected i t k = true ∧
      (F.member s k = false ∧ ms = F.received k os ∨
        F.member s k = true ∧ ∃ ns, inbox k = some ns ∧ ms = ns ++ F.received k os) := by
  unfold Feed.deliver at h
  split_ifs at h with hc hm
  · obtain ⟨ns, hn, hms⟩ := Option.map_eq_some_iff.mp h
    exact ⟨hc, .inr ⟨hm, ns, hn, hms.symm⟩⟩
  · exact ⟨hc, .inl ⟨by simpa using hm, (Option.some.inj h).symm⟩⟩

/-- The system with the inboxes beside it. -/
abbrev Feed.system (F : Feed σ ι ο κ μ) (M : System σ ι ο) : System (σ × Inbox κ μ) ι ο :=
  M.observe (fun _ => none) F.deliver

/-- The rule for views: the first messages establish the relation, and every step keeps it. The
relation may also speak of the messages sent so far. -/
theorem Feed.replica {M : System σ ι ο} {F : Feed σ ι ο κ μ} {A : σ × Inbox κ μ → ι → Prop}
    {J : σ → Prop} {R : σ → κ → List μ → ν → Prop} {receive : ν → τ → μ → ν}
    (hJ : ∀ s, Reachable M s → J s)
    (hjoin : ∀ s inbox i t os k, J s → A (s, inbox) i → M.step s i t os →
      F.connected i t k = true → F.member s k = false →
      ∀ clock view, R t k (F.received k os) (replay receive clock view (F.received k os)))
    (hkeep : ∀ s inbox i t os k ns view, J s → A (s, inbox) i → M.step s i t os →
      F.connected i t k = true → F.member s k = true → R s k ns view →
      ∀ clock, R t k (ns ++ F.received k os) (replay receive clock view (F.received k os)))
    {s : σ × Inbox κ μ} (hr : Reachable ((F.system M).restrict A) s) {k : κ} {ms : List μ}
    (hk : s.2 k = some ms) (clock : ℕ → τ) (view : ν) :
    R s.1 k ms (replay receive clock view ms) := by
  refine hr.recorded (I := fun s inbox => ∀ k ms, inbox k = some ms →
    ∀ clock view, R s k ms (replay receive clock view ms)) hJ ?_ ?_ k ms hk clock view
  · intro s _ k ms h
    cases h
  · intro s inbox i t os hj ih ha hs k ms hk clock view
    obtain ⟨hc, ⟨hm, rfl⟩ | ⟨hm, ns, hn, rfl⟩⟩ := deliver_eq_some hk
    · exact hjoin s inbox i t os k hj ha hs hc hm clock view
    · rw [replay_append]
      exact hkeep s inbox i t os k ns _ hj ha hs hc hm (ih k ns hn clock view) _

/-! ### Messages with the input they come from -/

/-- The system whose outputs carry the input of their step. -/
def stamped (M : System σ ι ο) : System σ ι (ι × ο) where
  start := M.start
  step s i t os := ∃ ps, M.step s i t ps ∧ os = ps.map (Prod.mk i)

theorem reachable_of_stamped {M : System σ ι ο} {s : σ} (hr : Reachable (stamped M) s) :
    Reachable M s := by
  obtain ⟨is, os, hr⟩ := hr
  induction hr with
  | nil h => exact .start h
  | snoc _ h ih =>
    obtain ⟨ps, hs, -⟩ := h
    exact ih.step hs

def Feed.stamped (F : Feed σ ι ο κ μ) : Feed σ ι (ι × ο) κ (ι × μ) where
  member := F.member
  connected := F.connected
  received k os :=
    match os with
    | [] => []
    | (i, _) :: _ => (F.received k (os.map Prod.snd)).map (Prod.mk i)

theorem Feed.stamped_received {F : Feed σ ι ο κ μ} {k : κ} (h : F.received k [] = []) (i : ι)
    (ps : List ο) :
    F.stamped.received k (ps.map (Prod.mk i)) = (F.received k ps).map (Prod.mk i) := by
  cases ps with
  | nil => simp [Feed.stamped, h]
  | cons p ps => simp [Feed.stamped, Function.comp_def]

def stampStep (f : σ → ι → Option (σ × List ο)) (s : σ) (i : ι) : Option (σ × List (ι × ο)) :=
  (f s i).map fun r => (r.1, r.2.map (Prod.mk i))

theorem stamped_ofFunction (s0 : σ) (f : σ → ι → Option (σ × List ο)) :
    stamped (ofFunction s0 f) = ofFunction s0 (stampStep f) := by
  simp only [stamped, ofFunction, System.mk.injEq, true_and]
  funext s i t os
  simp only [stampStep, Option.map_eq_some_iff, Prod.exists, Prod.mk.injEq, eq_iff_iff]
  constructor
  · rintro ⟨ps, hf, rfl⟩
    exact ⟨t, ps, hf, rfl, rfl⟩
  · rintro ⟨t', ps, hf, rfl, rfl⟩
    exact ⟨ps, hf, rfl⟩

theorem exec_stamped_run {γ : Type v} {s0 : σ} {f : σ → ι → Option (σ × List ο)} {g0 : γ}
    {record : γ → σ → ι → σ → List (ι × ο) → γ} {is : List ι}
    (h : (exec (observeStep (stampStep f) record) (s0, g0) is).isSome) :
    Run ((stamped (ofFunction s0 f)).observe g0 record) is
      ((exec (observeStep (stampStep f) record) (s0, g0) is).get h).1
      ((exec (observeStep (stampStep f) record) (s0, g0) is).get h).2 := by
  rw [stamped_ofFunction]
  exact exec_observe_run h

end Replica
