import GachaMind.GameSession.Events

/-!
# What becomes of a game event (apps/game-session/src/events.ts)

Every call of `publishGameEvent` ends in one way: its event is sent, dropped or failed to
be sent. Until then it waits for the attempt that is going on, or has its channel.
-/

namespace GachaMind.Events
open GachaMind.Shared KeyedTable

def EventsInput.published? : EventsInput → Option GameFinishedEvent
  | .publish event => some event
  | _ => none

/-- The event of a call that ends. -/
def EventsOutput.ended? : EventsOutput → Option GameFinishedEvent
  | .sendToQueue _ event => some event
  | .dropped event => some event
  | .publishFailed event => some event
  | _ => none

namespace Publisher
variable {s t : Publisher}

/-- The events of the calls that are still going on. -/
def pending (s : Publisher) : List GameFinishedEvent := s.calls.map PublishCall.event

/-- A call that waits, waits for the attempt that is going on. -/
def Awaited (s : Publisher) : Prop :=
  ∀ call ∈ s.calls, ∀ k, call.target = .awaiting k → s.connecting = some k

theorem event_resolve (call : PublishCall) (k : AttemptId) (result : Option Channel) :
    (call.resolve k result).event = call.event := by
  unfold PublishCall.resolve
  split_ifs <;> rfl

theorem pending_finish (s : Publisher) (k : AttemptId) (result : Option Channel) :
    (s.finish k result).pending = s.pending := by
  show (s.calls.map fun call => call.resolve k result).map PublishCall.event = _
  rw [List.map_map]
  exact List.map_congr_left fun call _ => event_resolve call k result

theorem pending_publish (s : Publisher) (event : GameFinishedEvent) :
    (s.publishGameEvent event).pending = s.pending ++ [event] := by
  rcases publish_cases s event with ⟨target, hsame, -⟩ | ⟨hfresh, -, -⟩
  · rw [hsame]
    simp [pending]
  · rw [hfresh]
    simp [pending]

theorem step_send_pending {i : ℕ} {ok : Bool} {os : List EventsOutput}
    (h : s.step (.send i ok) = some (t, os)) :
    ∃ call, s.calls[i]? = some call ∧ t = { s with calls := s.calls.eraseIdx i } ∧
      os.filterMap EventsOutput.ended? = [call.event] := by
  obtain ⟨call, hcall, h⟩ := Option.bind_eq_some_iff.mp h
  refine ⟨call, hcall, ?_⟩
  rw [send] at h
  split at h
  · cases h
  · obtain ⟨rfl, rfl⟩ := Prod.mk.inj (Option.some.inj h)
    exact ⟨rfl, rfl⟩
  · split_ifs at h
    · obtain ⟨rfl, rfl⟩ := Prod.mk.inj (Option.some.inj h)
      exact ⟨rfl, rfl⟩
    · obtain ⟨rfl, rfl⟩ := Prod.mk.inj (Option.some.inj h)
      exact ⟨rfl, rfl⟩

/-- One step neither loses nor invents an event. -/
theorem step_pending {i : EventsInput} {os : List EventsOutput} (h : s.step i = some (t, os)) :
    (t.pending ++ os.filterMap EventsOutput.ended?).Perm
      (s.pending ++ (EventsInput.published? i).toList) := by
  have hsame : t.pending = s.pending → os.filterMap EventsOutput.ended? = [] →
      EventsInput.published? i = none →
      (t.pending ++ os.filterMap EventsOutput.ended?).Perm
        (s.pending ++ (EventsInput.published? i).toList) := by
    intro ht hos hi
    rw [ht, hos, hi]
    rfl
  cases i with
  | send i ok =>
    obtain ⟨call, hcall, rfl, hended⟩ := step_send_pending h
    obtain ⟨hi, hget⟩ := List.getElem?_eq_some_iff.mp hcall
    rw [hended]
    have hperm := (List.getElem_cons_eraseIdx_perm hi).map PublishCall.event
    rw [List.map_cons, hget] at hperm
    show ((s.calls.eraseIdx i).map PublishCall.event ++ [call.event]).Perm (s.pending ++ [])
    rw [List.append_nil]
    exact (List.perm_append_singleton _ _).trans hperm
  | publish event =>
    obtain ⟨rfl, rfl⟩ := Prod.mk.inj (Option.some.inj h)
    rw [pending_publish]
    simp [EventsInput.published?]
  | settle k ok =>
    cases step_settle h with
    | _ => exact hsame rfl rfl rfl
  | resume k =>
    cases step_resume h with
    | create _ => exact hsame rfl rfl rfl
    | assertQueue _ => exact hsame rfl rfl rfl
    | establish _ _ => exact hsame (pending_finish _ _ _) rfl rfl
    | unheld _ _ => exact hsame (pending_finish _ _ _) rfl rfl
    | fail _ => exact hsame (pending_finish _ _ _) rfl rfl
  | close c =>
    cases step_move h with
    | close _ =>
      refine hsame ?_ rfl rfl
      unfold Publisher.close
      split_ifs <;> rfl

/-! ### Who waits -/

theorem Awaited.finish {k : AttemptId} (h : s.Awaited) (hk : s.connecting = some k)
    (hcalls : t.calls = s.calls) (result : Option Channel) : (t.finish k result).Awaited := by
  intro call hcall j hj
  obtain ⟨call', hcall', rfl⟩ := List.mem_map.mp hcall
  rw [hcalls] at hcall'
  unfold PublishCall.resolve at hj
  split_ifs at hj with htarget
  have hone := h call' hcall' j hj
  rw [hk, Option.some.injEq] at hone
  exact absurd (hone ▸ hj) htarget

theorem Awaited.publish (h : s.Awaited) (event : GameFinishedEvent) :
    (s.publishGameEvent event).Awaited := by
  intro call hcall k hk
  unfold publishGameEvent getChannel at hcall ⊢
  split at hcall
  · next channel hchannel =>
    rcases List.mem_append.mp hcall with hcall | hcall
    · exact h call hcall k hk
    · rw [List.mem_singleton.mp hcall] at hk
      cases hk
  · next j _ hconnecting =>
    rcases List.mem_append.mp hcall with hcall | hcall
    · exact h call hcall k hk
    · rw [List.mem_singleton.mp hcall] at hk
      cases hk
      exact hconnecting
  · next _ hconnecting =>
    rcases List.mem_append.mp hcall with hcall | hcall
    · have hold := h call hcall k hk
      rw [hconnecting] at hold
      cases hold
    · rw [List.mem_singleton.mp hcall] at hk
      cases hk
      rfl

theorem Awaited.step {i : EventsInput} {os : List EventsOutput} (h : s.Awaited) (hb : s.Base)
    (hs : s.step i = some (t, os)) : t.Awaited := by
  cases i with
  | send i ok =>
    obtain ⟨call, -, rfl, -⟩ := step_send_pending hs
    exact fun call hcall => h call (List.mem_of_mem_eraseIdx hcall)
  | publish event =>
    obtain ⟨rfl, rfl⟩ := Prod.mk.inj (Option.some.inj hs)
    exact h.publish event
  | settle k ok =>
    cases step_settle hs with
    | _ => exact h
  | resume k =>
    cases step_resume hs with
    | create _ => exact h
    | assertQueue _ => exact h
    | establish hget _ => exact h.finish (hb.running hget).2.1 rfl _
    | unheld hget _ => exact h.finish (hb.running hget).2.1 rfl _
    | fail hget => exact h.finish (hb.running hget).2.1 rfl _
  | close c =>
    cases step_move hs with
    | close _ =>
      unfold Publisher.close
      split_ifs
      · exact h
      · exact h

theorem reachable_awaited (hr : Machine.Reachable publisherSystem s) : s.Awaited := by
  refine hr.invariant_of (J := Base) (fun _ hr => reachable_base hr) ?_
    fun s i t os hb h hs => h.step hb hs
  intro s hs call hcall
  obtain rfl := hs
  cases hcall

/-! ### No call is stuck -/

end Publisher

/-- The steps by which calls go on: nothing is published and no connection closes. -/
def EventsInput.goesOn : EventsInput → Bool
  | .publish _ => false
  | .close _ => false
  | _ => true

/-- A bound on the steps of an attempt whose next promise is rejected. -/
def Stage.left : Stage → ℕ
  | .connecting => 2
  | .connected _ => 3
  | .creating _ => 2
  | .created _ => 3
  | .asserting _ => 2
  | .asserted _ => 1
  | .rejected => 1

namespace Publisher
variable {s t : Publisher}

def left (s : Publisher) : ℕ := (s.attempts.rows.map fun a => a.stage.left).sum + s.calls.length

theorem left_setStage {k : AttemptId} {stage next : Stage} (h : s.attempts.rows = [⟨k, stage⟩]) :
    (s.setStage k next).left = next.left + s.calls.length := by
  rw [left, rows_setStage h]
  simp [setStage]

theorem left_finish {k : AttemptId} {stage : Stage} (h : s.attempts.rows = [⟨k, stage⟩])
    (result : Option Channel) : (s.finish k result).left = s.calls.length := by
  rw [left, rows_finish h]
  simp [finish]

/-- An attempt can go on: what it awaits may be rejected, and what was settled lets it resume. -/
theorem attempt_goes_on {k : AttemptId} {stage : Stage} (h : s.attempts.rows = [⟨k, stage⟩]) :
    ∃ i t os, EventsInput.goesOn i = true ∧ s.step i = some (t, os) ∧ t.left < s.left := by
  have hrow : (⟨k, stage⟩ : Attempt) ∈ s.attempts.rows := by
    rw [h]
    exact List.mem_singleton_self _
  have hget : s.attempts.get? k = some ⟨k, stage⟩ := get?_of_mem hrow
  have hleft : s.left = stage.left + s.calls.length := by simp [left, h]
  have hsettle : ∀ ok, s.step (.settle k ok) = (s.settle ⟨k, stage⟩ ok).map fun t => (t, []) :=
    fun ok => by rw [step, hget]; rfl
  have hresume : s.step (.resume k) = s.resume ⟨k, stage⟩ := by rw [step, hget]; rfl
  have hreject : 1 < stage.left → (s.setStage k .rejected).left < s.left := by
    intro hlt
    rw [left_setStage h, hleft]
    exact Nat.add_lt_add_right hlt _
  cases stage with
  | connecting => exact ⟨_, _, _, rfl, hsettle false, hreject Nat.one_lt_two⟩
  | creating c => exact ⟨_, _, _, rfl, hsettle false, hreject Nat.one_lt_two⟩
  | asserting ch => exact ⟨_, _, _, rfl, hsettle false, hreject Nat.one_lt_two⟩
  | connected c =>
    refine ⟨_, _, _, rfl, hresume, ?_⟩
    rw [left_setStage (s := { s with connection := some c }) h, hleft]
    exact Nat.add_lt_add_right (Nat.lt_succ_self 2) _
  | created ch =>
    refine ⟨_, _, _, rfl, hresume, ?_⟩
    rw [left_setStage h, hleft]
    exact Nat.add_lt_add_right (Nat.lt_succ_self 2) _
  | asserted ch =>
    cases hc : s.connection with
    | some c =>
      have hstep : s.step (.resume k) = some ({ s with
          listening := insert c s.listening, channel := some ch }.finish k (some ch),
          [.connected]) := by
        rw [hresume, resume]
        simp only [hc]
      refine ⟨_, _, _, rfl, hstep, ?_⟩
      rw [left_finish (s := { s with listening := insert c s.listening, channel := some ch }) h,
        hleft]
      exact Nat.lt_add_of_pos_left Nat.one_pos
    | none =>
      have hstep : s.step (.resume k) = some (s.fail k, [.connectFailed]) := by
        rw [hresume, resume]
        simp only [hc]
      refine ⟨_, _, _, rfl, hstep, ?_⟩
      rw [fail, left_finish (s := { s with connection := none, channel := none }) h, hleft]
      exact Nat.lt_add_of_pos_left Nat.one_pos
  | rejected =>
    refine ⟨_, _, _, rfl, hresume, ?_⟩
    rw [fail, left_finish (s := { s with connection := none, channel := none }) h, hleft]
    exact Nat.lt_add_of_pos_left Nat.one_pos

/-- Without an attempt every call has its channel, or the answer that there is none. -/
theorem call_ends (ha : s.Awaited) (hnone : s.connecting = none) {call : PublishCall}
    {rest : List PublishCall} (hcalls : s.calls = call :: rest) :
    ∃ t os, s.step (.send 0 false) = some (t, os) ∧ t.left < s.left := by
  have hget : s.calls[0]? = some call := by rw [hcalls]; rfl
  have hleft : ({ s with calls := s.calls.eraseIdx 0 } : Publisher).left < s.left := by
    simp [left, hcalls]
  cases htarget : call.target with
  | awaiting k =>
    have hone := ha call (by rw [hcalls]; exact List.mem_cons_self) k htarget
    rw [hnone] at hone
    cases hone
  | settled target =>
    refine ⟨{ s with calls := s.calls.eraseIdx 0 }, ?_⟩
    cases target with
    | none =>
      refine ⟨[.dropped call.event], ?_, hleft⟩
      simp [step, hget, send, htarget]
    | some ch =>
      refine ⟨[.publishFailed call.event], ?_, hleft⟩
      simp [step, hget, send, htarget]

theorem goes_on (hb : s.Base) (ha : s.Awaited) (h : s.calls ≠ []) :
    ∃ i t os, EventsInput.goesOn i = true ∧ s.step i = some (t, os) ∧ t.left < s.left := by
  cases hrows : s.attempts.rows with
  | nil =>
    obtain ⟨call, rest, hcalls⟩ := List.exists_cons_of_ne_nil h
    obtain ⟨t, os, hstep, hlt⟩ := call_ends ha (hb.rows_eq_nil.mp hrows) hcalls
    exact ⟨_, t, os, rfl, hstep, hlt⟩
  | cons a rest =>
    have hget : s.attempts.get? a.id = some ⟨a.id, a.stage⟩ :=
      get?_of_mem (by rw [hrows]; exact List.mem_cons_self)
    exact attempt_goes_on (hb.running hget).1

/-- Whatever the calls wait for, they can all end without another publish. -/
theorem calls_can_end (hb : s.Base) (ha : s.Awaited) :
    ∃ js t os, (∀ j ∈ js, EventsInput.goesOn j = true) ∧
      Machine.exec Publisher.step s js = some (t, os) ∧ t.calls = [] := by
  induction hn : s.left using Nat.strong_induction_on generalizing s with
  | _ n ih =>
    by_cases hcalls : s.calls = []
    · exact ⟨[], s, [], by simp, rfl, hcalls⟩
    · obtain ⟨i, u, ps, hi, hstep, hlt⟩ := goes_on hb ha hcalls
      have hbu : u.Base := hb.move (step_move hstep)
      obtain ⟨js, t, os, hjs, hexec, hend⟩ := ih u.left (hn ▸ hlt) hbu (ha.step hb hstep) rfl
      refine ⟨i :: js, t, ps ++ os, ?_, ?_, hend⟩
      · exact List.forall_mem_cons.mpr ⟨hi, hjs⟩
      · rw [Machine.exec, hstep, Option.bind_some, hexec]
        rfl

/-! ### Every run -/

/-- The events published are those sent, dropped or failed and those of the calls that go on, each
as often as it was published. A call that waits awaits the attempt that is going on, and the calls
can always be brought to their end. -/
theorem events_accounted {is : List EventsInput} {os : List EventsOutput}
    (hr : Machine.Run publisherSystem is s os) :
    (s.pending ++ os.filterMap EventsOutput.ended?).Perm
      (is.filterMap EventsInput.published?) ∧
    (∀ call ∈ s.calls, ∀ k, call.target = .awaiting k → s.connecting = some k) ∧
    ∃ js t ps, (∀ j ∈ js, EventsInput.goesOn j = true) ∧
      Machine.exec Publisher.step s js = some (t, ps) ∧ t.calls = [] := by
  have hb := reachable_base ⟨is, os, hr⟩
  have ha := reachable_awaited ⟨is, os, hr⟩
  refine ⟨?_, ha, calls_can_end hb ha⟩
  clear hb ha
  induction hr with
  | nil h =>
    obtain rfl := h
    exact .refl _
  | @snoc is s t os ps i hr hs ih =>
    have hstep := step_pending hs
    rw [List.filterMap_append, List.filterMap_append]
    have hone : [i].filterMap EventsInput.published? = (EventsInput.published? i).toList := by
      cases hi : EventsInput.published? i <;> simp [hi]
    rw [hone]
    classical
    rw [List.perm_iff_count] at ih hstep ⊢
    intro event
    have hbefore := ih event
    have hnow := hstep event
    simp only [List.count_append] at hbefore hnow ⊢
    omega

end Publisher

/-- Two events share an attempt that fails. -/
def failedRun : List EventsInput :=
  [.publish sampleEvent, .publish { sampleEvent with roundsPlayed := 3 }, .settle 0 false,
   .resume 0, .send 1 true]

theorem failedRun_accounted : ∃ s os, Machine.Run publisherSystem failedRun s os ∧
    s.pending = [sampleEvent] ∧
    (s.pending ++ os.filterMap EventsOutput.ended?).Perm
      (failedRun.filterMap EventsInput.published?) :=
  ⟨_, _, Machine.exec_get_run (by decide +kernel), by decide +kernel,
    (Publisher.events_accounted (Machine.exec_get_run (by decide +kernel))).1⟩

end GachaMind.Events
