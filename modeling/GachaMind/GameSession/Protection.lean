import GachaMind.Js
import GachaMind.Lib.Machine

/-!
# Task protection (apps/game-session/src/protection.ts)

A call of `syncTaskProtection` decides from `protectedSince`, sends at most one PUT to the ECS
agent and writes `protectedSince` once that request has completed. The agent applies the
requests in the order sent; all of them succeed, and their completions reach the process in any
order.
-/

namespace GachaMind.GameSession
open GachaMind.Js

def PROTECTION_EXPIRES_MINUTES : ℤ := 60

def PROTECTION_REFRESH_MS : ℤ := PROTECTION_EXPIRES_MINUTES / 2 * 60000

structure ProtectionBody where
  ProtectionEnabled : Bool
  ExpiresInMinutes : Option ℤ
  deriving DecidableEq

/-- The body that `updateTaskProtection` puts. -/
def updateTaskProtection (enabled : Bool) : ProtectionBody :=
  if enabled then ⟨true, some PROTECTION_EXPIRES_MINUTES⟩ else ⟨false, none⟩

/-- A request with what its call writes to `protectedSince` when it completes. -/
structure ProtectionRequest where
  body : ProtectionBody
  protectedSince : Option ℤ
  deriving DecidableEq

def staleProtection (protectedSince : Option ℤ) (now : ℤ) : Bool :=
  protectedSince.any fun since => decide (PROTECTION_REFRESH_MS < now - since)

/-- The request that a call starts, if it starts one. -/
def syncTaskProtection (ecsAgentUri : Option JsString) (protectedSince : Option ℤ)
    (roomCount : ℕ) (now : ℤ) : Option ProtectionRequest :=
  if truthy ecsAgentUri then
    if 0 < roomCount ∧ (protectedSince = none ∨ staleProtection protectedSince now) then
      some ⟨updateTaskProtection true, some now⟩
    else if roomCount = 0 ∧ protectedSince ≠ none then
      some ⟨updateTaskProtection false, none⟩
    else none
  else none

/-- `ECS_AGENT_URI` of a task that has an agent. -/
structure EcsAgentUri where
  uri : JsString
  uri_ne : uri ≠ []

structure TaskProtection where
  protectedSince : Option ℤ
  sent : List ProtectionRequest
  applied : List ProtectionRequest
  agent : Bool
  deriving DecidableEq

inductive ProtectionInput where
  | call (roomCount : ℕ) (now : ℤ)
  | apply
  | complete (i : ℕ)

def stepProtection (ecs : EcsAgentUri) (s : TaskProtection) :
    ProtectionInput → Option (TaskProtection × List ProtectionBody)
  | .call roomCount now =>
    match syncTaskProtection (some ecs.uri) s.protectedSince roomCount now with
    | none => some (s, [])
    | some request => some ({ s with sent := s.sent ++ [request] }, [request.body])
  | .apply =>
    match s.sent with
    | [] => none
    | request :: sent =>
      some ({ s with
        sent := sent
        applied := s.applied ++ [request]
        agent := request.body.ProtectionEnabled }, [])
  | .complete i =>
    match s.applied[i]? with
    | none => none
    | some request =>
      some ({ s with
        protectedSince := request.protectedSince
        applied := s.applied.eraseIdx i }, [])

def protectionStart : TaskProtection := ⟨none, [], [], false⟩

/-- A call, with the state in which it was made. -/
structure ProtectionCall where
  before : TaskProtection
  roomCount : ℕ
  now : ℤ

def lastProtectionCall (last : Option ProtectionCall) (s : TaskProtection) (i : ProtectionInput)
    (_ : TaskProtection) (_ : List ProtectionBody) : Option ProtectionCall :=
  match i with
  | .call roomCount now => some ⟨s, roomCount, now⟩
  | _ => last

/-- The calls and completions of one process, with a record of the last call. -/
def protectionSystem (ecs : EcsAgentUri) :
    Machine.System (TaskProtection × Option ProtectionCall) ProtectionInput ProtectionBody :=
  (Machine.ofFunction protectionStart (stepProtection ecs)).observe none lastProtectionCall

namespace TaskProtection

def NoneInFlight (s : TaskProtection) : Prop := s.sent = [] ∧ s.applied = []

/-- What the newest request asks of the agent: the agent's state once it has applied them all. -/
def newest (s : TaskProtection) : Bool :=
  (s.sent.getLast?.map fun request => request.body.ProtectionEnabled).getD s.agent

end TaskProtection

/-- The call starts no request, although the newest one asks the opposite of what it wants. -/
def ProtectionCall.Stranded (c : ProtectionCall) : Prop :=
  (0 < c.roomCount ∧ c.before.newest = false ∧
    ∃ since ∈ c.before.protectedSince, c.now - since ≤ PROTECTION_REFRESH_MS) ∨
  (c.roomCount = 0 ∧ c.before.newest = true ∧ c.before.protectedSince = none)

/-! ### What a call leaves behind -/

theorem truthy_uri (ecs : EcsAgentUri) : truthy (some ecs.uri) = true := by
  simpa [truthy] using ecs.uri_ne

theorem staleProtection_some {since now : ℤ} :
    staleProtection (some since) now = true ↔ PROTECTION_REFRESH_MS < now - since := by
  simp [staleProtection]

theorem newest_of_quiet {s : TaskProtection} (h : s.NoneInFlight) : s.newest = s.agent := by
  rw [TaskProtection.newest, h.1]
  rfl

theorem newest_send (s : TaskProtection) (request : ProtectionRequest) :
    ({ s with sent := s.sent ++ [request] } : TaskProtection).newest =
      request.body.ProtectionEnabled := by
  simp [TaskProtection.newest]

theorem newest_apply {s : TaskProtection} {request : ProtectionRequest}
    {sent : List ProtectionRequest} (h : s.sent = request :: sent) :
    ({ s with
      sent := sent
      applied := s.applied ++ [request]
      agent := request.body.ProtectionEnabled } : TaskProtection).newest = s.newest := by
  unfold TaskProtection.newest
  rw [h]
  cases sent with
  | nil => rfl
  | cons next sent =>
    rw [List.getLast?_cons_cons, List.getLast?_eq_some_getLast (List.cons_ne_nil next sent)]
    rfl

theorem syncTaskProtection_ecs (ecs : EcsAgentUri) (protectedSince : Option ℤ) (roomCount : ℕ)
    (now : ℤ) : syncTaskProtection (some ecs.uri) protectedSince roomCount now =
      if 0 < roomCount ∧ (protectedSince = none ∨ staleProtection protectedSince now) then
        some ⟨updateTaskProtection true, some now⟩
      else if roomCount = 0 ∧ protectedSince ≠ none then some ⟨updateTaskProtection false, none⟩
      else none := by
  rw [syncTaskProtection, truthy_uri]
  rfl

theorem syncTaskProtection_some {ecs : EcsAgentUri} {protectedSince : Option ℤ} {roomCount : ℕ}
    {now : ℤ} {request : ProtectionRequest}
    (h : syncTaskProtection (some ecs.uri) protectedSince roomCount now = some request) :
    request.body.ProtectionEnabled = true ↔ 0 < roomCount := by
  rw [syncTaskProtection_ecs] at h
  split_ifs at h with hon hoff
  · obtain rfl := Option.some.inj h
    exact iff_of_true rfl hon.1
  · obtain rfl := Option.some.inj h
    exact iff_of_false Bool.false_ne_true (by omega)

/-- A call starts no request where there are rooms and `protectedSince` is recent, or neither. -/
theorem syncTaskProtection_none {ecs : EcsAgentUri} {protectedSince : Option ℤ} {roomCount : ℕ}
    {now : ℤ} : syncTaskProtection (some ecs.uri) protectedSince roomCount now = none ↔
      (0 < roomCount ∧ ∃ since ∈ protectedSince, now - since ≤ PROTECTION_REFRESH_MS) ∨
      (roomCount = 0 ∧ protectedSince = none) := by
  rw [syncTaskProtection_ecs]
  cases protectedSince with
  | none =>
    rcases Nat.eq_zero_or_pos roomCount with h | h
    · simp [h]
    · simp [h, h.ne']
  | some since =>
    rcases Nat.eq_zero_or_pos roomCount with h | h
    · simp [h]
    · simp [h, h.ne', staleProtection_some]

/-- After a call the newest request asks what the call wants, unless the call was stranded. -/
theorem newest_call {ecs : EcsAgentUri} {s t : TaskProtection} {roomCount : ℕ} {now : ℤ}
    {os : List ProtectionBody} (h : stepProtection ecs s (.call roomCount now) = some (t, os)) :
    (t.newest = true ↔ 0 < roomCount) ↔ ¬ (ProtectionCall.mk s roomCount now).Stranded := by
  simp only [stepProtection] at h
  cases hr : syncTaskProtection (some ecs.uri) s.protectedSince roomCount now with
  | none =>
    rw [hr] at h
    obtain ⟨rfl, -⟩ := Prod.mk.inj (Option.some.inj h)
    rcases syncTaskProtection_none.mp hr with ⟨hrooms, hsince⟩ | ⟨hrooms, hsince⟩
    · have hstranded : (ProtectionCall.mk s roomCount now).Stranded ↔ s.newest = false := by
        refine ⟨fun hs => ?_, fun hs => .inl ⟨hrooms, hs, hsince⟩⟩
        rcases hs with ⟨-, hs, -⟩ | ⟨hnone, -⟩
        · exact hs
        · exact absurd hnone hrooms.ne'
      rw [hstranded, Bool.not_eq_false]
      exact iff_true_right hrooms
    · have hstranded : (ProtectionCall.mk s roomCount now).Stranded ↔ s.newest = true := by
        refine ⟨fun hs => ?_, fun hs => .inr ⟨hrooms, hs, hsince⟩⟩
        rcases hs with ⟨hsome, -⟩ | ⟨-, hs, -⟩
        · exact absurd hrooms hsome.ne'
        · exact hs
      rw [hstranded]
      exact iff_false_right (Nat.not_lt.mpr hrooms.le)
  | some request =>
    rw [hr] at h
    obtain ⟨rfl, -⟩ := Prod.mk.inj (Option.some.inj h)
    rw [newest_send]
    refine iff_of_true (syncTaskProtection_some hr) fun hstranded => ?_
    have hnone : syncTaskProtection (some ecs.uri) s.protectedSince roomCount now = none := by
      refine syncTaskProtection_none.mpr ?_
      rcases hstranded with ⟨hrooms, -, hsince⟩ | ⟨hrooms, -, hsince⟩
      · exact .inl ⟨hrooms, hsince⟩
      · exact .inr ⟨hrooms, hsince⟩
    rw [hr] at hnone
    cases hnone

theorem newest_kept {ecs : EcsAgentUri} {s t : TaskProtection} {i : ProtectionInput}
    {os : List ProtectionBody} (h : stepProtection ecs s i = some (t, os))
    (hcall : ∀ roomCount now, i ≠ .call roomCount now) : t.newest = s.newest := by
  cases i with
  | call roomCount now => exact absurd rfl (hcall roomCount now)
  | apply =>
    simp only [stepProtection] at h
    cases hs : s.sent with
    | nil =>
      rw [hs] at h
      cases h
    | cons request sent =>
      rw [hs] at h
      obtain ⟨rfl, -⟩ := Prod.mk.inj (Option.some.inj h)
      exact newest_apply hs
  | complete i =>
    simp only [stepProtection] at h
    cases hi : s.applied[i]? with
    | none =>
      rw [hi] at h
      cases h
    | some request =>
      rw [hi] at h
      obtain ⟨rfl, -⟩ := Prod.mk.inj (Option.some.inj h)
      rfl

/-! ### Runs -/

/-- What the newest request asks, told from the last call. -/
def NewestFollows (s : TaskProtection) (last : Option ProtectionCall) : Prop :=
  ∀ c ∈ last, (s.newest = true ↔ 0 < c.roomCount) ↔ ¬ c.Stranded

theorem newest_follows {ecs : EcsAgentUri} {s : TaskProtection × Option ProtectionCall}
    (hr : Machine.Reachable (protectionSystem ecs) s) : NewestFollows s.1 s.2 := by
  refine hr.recorded_free (J := fun _ => True) (I := NewestFollows) (fun _ _ => trivial) ?_ ?_
  · intro s _ c hc
    cases hc
  · intro s last i t os _ ih hstep
    change stepProtection ecs s i = some (t, os) at hstep
    cases i with
    | call roomCount now =>
      intro c hc
      obtain rfl := Option.some.inj hc
      exact newest_call hstep
    | apply =>
      intro c hc
      rw [newest_kept hstep (fun _ _ h => by cases h)]
      exact ih c hc
    | complete i =>
      intro c hc
      rw [newest_kept hstep (fun _ _ h => by cases h)]
      exact ih c hc

/-- With no request in flight, the agent protects the task exactly where the last call had rooms,
unless that call was stranded. -/
theorem agent_follows_iff (ecs : EcsAgentUri) (s : TaskProtection × Option ProtectionCall)
    (hr : Machine.Reachable (protectionSystem ecs) s) (hquiet : s.1.NoneInFlight) :
    ∀ c ∈ s.2, (s.1.agent = true ↔ 0 < c.roomCount) ↔ ¬ c.Stranded := by
  intro c hc
  rw [← newest_of_quiet hquiet]
  exact newest_follows hr c hc

def ecsAgent : EcsAgentUri := ⟨utf16 "http://169.254.170.2/api", by decide⟩

instance (s : TaskProtection) : Decidable s.NoneInFlight :=
  inferInstanceAs (Decidable (_ ∧ _))

theorem agent_follows_first_room :
    ∃ s os c, Machine.Run (protectionSystem ecsAgent) [.call 1 0, .apply, .complete 0] s os ∧
      s.1.NoneInFlight ∧ s.2 = some c ∧
      ((s.1.agent = true ↔ 0 < c.roomCount) ↔ ¬ c.Stranded) :=
  ⟨_, _, _, Machine.exec_observe_run (by decide +kernel), by decide +kernel, rfl,
    agent_follows_iff ecsAgent _ ⟨_, _, Machine.exec_observe_run (by decide +kernel)⟩
      (by decide +kernel) _ rfl⟩

/-- A room opens while the request of an empty task is in flight: the call sends nothing, and the
task stays without protection. -/
theorem room_left_unprotected :
    ∃ s os c, Machine.Run (protectionSystem ecsAgent)
        [.call 1 0, .apply, .complete 0, .call 0 1000, .call 1 1010, .apply, .complete 0] s os ∧
      s.1.NoneInFlight ∧ s.2 = some c ∧ 0 < c.roomCount ∧ s.1.agent = false :=
  ⟨_, _, _, Machine.exec_observe_run (by decide +kernel), by decide +kernel, rfl,
    by decide +kernel, by decide +kernel⟩

end GachaMind.GameSession
