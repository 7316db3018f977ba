import GachaMind.Lib.KeyedTable
import GachaMind.Lib.Machine
import GachaMind.Shared

/-!
# The publisher of game events (apps/game-session/src/events.ts)

The module variables `connection`, `channel` and `connecting`, the calls of `openChannel` and
`publishGameEvent` that are still going on, and the connections that the process has opened at the
broker. An awaited promise is settled by one input and the call goes on by a later one, so anything
may happen between the two. A connection is open until its event `close`, and only an open one
answers. Neither `closeEventPublisher`, which closes the channel and the connection, nor the
listener of `error`, which only logs, is kept.
-/

namespace GachaMind.Events
open GachaMind.Shared KeyedTable

/-! ### The publisher -/

abbrev ConnectionId := ℕ
abbrev AttemptId := ℕ

/-- A channel, named by its connection: `openChannel` opens one on each connection that it makes. -/
structure Channel where
  connection : ConnectionId
  deriving DecidableEq

/-- Where a call of `openChannel` stands. It awaits `connect`, `createChannel` or `assertQueue`, or
what it awaits is fulfilled or rejected and it has not gone on yet. -/
inductive Stage where
  | connecting
  | connected (c : ConnectionId)
  | creating (c : ConnectionId)
  | created (ch : Channel)
  | asserting (ch : Channel)
  | asserted (ch : Channel)
  | rejected
  deriving DecidableEq

/-- A call of `openChannel`, which is also the promise that it returns. -/
structure Attempt where
  id : AttemptId
  stage : Stage
  deriving DecidableEq

inductive Target where
  | awaiting (k : AttemptId)
  | settled (target : Option Channel)
  deriving DecidableEq

structure PublishCall where
  event : GameFinishedEvent
  target : Target
  deriving DecidableEq

/-- The attempt returns to those that await it. -/
def PublishCall.resolve (call : PublishCall) (k : AttemptId) (result : Option Channel) :
    PublishCall :=
  if call.target = .awaiting k then { call with target := .settled result } else call

/-- `started` and `opened` count the attempts and the connections; `live` are the connections that
are open, `listening` those whose `close` has a listener. -/
structure Publisher where
  connection : Option ConnectionId := none
  channel : Option Channel := none
  connecting : Option AttemptId := none
  attempts : Table Attempt.id := .empty
  started : AttemptId := 0
  calls : List PublishCall := []
  opened : ConnectionId := 0
  live : Finset ConnectionId := ∅
  listening : Finset ConnectionId := ∅

/-- `settle` settles the promise that an attempt awaits, `resume` lets the attempt go on; `send`
lets the `i`-th call of `publishGameEvent` go on, where `sendToQueue` returns or throws. -/
inductive EventsInput where
  | publish (event : GameFinishedEvent)
  | settle (k : AttemptId) (ok : Bool)
  | resume (k : AttemptId)
  | close (c : ConnectionId)
  | send (i : ℕ) (ok : Bool)

def EventsInput.isClose : EventsInput → Bool
  | .close _ => true
  | _ => false

inductive EventsOutput where
  | connected
  | connectFailed
  | sendToQueue (ch : Channel) (event : GameFinishedEvent)
  | dropped (event : GameFinishedEvent)
  | publishFailed (event : GameFinishedEvent)
  deriving DecidableEq

namespace Publisher

def setStage (s : Publisher) (k : AttemptId) (stage : Stage) : Publisher :=
  { s with attempts := s.attempts.set ⟨k, stage⟩ }

/-- The call of `openChannel`, up to `await connect`. -/
def openChannel (s : Publisher) : Publisher :=
  { s.setStage s.started .connecting with started := s.started + 1 }

def getChannel (s : Publisher) : Publisher × Target :=
  match s.channel, s.connecting with
  | some channel, _ => (s, .settled (some channel))
  | none, some k => (s, .awaiting k)
  | none, none => ({ s.openChannel with connecting := some s.started }, .awaiting s.started)

/-- The call of `publishGameEvent`, up to `await getChannel`. -/
def publishGameEvent (s : Publisher) (event : GameFinishedEvent) : Publisher :=
  let r := s.getChannel
  { r.1 with calls := r.1.calls ++ [⟨event, r.2⟩] }

def accept (s : Publisher) : Publisher :=
  { s with opened := s.opened + 1, live := insert s.opened s.live }

def settle (s : Publisher) (a : Attempt) (ok : Bool) : Option Publisher :=
  match a.stage, ok with
  | .connecting, true => some (s.accept.setStage a.id (.connected s.opened))
  | .creating c, true => if c ∈ s.live then some (s.setStage a.id (.created ⟨c⟩)) else none
  | .asserting ch, true =>
    if ch.connection ∈ s.live then some (s.setStage a.id (.asserted ch)) else none
  | .connecting, false => some (s.setStage a.id .rejected)
  | .creating _, false => some (s.setStage a.id .rejected)
  | .asserting _, false => some (s.setStage a.id .rejected)
  | _, _ => none

/-- `finally`, and the return. -/
def finish (s : Publisher) (k : AttemptId) (result : Option Channel) : Publisher :=
  { s with
    connecting := none
    attempts := s.attempts.erase k
    calls := s.calls.map fun call => call.resolve k result }

/-- `catch`. -/
def fail (s : Publisher) (k : AttemptId) : Publisher :=
  { s with connection := none, channel := none }.finish k none

/-- The attempt goes on. Without a connection, `connection.on` is a `TypeError`. -/
def resume (s : Publisher) (a : Attempt) : Option (Publisher × List EventsOutput) :=
  match a.stage with
  | .connected c => some ({ s with connection := some c }.setStage a.id (.creating c), [])
  | .created ch => some (s.setStage a.id (.asserting ch), [])
  | .asserted ch =>
    match s.connection with
    | some c =>
      some ({ s with listening := insert c s.listening, channel := some ch }.finish a.id (some ch),
        [.connected])
    | none => some (s.fail a.id, [.connectFailed])
  | .rejected => some (s.fail a.id, [.connectFailed])
  | _ => none

/-- The connection closes and emits `close`. -/
def close (s : Publisher) (c : ConnectionId) : Publisher :=
  if c ∈ s.listening then { s with live := s.live.erase c, connection := none, channel := none }
  else { s with live := s.live.erase c }

/-- The call goes on with its channel. Only the channel of an open connection takes a message. -/
def send (s : Publisher) (i : ℕ) (call : PublishCall) (ok : Bool) :
    Option (Publisher × List EventsOutput) :=
  match call.target with
  | .awaiting _ => none
  | .settled none => some ({ s with calls := s.calls.eraseIdx i }, [.dropped call.event])
  | .settled (some ch) =>
    if ok = false then some ({ s with calls := s.calls.eraseIdx i }, [.publishFailed call.event])
    else if ch.connection ∈ s.live then
      some ({ s with calls := s.calls.eraseIdx i }, [.sendToQueue ch call.event])
    else none

def step (s : Publisher) : EventsInput → Option (Publisher × List EventsOutput)
  | .publish event => some (s.publishGameEvent event, [])
  | .settle k ok =>
    (s.attempts.get? k).bind fun a => (s.settle a ok).map fun t => (t, [])
  | .resume k => (s.attempts.get? k).bind fun a => s.resume a
  | .close c => if c ∈ s.live then some (s.close c, []) else none
  | .send i ok => s.calls[i]?.bind fun call => s.send i call ok

end Publisher

abbrev publisherSystem : Machine.System Publisher EventsInput EventsOutput :=
  Machine.ofFunction {} Publisher.step

/-! ### What a step does -/

def Stage.connection? : Stage → Option ConnectionId
  | .connecting => none
  | .connected c => some c
  | .creating c => some c
  | .created ch => some ch.connection
  | .asserting ch => some ch.connection
  | .asserted ch => some ch.connection
  | .rejected => none

namespace Publisher

inductive Move (s : Publisher) : EventsInput → Publisher → List EventsOutput → Prop
  | publish (event : GameFinishedEvent) : Move s (.publish event) (s.publishGameEvent event) []
  | connected {k : AttemptId} (h : s.attempts.get? k = some ⟨k, .connecting⟩) :
      Move s (.settle k true) (s.accept.setStage k (.connected s.opened)) []
  | created {k : AttemptId} {c : ConnectionId}
      (h : s.attempts.get? k = some ⟨k, .creating c⟩) (hlive : c ∈ s.live) :
      Move s (.settle k true) (s.setStage k (.created ⟨c⟩)) []
  | asserted {k : AttemptId} {ch : Channel}
      (h : s.attempts.get? k = some ⟨k, .asserting ch⟩) (hlive : ch.connection ∈ s.live) :
      Move s (.settle k true) (s.setStage k (.asserted ch)) []
  | rejected {k : AttemptId} {stage : Stage} (h : s.attempts.get? k = some ⟨k, stage⟩) :
      Move s (.settle k false) (s.setStage k .rejected) []
  | create {k : AttemptId} {c : ConnectionId}
      (h : s.attempts.get? k = some ⟨k, .connected c⟩) :
      Move s (.resume k) ({ s with connection := some c }.setStage k (.creating c)) []
  | assertQueue {k : AttemptId} {ch : Channel}
      (h : s.attempts.get? k = some ⟨k, .created ch⟩) :
      Move s (.resume k) (s.setStage k (.asserting ch)) []
  | establish {k : AttemptId} {c : ConnectionId} {ch : Channel}
      (h : s.attempts.get? k = some ⟨k, .asserted ch⟩) (hc : s.connection = some c) :
      Move s (.resume k)
        ({ s with listening := insert c s.listening, channel := some ch }.finish k (some ch))
        [.connected]
  | unheld {k : AttemptId} {ch : Channel}
      (h : s.attempts.get? k = some ⟨k, .asserted ch⟩) (hc : s.connection = none) :
      Move s (.resume k) (s.fail k) [.connectFailed]
  | fail {k : AttemptId} (h : s.attempts.get? k = some ⟨k, .rejected⟩) :
      Move s (.resume k) (s.fail k) [.connectFailed]
  | close {c : ConnectionId} (h : c ∈ s.live) : Move s (.close c) (s.close c) []
  | send {i : ℕ} {ok : Bool} {calls : List PublishCall} {os : List EventsOutput}
      (h : .connectFailed ∉ os) : Move s (.send i ok) { s with calls := calls } os

variable {s t : Publisher} {k : AttemptId} {c : ConnectionId} {ch : Channel}

theorem step_settle {ok : Bool} {os : List EventsOutput}
    (h : s.step (.settle k ok) = some (t, os)) : Move s (.settle k ok) t os := by
  obtain ⟨⟨id, stage⟩, hget, h⟩ := Option.bind_eq_some_iff.mp h
  obtain ⟨u, hu, hout⟩ := Option.map_eq_some_iff.mp h
  obtain ⟨rfl, rfl⟩ := Prod.mk.inj hout
  obtain rfl : id = k := (get?_eq_some.mp hget).2
  cases ok <;> cases stage <;> simp only [settle, reduceCtorEq, Option.some.injEq] at hu
  case false.connecting => exact hu ▸ .rejected hget
  case false.creating => exact hu ▸ .rejected hget
  case false.asserting => exact hu ▸ .rejected hget
  case true.connecting => exact hu ▸ .connected hget
  case true.creating c =>
    split_ifs at hu with hlive
    exact Option.some.inj hu ▸ .created hget hlive
  case true.asserting ch =>
    split_ifs at hu with hlive
    exact Option.some.inj hu ▸ .asserted hget hlive

theorem step_resume {os : List EventsOutput} (h : s.step (.resume k) = some (t, os)) :
    Move s (.resume k) t os := by
  obtain ⟨⟨id, stage⟩, hget, h⟩ := Option.bind_eq_some_iff.mp h
  obtain rfl : id = k := (get?_eq_some.mp hget).2
  cases stage <;> simp only [resume, reduceCtorEq, Option.some.injEq, Prod.mk.injEq] at h
  case connected c =>
    obtain ⟨rfl, rfl⟩ := h
    exact .create hget
  case created ch =>
    obtain ⟨rfl, rfl⟩ := h
    exact .assertQueue hget
  case asserted ch =>
    split at h
    · next c hc =>
      obtain ⟨rfl, rfl⟩ := Prod.mk.inj (Option.some.inj h)
      exact .establish hget hc
    · next hc =>
      obtain ⟨rfl, rfl⟩ := Prod.mk.inj (Option.some.inj h)
      exact .unheld hget hc
  case rejected =>
    obtain ⟨rfl, rfl⟩ := h
    exact .fail hget

theorem step_send {i : ℕ} {ok : Bool} {os : List EventsOutput}
    (h : s.step (.send i ok) = some (t, os)) : Move s (.send i ok) t os := by
  obtain ⟨call, -, h⟩ := Option.bind_eq_some_iff.mp h
  rw [send] at h
  split at h
  · cases h
  · obtain ⟨rfl, rfl⟩ := Prod.mk.inj (Option.some.inj h)
    exact .send (by simp)
  · split_ifs at h
    · obtain ⟨rfl, rfl⟩ := Prod.mk.inj (Option.some.inj h)
      exact .send (by simp)
    · obtain ⟨rfl, rfl⟩ := Prod.mk.inj (Option.some.inj h)
      exact .send (by simp)

theorem step_move {i : EventsInput} {os : List EventsOutput} (h : s.step i = some (t, os)) :
    Move s i t os := by
  cases i with
  | publish event =>
    obtain ⟨rfl, rfl⟩ := Prod.mk.inj (Option.some.inj h)
    exact .publish event
  | settle k ok => exact step_settle h
  | resume k => exact step_resume h
  | close c =>
    rw [step] at h
    split_ifs at h with hlive
    obtain ⟨rfl, rfl⟩ := Prod.mk.inj (Option.some.inj h)
    exact .close hlive
  | send i ok => exact step_send h

theorem publish_cases (s : Publisher) (event : GameFinishedEvent) :
    (∃ target, s.publishGameEvent event = { s with calls := s.calls ++ [⟨event, target⟩] } ∧
      (s.channel = none → s.connecting ≠ none)) ∨
    (s.publishGameEvent event = { s.openChannel with
      connecting := some s.started, calls := s.calls ++ [⟨event, .awaiting s.started⟩] } ∧
      s.channel = none ∧ s.connecting = none) := by
  rw [publishGameEvent, getChannel]
  split
  case h_1 channel hchannel =>
    exact .inl ⟨_, rfl, fun hnone => by rw [hchannel] at hnone; cases hnone⟩
  case h_2 k _ hconnecting =>
    exact .inl ⟨_, rfl, fun _ => by rw [hconnecting]; exact Option.some_ne_none k⟩
  case h_3 hchannel hconnecting => exact .inr ⟨rfl, hchannel, hconnecting⟩

theorem publish_fresh (event : GameFinishedEvent) (hchannel : s.channel = none)
    (hconnecting : s.connecting = none) :
    s.publishGameEvent event = { s.openChannel with
      connecting := some s.started, calls := s.calls ++ [⟨event, .awaiting s.started⟩] } := by
  rcases publish_cases s event with ⟨target, -, hbusy⟩ | ⟨hfresh, -, -⟩
  · exact absurd hconnecting (hbusy hchannel)
  · exact hfresh

theorem close_live (s : Publisher) (c : ConnectionId) : (s.close c).live = s.live.erase c := by
  rw [close]
  split_ifs <;> rfl

theorem close_started (s : Publisher) (c : ConnectionId) : (s.close c).started = s.started := by
  rw [close]
  split_ifs <;> rfl

theorem close_attempts (s : Publisher) (c : ConnectionId) : (s.close c).attempts = s.attempts := by
  rw [close]
  split_ifs <;> rfl

theorem rows_setStage {stage next : Stage} (h : s.attempts.rows = [⟨k, stage⟩]) :
    (s.setStage k next).attempts.rows = [⟨k, next⟩] := by
  have hkey : Attempt.id ⟨k, next⟩ ∈ s.attempts.keys := by
    rw [Table.keys, h]
    exact List.mem_singleton_self k
  rw [setStage, Table.set, dif_pos hkey, Table.replaceRow, rows_mapRows, h]
  exact congrArg (· :: []) (if_pos rfl)

theorem rows_finish {stage : Stage} (h : s.attempts.rows = [⟨k, stage⟩])
    (result : Option Channel) : (s.finish k result).attempts.rows = [] := by
  rw [finish, rows_erase, h]
  exact List.filter_eq_nil_iff.mpr fun a ha => by rw [List.mem_singleton.mp ha]; simp

theorem rows_openChannel (h : s.attempts.rows = []) :
    s.openChannel.attempts.rows = [⟨s.started, .connecting⟩] := by
  have hkey : Attempt.id ⟨s.started, .connecting⟩ ∉ s.attempts.keys := by
    rw [Table.keys, h]
    exact List.not_mem_nil
  rw [openChannel, setStage, rows_set_of_new hkey, h, List.nil_append]

/-! ### Every run -/

/-- The connection of an attempt is the one in the variable, once the attempt has stored it. It has
no listener before the attempt ends. -/
def Holds (s : Publisher) (stage : Stage) (c : ConnectionId) : Prop :=
  c < s.opened ∧ c ∉ s.listening ∧ (stage = .connected c ∨ s.connection = some c)

/-- In every run the attempt that goes on is the one that `connecting` names, and there is none
while there is a channel. -/
structure Base (s : Publisher) : Prop where
  keys : s.attempts.keys = s.connecting.toList
  rest : s.channel ≠ none → s.connecting = none
  live : ∀ c ∈ s.live, c < s.opened
  listening : ∀ c ∈ s.listening, c < s.opened
  heard : ∀ c ∈ s.listening, c ∈ s.live → s.channel = some ⟨c⟩
  holds : ∀ a ∈ s.attempts.rows, ∀ c, a.stage.connection? = some c → s.Holds a.stage c

namespace Base
variable {stage next : Stage}

theorem running (h : s.Base) (hget : s.attempts.get? k = some ⟨k, stage⟩) :
    s.attempts.rows = [⟨k, stage⟩] ∧ s.connecting = some k ∧ s.channel = none := by
  have hrow := (get?_eq_some.mp hget).1
  have hkey := key_mem_keys hrow
  rw [h.keys, Option.mem_toList] at hkey
  have hkeys := h.keys
  rw [hkey, Table.keys, Option.toList_some] at hkeys
  obtain ⟨a, hrows, -⟩ := List.map_eq_singleton_iff.mp hkeys
  rw [hrows, List.mem_singleton] at hrow
  refine ⟨hrow ▸ hrows, hkey, ?_⟩
  by_contra hchannel
  rw [h.rest hchannel] at hkey
  cases hkey

theorem rows_eq_nil (h : s.Base) : s.attempts.rows = [] ↔ s.connecting = none := by
  rw [← Option.toList_eq_nil_iff, ← h.keys, Table.keys, List.map_eq_nil_iff]

theorem unheard (h : s.Base) (hchannel : s.channel = none) :
    ∀ c ∈ s.listening, c ∉ s.live := by
  intro c hc hlive
  have hheard := h.heard c hc hlive
  rw [hchannel] at hheard
  cases hheard

theorem advance (h : s.Base) (hget : s.attempts.get? k = some ⟨k, stage⟩)
    (hholds : ∀ c, next.connection? = some c → s.Holds next c) : (s.setStage k next).Base := by
  obtain ⟨hrows, hk, -⟩ := h.running hget
  have hrows' : (s.setStage k next).attempts.rows = [⟨k, next⟩] := rows_setStage hrows
  constructor
  case keys =>
    rw [Table.keys, hrows']
    exact (congrArg Option.toList hk).symm
  case rest => exact h.rest
  case live => exact h.live
  case listening => exact h.listening
  case heard => exact h.heard
  case holds =>
    rw [hrows']
    exact List.forall_mem_singleton.mpr hholds

theorem proceed (h : s.Base) (hget : s.attempts.get? k = some ⟨k, stage⟩)
    (hsame : next.connection? = stage.connection?) (hstored : ∀ c, stage ≠ .connected c) :
    (s.setStage k next).Base := by
  apply h.advance hget
  intro c hc
  obtain ⟨hlt, hsilent, hheld⟩ := h.holds _ (get?_eq_some.mp hget).1 c (hsame ▸ hc)
  exact ⟨hlt, hsilent, .inr (hheld.resolve_left (hstored c))⟩

theorem store (h : s.Base) (hget : s.attempts.get? k = some ⟨k, .connected c⟩) :
    ({ s with connection := some c } : Publisher).Base ∧ s.Holds (.connected c) c := by
  obtain ⟨hrows, -, -⟩ := h.running hget
  have hholds := h.holds ⟨k, .connected c⟩ (get?_eq_some.mp hget).1 c rfl
  refine ⟨⟨h.keys, h.rest, h.live, h.listening, h.heard, ?_⟩, hholds⟩
  show ∀ a ∈ s.attempts.rows, _
  rw [hrows, List.forall_mem_singleton]
  intro d hd
  obtain rfl : c = d := Option.some.inj hd
  exact ⟨hholds.1, hholds.2.1, .inl rfl⟩

theorem accept (h : s.Base) : s.accept.Base := by
  constructor
  case keys => exact h.keys
  case rest => exact h.rest
  case live =>
    intro c hc
    rcases Finset.mem_insert.mp hc with rfl | hc
    · exact Nat.lt_succ_self _
    · exact (h.live c hc).trans (Nat.lt_succ_self _)
  case listening =>
    intro c hc
    exact (h.listening c hc).trans (Nat.lt_succ_self _)
  case heard =>
    intro c hc hlive
    rcases Finset.mem_insert.mp hlive with rfl | hlive
    · exact absurd (h.listening _ hc) (lt_irrefl _)
    · exact h.heard c hc hlive
  case holds =>
    intro a ha c hc
    obtain ⟨hlt, hsilent, hheld⟩ := h.holds a ha c hc
    exact ⟨hlt.trans (Nat.lt_succ_self _), hsilent, hheld⟩

theorem finish (h : s.Base) (hget : s.attempts.get? k = some ⟨k, stage⟩)
    (hattempts : t.attempts = s.attempts) (hlive : t.live = s.live) (hopened : t.opened = s.opened)
    (hlistening : ∀ c ∈ t.listening, c < t.opened)
    (hheard : ∀ c ∈ t.listening, c ∈ t.live → t.channel = some ⟨c⟩) (result : Option Channel) :
    (t.finish k result).Base := by
  have hrows := rows_finish (s := t) (hattempts ▸ (h.running hget).1) result
  constructor
  case keys =>
    rw [Table.keys, hrows]
    rfl
  case rest => exact fun _ => rfl
  case live =>
    intro c hc
    show c < t.opened
    rw [hopened]
    exact h.live c (hlive ▸ hc)
  case listening => exact hlistening
  case heard => exact hheard
  case holds =>
    rw [hrows]
    exact List.forall_mem_nil _

theorem fail (h : s.Base) (hget : s.attempts.get? k = some ⟨k, stage⟩) : (s.fail k).Base :=
  h.finish (t := { s with connection := none, channel := none }) hget rfl rfl rfl h.listening
    (fun c hc hlive => absurd hlive (h.unheard (h.running hget).2.2 c hc)) none

theorem establish (h : s.Base) (hget : s.attempts.get? k = some ⟨k, .asserted ch⟩)
    (hc : s.connection = some c) :
    ch = ⟨c⟩ ∧ ({ s with
      listening := insert c s.listening, channel := some ch }.finish k (some ch)).Base := by
  obtain ⟨hlt, hsilent, hheld⟩ := h.holds ⟨k, .asserted ch⟩ (get?_eq_some.mp hget).1 _ rfl
  obtain rfl : ch.connection = c := by
    rw [hc] at hheld
    exact (Option.some.inj (hheld.resolve_left (by simp))).symm
  refine ⟨rfl, h.finish (t := { s with
    listening := insert ch.connection s.listening, channel := some ch }) hget rfl rfl rfl ?_ ?_ _⟩
  · exact (Finset.forall_mem_insert ..).mpr ⟨hlt, h.listening⟩
  · intro d hd hlive
    rcases Finset.mem_insert.mp hd with rfl | hd
    · rfl
    · exact absurd hlive (h.unheard (h.running hget).2.2 d hd)

theorem publish (h : s.Base) (event : GameFinishedEvent) : (s.publishGameEvent event).Base := by
  rcases publish_cases s event with ⟨target, hsame, -⟩ | ⟨hfresh, hchannel, hconnecting⟩
  · rw [hsame]
    exact ⟨h.keys, h.rest, h.live, h.listening, h.heard, h.holds⟩
  · have hrows := rows_openChannel (h.rows_eq_nil.mpr hconnecting)
    rw [hfresh]
    constructor
    case keys =>
      show s.openChannel.attempts.keys = _
      rw [Table.keys, hrows]
      rfl
    case rest => exact fun hne => absurd hchannel hne
    case live => exact h.live
    case listening => exact h.listening
    case heard => exact h.heard
    case holds =>
      show ∀ a ∈ s.openChannel.attempts.rows, _
      rw [hrows, List.forall_mem_singleton]
      intro c hc
      cases hc

theorem close (h : s.Base) (hc : c ∈ s.live) : (s.close c).Base := by
  have hlive : ∀ d ∈ s.live.erase c, d < s.opened :=
    fun d hd => h.live d (Finset.mem_of_mem_erase hd)
  rw [Publisher.close]
  split_ifs with hlistening
  · -- The listener clears the variables of no attempt: `c` has the channel.
    have hchannel := h.heard c hlistening hc
    have hidle : s.attempts.rows = [] := h.rows_eq_nil.mpr (h.rest (by rw [hchannel]; simp))
    refine ⟨h.keys, fun hne => absurd rfl hne, hlive, h.listening, ?_, ?_⟩
    · intro d hd hdlive
      have hsame := h.heard d hd (Finset.mem_of_mem_erase hdlive)
      rw [hchannel, Option.some.injEq, Channel.mk.injEq] at hsame
      exact absurd hsame.symm (Finset.ne_of_mem_erase hdlive)
    · show ∀ a ∈ s.attempts.rows, _
      rw [hidle]
      exact List.forall_mem_nil _
  · refine ⟨h.keys, h.rest, hlive, h.listening, ?_, h.holds⟩
    exact fun d hd hdlive => h.heard d hd (Finset.mem_of_mem_erase hdlive)

theorem move {i : EventsInput} {os : List EventsOutput} (h : s.Base) (hm : Move s i t os) :
    t.Base := by
  cases hm with
  | publish event => exact h.publish event
  | connected hget =>
    apply h.accept.advance hget
    intro c hc
    obtain rfl : s.opened = c := Option.some.inj hc
    exact ⟨Nat.lt_succ_self _, fun hmem => lt_irrefl _ (h.listening _ hmem), .inl rfl⟩
  | created hget _ => exact h.proceed hget rfl (by simp)
  | asserted hget _ => exact h.proceed hget rfl (by simp)
  | rejected hget =>
    apply h.advance hget
    intro c hc
    cases hc
  | create hget =>
    obtain ⟨hbase, hlt, hsilent, -⟩ := h.store hget
    apply hbase.advance hget
    intro d hd
    obtain rfl := Option.some.inj hd
    exact ⟨hlt, hsilent, .inr rfl⟩
  | assertQueue hget => exact h.proceed hget rfl (by simp)
  | establish hget hc => exact (h.establish hget hc).2
  | unheld hget _ => exact h.fail hget
  | fail hget => exact h.fail hget
  | close hc => exact h.close hc
  | send _ => exact ⟨h.keys, h.rest, h.live, h.listening, h.heard, h.holds⟩

end Base

theorem reachable_base (hr : Machine.Reachable publisherSystem s) : s.Base := by
  refine hr.invariant ?_ fun s i t os hbase hs => hbase.move (step_move hs)
  rintro s rfl
  constructor <;> simp [Table.keys]

/-! ### Orderly runs -/

/-- `createChannel` and `assertQueue` fail on closed connections only, and no connection closes when
`assertQueue` has been answered and the attempt has not gone on. -/
def Orderly (s : Publisher) : EventsInput → Prop
  | .settle k false => ∀ a ∈ s.attempts.get? k, ∀ c ∈ a.stage.connection?, c ∉ s.live
  | .close c => ∀ a ∈ s.attempts.rows, a.stage ≠ .asserted ⟨c⟩
  | _ => True

instance (s : Publisher) (i : EventsInput) : Decidable (s.Orderly i) :=
  match i with
  | .publish _ => isTrue trivial
  | .settle k false =>
    inferInstanceAs (Decidable (∀ a ∈ s.attempts.get? k, ∀ c ∈ a.stage.connection?, c ∉ s.live))
  | .settle _ true => isTrue trivial
  | .resume _ => isTrue trivial
  | .close c => inferInstanceAs (Decidable (∀ a ∈ s.attempts.rows, a.stage ≠ .asserted ⟨c⟩))
  | .send _ _ => isTrue trivial

/-- Whether an attempt has failed or a connection has closed since the last attempt started. -/
def recordOwed (owed : Bool) (s : Publisher) (i : EventsInput) (t : Publisher)
    (os : List EventsOutput) : Bool :=
  if t.started ≠ s.started then false
  else if .connectFailed ∈ os ∨ i.isClose then true else owed

theorem recordOwed_same {owed : Bool} {i : EventsInput} {os : List EventsOutput}
    (hstarted : t.started = s.started) (hos : .connectFailed ∉ os) (hi : i.isClose = false) :
    recordOwed owed s i t os = owed := by
  rw [recordOwed, if_neg (not_not.mpr hstarted), if_neg]
  rintro (hfailed | hclose)
  · exact hos hfailed
  · rw [hi] at hclose
    cases hclose

theorem recordOwed_broken {owed : Bool} {i : EventsInput} {os : List EventsOutput}
    (hstarted : t.started = s.started) (h : .connectFailed ∈ os ∨ i.isClose) :
    recordOwed owed s i t os = true := by
  rw [recordOwed, if_neg (not_not.mpr hstarted), if_pos h]

/-- An attempt at this stage, which alone has an open connection. -/
structure Opening (s : Publisher) (owed : Bool) (stage : Stage) : Prop where
  live : ∀ c ∈ s.live, stage.connection? = some c
  asserted : ∀ ch, stage = .asserted ch → ch.connection ∈ s.live
  owed : stage = .connecting ∨ s.live ≠ ∅ → owed = false

/-- The publisher has no connection, or one that is its channel's, or an attempt is making one. -/
inductive Linked (s : Publisher) (owed : Bool) : Prop
  | idle (hrows : s.attempts.rows = []) (hchannel : s.channel = none) (hlive : s.live = ∅)
  | up (c : ConnectionId) (hrows : s.attempts.rows = []) (hchannel : s.channel = some ⟨c⟩)
      (hlive : s.live = {c}) (hlistening : c ∈ s.listening) (howed : owed = false)
  | opening (k : AttemptId) (stage : Stage) (hrows : s.attempts.rows = [⟨k, stage⟩])
      (h : s.Opening owed stage)

namespace Linked
variable {owed : Bool} {stage next : Stage}

theorem of_get (h : s.Linked owed) (hget : s.attempts.get? k = some ⟨k, stage⟩) :
    s.Opening owed stage := by
  have hrow := (get?_eq_some.mp hget).1
  cases h with
  | idle hrows _ _ =>
    rw [hrows] at hrow
    cases hrow
  | up _ hrows _ _ _ _ =>
    rw [hrows] at hrow
    cases hrow
  | opening k' stage' hrows h =>
    rw [hrows, List.mem_singleton, Attempt.mk.injEq] at hrow
    rw [hrow.2]
    exact h

theorem advance (h : s.Linked owed) (hbase : s.Base)
    (hget : s.attempts.get? k = some ⟨k, stage⟩) (hattempts : t.attempts = s.attempts)
    (hlive : t.live = s.live) (hsame : next.connection? = stage.connection?)
    (hstage : next ≠ .connecting) (hasserted : ∀ ch, next = .asserted ch → ch.connection ∈ s.live) :
    (t.setStage k next).Linked owed := by
  obtain ⟨hlinked, -, howed⟩ := h.of_get hget
  refine .opening k next (rows_setStage (s := t) (hattempts ▸ (hbase.running hget).1)) ⟨?_, ?_, ?_⟩
  · intro c hc
    rw [hsame]
    exact hlinked c (hlive ▸ hc)
  · intro ch hch
    show ch.connection ∈ t.live
    rw [hlive]
    exact hasserted ch hch
  · intro hnot
    apply howed
    rw [← hlive]
    exact .inr (hnot.resolve_left hstage)

theorem congr (h : s.Linked owed) (hattempts : t.attempts = s.attempts)
    (hchannel : t.channel = s.channel) (hlive : t.live = s.live)
    (hlistening : t.listening = s.listening) : t.Linked owed := by
  cases h with
  | idle hrows hnone hempty =>
    exact .idle (hattempts ▸ hrows) (hchannel.trans hnone) (hlive.trans hempty)
  | up c hrows hsome hone hmem howed =>
    exact .up c (hattempts ▸ hrows) (hchannel.trans hsome) (hlive.trans hone) (hlistening ▸ hmem)
      howed
  | opening k stage hrows h =>
    exact .opening k stage (hattempts ▸ hrows)
      ⟨hlive.symm ▸ h.live, hlive.symm ▸ h.asserted, hlive.symm ▸ h.owed⟩

theorem quiet {i : EventsInput} {os : List EventsOutput} (h : t.Linked owed)
    (hstarted : t.started = s.started) (hos : .connectFailed ∉ os) (hi : i.isClose = false) :
    t.Linked (recordOwed owed s i t os) := by
  rw [recordOwed_same hstarted hos hi]
  exact h

theorem broken {i : EventsInput} {os : List EventsOutput} (h : t.Linked true)
    (hstarted : t.started = s.started) (hos : .connectFailed ∈ os ∨ i.isClose) :
    t.Linked (recordOwed owed s i t os) := by
  rw [recordOwed_broken hstarted hos]
  exact h

theorem publish (h : s.Linked owed) (hbase : s.Base) (event : GameFinishedEvent) :
    (s.publishGameEvent event).Linked
      (recordOwed owed s (.publish event) (s.publishGameEvent event) []) := by
  rcases publish_cases s event with ⟨target, hsame, -⟩ | ⟨hfresh, hchannel, hconnecting⟩
  · rw [hsame]
    exact quiet (h.congr rfl rfl rfl rfl) rfl List.not_mem_nil rfl
  · have howed : recordOwed owed s (.publish event) (s.publishGameEvent event) [] = false := by
      rw [hfresh]
      exact if_pos (Nat.succ_ne_self s.started)
    have hrows := hbase.rows_eq_nil.mpr hconnecting
    have hlive : s.live = ∅ := by
      cases h with
      | idle _ _ hlive => exact hlive
      | up c _ hsome _ _ _ =>
        rw [hchannel] at hsome
        cases hsome
      | opening k stage hone _ =>
        rw [hrows] at hone
        cases hone
    rw [howed, hfresh]
    refine .opening s.started .connecting (rows_openChannel hrows) ⟨?_, ?_, fun _ => rfl⟩
    · intro c hc
      have hmem : c ∈ s.live := hc
      rw [hlive] at hmem
      cases hmem
    · intro ch hch
      cases hch

theorem connected (h : s.Linked owed) (hbase : s.Base)
    (hget : s.attempts.get? k = some ⟨k, .connecting⟩) :
    (s.accept.setStage k (.connected s.opened)).Linked owed := by
  obtain ⟨hlinked, -, howed⟩ := h.of_get hget
  refine .opening k (.connected s.opened)
    (rows_setStage (s := s.accept) (hbase.running hget).1) ⟨?_, ?_, fun _ => howed (.inl rfl)⟩
  · intro c hc
    rcases Finset.mem_insert.mp hc with rfl | hc
    · rfl
    · cases hlinked c hc
  · intro ch hch
    cases hch

theorem rejected (h : s.Linked owed) (hbase : s.Base)
    (hget : s.attempts.get? k = some ⟨k, stage⟩) (hok : s.Orderly (.settle k false)) :
    (s.setStage k .rejected).Linked owed := by
  obtain ⟨hlinked, -, -⟩ := h.of_get hget
  have hlive : ∀ c, c ∉ s.live := fun c hc => hok _ hget c (hlinked c hc) hc
  refine .opening k .rejected (rows_setStage (hbase.running hget).1) ⟨?_, ?_, ?_⟩
  · intro c hc
    exact absurd hc (hlive c)
  · intro ch hch
    cases hch
  · intro hnot
    exact absurd (Finset.eq_empty_of_forall_notMem hlive) (hnot.resolve_left (by simp))

theorem establish (h : s.Linked owed) (hbase : s.Base)
    (hget : s.attempts.get? k = some ⟨k, .asserted ch⟩) (hc : s.connection = some c) :
    ({ s with listening := insert c s.listening, channel := some ch }.finish k (some ch)).Linked
      owed := by
  obtain ⟨hlinked, hasserted, howed⟩ := h.of_get hget
  obtain ⟨rfl, -⟩ := hbase.establish hget hc
  have hmem : c ∈ s.live := hasserted _ rfl
  have hone : s.live = {c} := by
    refine Finset.eq_singleton_iff_unique_mem.mpr ⟨hmem, fun d hd => ?_⟩
    exact (Option.some.inj (hlinked d hd)).symm
  refine .up c (rows_finish (hbase.running hget).1 (some ⟨c⟩)) rfl hone
    (Finset.mem_insert_self c _) ?_
  exact howed (.inr (Finset.ne_empty_of_mem hmem))

theorem fail (h : s.Linked owed) (hbase : s.Base)
    (hget : s.attempts.get? k = some ⟨k, .rejected⟩) : (s.fail k).Linked true := by
  obtain ⟨hlinked, -, -⟩ := h.of_get hget
  refine .idle (rows_finish (hbase.running hget).1 none) rfl ?_
  exact Finset.eq_empty_of_forall_notMem fun c hc => by cases hlinked c hc

theorem close (h : s.Linked owed) (hc : c ∈ s.live) (hok : s.Orderly (.close c)) :
    (s.close c).Linked true := by
  cases h with
  | idle _ _ hlive =>
    rw [hlive] at hc
    cases hc
  | up d hrows _ hlive hlistening _ =>
    rw [hlive, Finset.mem_singleton] at hc
    rw [Publisher.close, hc, if_pos hlistening]
    exact .idle hrows rfl (by simp [hlive])
  | opening k stage hrows h =>
    have hstage := h.live c hc
    have hempty : (s.close c).live = ∅ := by
      rw [close_live]
      refine Finset.eq_empty_of_forall_notMem fun d hd => ?_
      obtain ⟨hne, hd⟩ := Finset.mem_erase.mp hd
      rw [h.live d hd] at hstage
      exact hne (Option.some.inj hstage)
    refine .opening k stage (by rw [close_attempts, hrows]) ⟨?_, ?_, ?_⟩
    · intro d hd
      rw [hempty] at hd
      cases hd
    · -- An answered `assertQueue` is the stage in which `Orderly` lets no connection close.
      rintro ch rfl
      obtain rfl : ch.connection = c := Option.some.inj hstage
      exact absurd rfl (hok ⟨k, .asserted ch⟩ (by rw [hrows]; exact List.mem_singleton_self _))
    · rintro (rfl | hne)
      · cases hstage
      · exact absurd hempty hne

theorem move {i : EventsInput} {os : List EventsOutput} (h : s.Linked owed) (hbase : s.Base)
    (hok : s.Orderly i) (hm : Move s i t os) : t.Linked (recordOwed owed s i t os) := by
  cases hm with
  | publish event => exact h.publish hbase event
  | connected hget => exact quiet (h.connected hbase hget) rfl List.not_mem_nil rfl
  | created hget hlive =>
    refine quiet ?_ rfl List.not_mem_nil rfl
    exact h.advance hbase hget rfl rfl rfl (by simp) (by simp)
  | asserted hget hlive =>
    refine quiet (h.advance hbase hget rfl rfl rfl (by simp) ?_) rfl List.not_mem_nil rfl
    rintro ch hch
    obtain rfl := Stage.asserted.inj hch
    exact hlive
  | rejected hget => exact quiet (h.rejected hbase hget hok) rfl List.not_mem_nil rfl
  | @create k c hget =>
    refine quiet ?_ rfl List.not_mem_nil rfl
    exact h.advance (t := { s with connection := some c }) hbase hget rfl rfl rfl (by simp)
      (by simp)
  | assertQueue hget =>
    refine quiet ?_ rfl List.not_mem_nil rfl
    exact h.advance hbase hget rfl rfl rfl (by simp) (by simp)
  | establish hget hc => exact quiet (h.establish hbase hget hc) rfl (by simp) rfl
  | unheld hget hc =>
    -- The attempt has stored its connection, and nothing has cleared it since.
    obtain ⟨-, -, hheld⟩ := hbase.holds _ (get?_eq_some.mp hget).1 _ rfl
    rw [hc] at hheld
    cases hheld.resolve_left (by simp)
  | fail hget => exact broken (h.fail hbase hget) rfl (.inl List.mem_cons_self)
  | @close c hc => exact broken (h.close hc hok) (close_started s c) (.inr rfl)
  | send hos => exact quiet (h.congr rfl rfl rfl rfl) rfl hos rfl

end Linked

/-! ### The guarantee -/

/-- `owed` says that an attempt has failed or a connection has closed since the last attempt
started. A publish while an attempt goes on waits for that attempt. -/
structure Consistent (s : Publisher) (owed : Bool) : Prop where
  connections : s.live.card ≤ 1
  attempts : s.attempts.size ≤ 1
  fresh : owed = true → s.attempts.rows = [] → ∀ event,
    (s.publishGameEvent event).attempts.rows = [⟨s.started, .connecting⟩]

theorem Linked.consistent {owed : Bool} (h : s.Linked owed) (hbase : s.Base) :
    s.Consistent owed := by
  constructor
  case connections =>
    cases h with
    | idle _ _ hlive => simp [hlive]
    | up c _ _ hlive _ _ => simp [hlive]
    | opening k stage _ h =>
      refine Finset.card_le_one.mpr fun c hc d hd => ?_
      have hstage := h.live c hc
      rw [h.live d hd] at hstage
      exact (Option.some.inj hstage).symm
  case attempts =>
    cases h with
    | idle hrows _ _ => simp [Table.size, hrows]
    | up c hrows _ _ _ _ => simp [Table.size, hrows]
    | opening k stage hrows _ => simp [Table.size, hrows]
  case fresh =>
    intro howed hnone event
    cases h with
    | idle _ hchannel _ =>
      rw [publish_fresh event hchannel (hbase.rows_eq_nil.mp hnone)]
      exact rows_openChannel hnone
    | up c _ _ _ _ hnot =>
      rw [howed] at hnot
      cases hnot
    | opening k stage hrows _ =>
      rw [hnone] at hrows
      cases hrows

end Publisher

open Publisher

abbrev observedSystem : Machine.System (Publisher × Bool) EventsInput EventsOutput :=
  publisherSystem.observe false recordOwed

theorem publisher_linked {s : Publisher × Bool}
    (hr : Machine.Reachable (observedSystem.restrict fun s i => s.1.Orderly i) s) :
    s.1.Linked s.2 := by
  refine hr.recorded (J := Base) (fun s hs => reachable_base hs) ?_ ?_
  · rintro s rfl
    exact .idle rfl rfl rfl
  · intro s owed i t os hbase hlinked hok hs
    exact hlinked.move hbase hok (step_move hs)

theorem publisher_consistent {s : Publisher × Bool}
    (hr : Machine.Reachable (observedSystem.restrict fun s i => s.1.Orderly i) s) :
    s.1.Consistent s.2 :=
  (publisher_linked hr).consistent (reachable_base hr.of_observe_restrict)

theorem publisher_attempts {s : Publisher} (hr : Machine.Reachable publisherSystem s) :
    s.attempts.size ≤ 1 := by
  rw [← length_keys, (reachable_base hr).keys]
  cases s.connecting <;> simp

section
variable {s t : Publisher} {k : AttemptId} {c : ConnectionId} {owed : Bool}

theorem step_since {s0 s : Publisher × Bool} {i : EventsInput} {os : List EventsOutput}
    (h : s.1.step i = some (t, os)) :
    (observedSystem.since s0).step s i (t, recordOwed s.2 s.1 i t os) os :=
  ⟨h, rfl⟩

/-- A publish without a channel, while an old connection is still open. -/
theorem second_breaks {s0 : Publisher × Bool}
    (hr : Machine.Reachable (observedSystem.since s0) (s, owed)) (hbase : s.Base)
    (hchannel : s.channel = none) (hconnecting : s.connecting = none)
    (hc : c ∈ s.live) (event : GameFinishedEvent) :
    ∃ u, Machine.Reachable (observedSystem.since s0) u ∧ ¬ u.1.Consistent u.2 := by
  obtain ⟨p, hp⟩ : ∃ p, s.publishGameEvent event = p := ⟨_, rfl⟩
  have hpublish : s.step (.publish event) = some (p, []) := by rw [step, hp]
  rw [publish_fresh event hchannel hconnecting] at hp
  have hget : p.attempts.get? s.started = some ⟨s.started, .connecting⟩ := by
    rw [← hp]
    exact (get?_set ..).trans (if_pos rfl)
  have hlive : p.live = s.live := by
    rw [← hp]
    rfl
  have hopened : p.opened = s.opened := by
    rw [← hp]
    rfl
  have hsettle : p.step (.settle s.started true) =
      some (p.accept.setStage s.started (.connected p.opened), []) := by
    rw [step, hget]
    rfl
  refine ⟨_, (hr.step (step_since hpublish)).step (step_since hsettle), fun h => ?_⟩
  have hsame : c = p.opened := Finset.card_le_one.mp h.connections c
    (Finset.mem_insert_of_mem (hlive ▸ hc)) p.opened (Finset.mem_insert_self p.opened p.live)
  exact absurd (hbase.live c hc) (by rw [hsame, hopened]; exact lt_irrefl _)

/-- The attempt fails and leaves its connection open. -/
theorem leak_breaks {stage : Stage} (hbase : s.Base)
    (hget : s.attempts.get? k = some ⟨k, stage⟩) (hc : c ∈ s.live) (event : GameFinishedEvent) :
    ∃ u, Machine.Reachable (observedSystem.since (s.setStage k .rejected, owed)) u ∧
      ¬ u.1.Consistent u.2 := by
  have hrejected : (s.setStage k .rejected).attempts.get? k = some ⟨k, .rejected⟩ :=
    (get?_set ..).trans (if_pos rfl)
  have hfail : (s.setStage k .rejected).step (.resume k) =
      some ((s.setStage k .rejected).fail k, [.connectFailed]) := by
    rw [step, hrejected]
    rfl
  have hbase' : (s.setStage k .rejected).Base :=
    hbase.advance hget fun d hd => by cases hd
  exact second_breaks ((Machine.Reachable.start rfl).step (step_since hfail))
    (hbase'.fail hrejected) rfl rfl hc event

/-- The attempt stores the channel of a connection that has closed unheard. -/
theorem late_breaks (hbase : s.Base) (hget : s.attempts.get? k = some ⟨k, .asserted ⟨c⟩⟩)
    (event : GameFinishedEvent) :
    ∃ u, Machine.Reachable (observedSystem.since (s.close c, true)) u ∧
      ¬ u.1.Consistent u.2 := by
  obtain ⟨-, hsilent, hheld⟩ := hbase.holds _ (get?_eq_some.mp hget).1 c rfl
  have hconnection : s.connection = some c := hheld.resolve_left (by simp)
  have hclose : s.close c = { s with live := s.live.erase c } := if_neg hsilent
  obtain ⟨u, hu⟩ : ∃ u, u = ({ s.close c with
    listening := insert c s.listening, channel := some ⟨c⟩ } : Publisher).finish k (some ⟨c⟩) :=
    ⟨_, rfl⟩
  have hresume : (s.close c).step (.resume k) = some (u, [.connected]) := by
    rw [step, close_attempts, hget, hu, hclose, Option.bind_some, resume]
    simp only [hconnection]
  have howed : recordOwed true (s.close c) (.resume k) u [.connected] = true := by
    apply recordOwed_same _ (by simp) rfl
    rw [hu]
    rfl
  refine ⟨(u, true), ?_, fun h => ?_⟩
  · have hr := (Machine.Reachable.start (M := observedSystem.since (s.close c, true)) rfl).step
      (step_since hresume)
    rw [howed] at hr
    exact hr
  · have hone : (s.close c).attempts.rows = [⟨k, .asserted ⟨c⟩⟩] := by
      rw [close_attempts]
      exact (hbase.running hget).1
    have hrows : u.attempts.rows = [] := by
      rw [hu]
      exact rows_finish hone (some ⟨c⟩)
    have hsame : (u.publishGameEvent event).attempts = u.attempts := by
      rw [hu]
      rfl
    have hfresh := h.fresh rfl hrows event
    rw [hsame, hrows] at hfresh
    cases hfresh

end

/-- After every other step, some continuation breaks the guarantee. -/
theorem disorderly_breaks {s t : Publisher × Bool} {i : EventsInput} {os : List EventsOutput}
    (hr : Machine.Reachable observedSystem s) (hs : observedSystem.step s i t os)
    (hnot : ¬ s.1.Orderly i) (event : GameFinishedEvent) :
    ∃ u, Machine.Reachable (observedSystem.since t) u ∧ ¬ u.1.Consistent u.2 := by
  have hbase := reachable_base hr.of_observe
  obtain ⟨t, owed⟩ := t
  obtain ⟨hstep, howed⟩ := hs
  change owed = recordOwed s.2 s.1 i t os at howed
  have hmove : Move s.1 i t os := step_move hstep
  cases hmove with
  | @rejected k stage hget =>
    simp only [Orderly, not_forall, not_not] at hnot
    obtain ⟨a, -, c, -, hc⟩ := hnot
    exact leak_breaks hbase hget hc event
  | @close c hc =>
    simp only [Orderly, ne_eq, not_forall, not_not] at hnot
    obtain ⟨a, ha, hstage⟩ := hnot
    have hget := get?_of_mem ha
    rw [howed, recordOwed_broken (close_started s.1 c) (.inr rfl)]
    exact late_breaks hbase (k := a.id) (by rw [hget, ← hstage]) event
  | _ => exact absurd trivial hnot

def sampleEvent : GameFinishedEvent where
  gameId := ⟨0⟩
  roomId := Js.utf16 "AB3DE"
  finishedAt := 0
  roundsPlayed := 2
  players := []

def orderlyRun : List EventsInput :=
  [.publish sampleEvent, .settle 0 true, .resume 0, .settle 0 true, .resume 0, .settle 0 true,
   .resume 0, .send 0 true, .close 0]

theorem publisher_consistent_orderly : ∃ s os,
    Machine.Run (observedSystem.restrict fun s i => s.1.Orderly i) orderlyRun s os ∧
      os = [.connected, .sendToQueue ⟨0⟩ sampleEvent] ∧ s.2 = true ∧ s.1.Consistent s.2 :=
  ⟨_, _, Machine.exec_observe_restrict_run (by decide +kernel), by decide +kernel,
    by decide +kernel,
    publisher_consistent ⟨_, _, Machine.exec_observe_restrict_run (by decide +kernel)⟩⟩

/-- `createChannel` fails on an open connection, and the next publish opens another one. -/
def leakRun : List EventsInput :=
  [.publish sampleEvent, .settle 0 true, .resume 0, .settle 0 false, .resume 0,
   .publish sampleEvent, .settle 1 true]

/-- The connection closes when `assertQueue` has been answered, before the attempt goes on. -/
def lateRun : List EventsInput :=
  [.publish sampleEvent, .settle 0 true, .resume 0, .settle 0 true, .resume 0, .settle 0 true,
   .close 0, .resume 0]

theorem publisher_inconsistent :
    (∃ s os, Machine.Run observedSystem leakRun s os ∧ s.1.live = {0, 1} ∧
      ¬ s.1.Consistent s.2) ∧
    ∃ s os, Machine.Run observedSystem lateRun s os ∧ s.2 = true ∧ s.1.attempts.rows = [] ∧
      (s.1.publishGameEvent sampleEvent).attempts.rows = [] ∧ ¬ s.1.Consistent s.2 := by
  constructor
  · refine ⟨_, _, Machine.exec_observe_run (by decide +kernel), by decide +kernel, fun h => ?_⟩
    exact absurd h.connections (by decide +kernel)
  · refine ⟨_, _, Machine.exec_observe_run (by decide +kernel), by decide +kernel,
      by decide +kernel, by decide +kernel, fun h => ?_⟩
    exact absurd (h.fresh (by decide +kernel) (by decide +kernel) sampleEvent) (by decide +kernel)

end GachaMind.Events
