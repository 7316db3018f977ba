import GachaMind.GameSession.Server
import GachaMind.Web.Audience

/-!
# A page and the process it joins (useRoomSocket.ts, index.ts)

One call of `connect` in the effect of `useRoomSocket`, the process at the other end of its
socket, and what is under way between them. The events of the socket reach the page in order,
the close event last.
-/

namespace GachaMind.Web
open GachaMind.Js GachaMind.Shared GachaMind.GameSession KeyedTable

/-! ### The socket of the page -/

inductive SocketEvent where
  | opened
  | message (m : ServerToClientMessage)
  | closed

def SocketEvent.isClosed : SocketEvent → Bool
  | .closed => true
  | _ => false

/-- The constants of `WebSocket.readyState`. -/
inductive ReadyState where
  | CONNECTING
  | OPEN
  | CLOSING
  | CLOSED
  deriving DecidableEq

/-- The arguments of the hook, and the connection that its socket becomes on the server. -/
structure Hook where
  roomId : RoomId
  nickname : JsString
  socket : SocketId

/-- `readyState` is none until `connect` has created the socket. `ended` says that the close
event is under way or over: the connection carries nothing more. -/
structure Visit where
  server : Server
  page : RoomSocket := {}
  cancelled : Bool := false
  fetched : Bool := false
  readyState : Option ReadyState := none
  accepted : Bool := false
  events : List SocketEvent := []
  ended : Bool := false
  frames : List Json := []

namespace Visit

/-- An event sets out for the page, if the connection stands. -/
def hear (w : Visit) (e : SocketEvent) : Visit :=
  if w.accepted && !w.ended then { w with events := w.events ++ [e], ended := e.isClosed } else w

def hearAll (w : Visit) (es : List SocketEvent) : Visit := es.foldl hear w

def setStatus (w : Visit) (status : RoomConnectionStatus) : Visit :=
  { w with page := { w.page with status := status } }

/-- `connect` once the lookup of the room has been answered. -/
def answered (w : Visit) (found : Bool) : Visit :=
  if w.cancelled then { w with fetched := true }
  else if found then { w with fetched := true, readyState := some .CONNECTING }
  else { w with fetched := true }.setStatus .notFound

def joinMessage (hook : Hook) : Json :=
  .obj [(utf16 "type", .str (utf16 "join")), (utf16 "roomId", .str hook.roomId),
    (utf16 "nickname", .str hook.nickname)]

def send (w : Visit) (message : Json) : Visit :=
  if w.readyState = some .OPEN then { w with frames := w.frames ++ [message] } else w

/-- The handlers that `connect` sets. A socket that the page has closed tells it only of its
end. -/
def onevent (hook : Hook) (w : Visit) (now : ℤ) : SocketEvent → Visit
  | .opened =>
    if w.readyState = some .CONNECTING then
      ({ w with readyState := some .OPEN }.setStatus .connected).send (joinMessage hook)
    else w
  | .message m => if w.readyState = some .OPEN then { w with page := w.page.onmessage now m } else w
  | .closed => { w with readyState := some .CLOSED }.setStatus .disconnected

def cleanup (w : Visit) : Visit :=
  { w with
    cancelled := true
    readyState := w.readyState.map fun s => if s = .CLOSED then .CLOSED else .CLOSING }

/-- The connection breaks: what the page has not yet got of it is lost but for the first `n`
events. -/
def lose (w : Visit) (n : ℕ) : Visit :=
  { w with events := (w.events.filter fun e => !e.isClosed).take n ++ [.closed], ended := true }

def isLive (w : Visit) : Bool := w.readyState.any fun s => s ≠ .CLOSED

end Visit

/-! ### The connection -/

/-- What an effect puts on the connection of `socket`. -/
def arriving (t : Server) (socket : SocketId) : Effect → List SocketEvent
  | .reply k message => if k = socket then [.message message] else []
  | .closeSocket k => if k = socket then [.closed] else []
  | e =>
    (((t.connections.get? socket).bind Connection.playerId).bind fun id =>
      heard id e).toList.map .message

inductive VisitInput where
  | fetched (found : Bool)
  | accept (env : Env) (identity : Except JsError (Option Identity))
  | handle (now : ℤ)
  | send (message : Json)
  | cleanup
  | lose (n : ℕ)
  | deliver (env : Env)
  | server (env : Env) (input : ServerInput)

/-- An input of the process that is neither the handshake nor a frame of `socket`. -/
def Elsewhere (socket : SocketId) : ServerInput → Bool
  | .connect k _ => k ≠ socket
  | .message k _ => k ≠ socket
  | _ => true

section
variable [Runtime]

def runServer (hook : Hook) (w : Visit) (i : Env × ServerInput) :
    Option (Visit × List Effect) :=
  (w.server.step i).map fun r =>
    ({ w with server := r.1 }.hearAll (r.2.flatMap (arriving r.1 hook.socket)), r.2)

def stepVisit (hook : Hook) (w : Visit) : VisitInput → Option (Visit × List Effect)
  | .fetched found => if w.fetched then none else some (w.answered found, [])
  | .accept env identity =>
    if w.isLive && !w.accepted then
      runServer hook ({ w with accepted := true }.hear .opened) (env, .connect hook.socket identity)
    else none
  | .handle now =>
    match w.events with
    | [] => none
    | e :: events => some ({ w with events := events }.onevent hook now e, [])
  | .send message => some (w.send message, [])
  | .cleanup => some (w.cleanup, [])
  | .lose n => if w.isLive then some (w.lose n, []) else none
  | .deliver env =>
    match w.frames with
    | [] => none
    | message :: frames =>
      runServer hook { w with frames := frames } (env, .message hook.socket (some message))
  | .server env input => if Elsewhere hook.socket input then runServer hook w (env, input) else none

end

/-! ### Refusals -/

def refusalIn (socket : SocketId) : Effect → Option RoomConnectionStatus
  | .reply k (.roomFull _) => if k = socket then some .roomFull else none
  | .reply k (.roomNotFound _) => if k = socket then some .notFound else none
  | _ => none

def closes (socket : SocketId) : Effect → Bool
  | .closeSocket k => k = socket
  | _ => false

/-- The status that a refusal among the effects asks the page to show: a join of its connection
is refused with a message, and the socket is closed. -/
def Visit.refusal (w : Visit) (socket : SocketId) (os : List Effect) :
    Option RoomConnectionStatus :=
  if w.accepted && os.any (closes socket) then os.findSome? (refusalIn socket) else none

/-- A page and a process with a record of the refusal. -/
def visitSystem [Runtime] (self : ShardIdentity) (hook : Hook) :
    Machine.System (Visit × Option RoomConnectionStatus) VisitInput Effect :=
  (Machine.ofFunction { server := newServer self } (stepVisit hook)).observe none
    fun seen _ _ w os => (w.refusal hook.socket os).or seen

/-! ### The end of a connection -/

namespace Visit

def Going (w : Visit) : Prop :=
  w.ended = false ∧ (∀ e ∈ w.events, e.isClosed = false) ∧ w.readyState ≠ some .CLOSED

def Ending (w : Visit) : Prop :=
  w.ended = true ∧ (∃ es, w.events = es ++ [.closed] ∧ ∀ e ∈ es, e.isClosed = false) ∧
    w.readyState ≠ some .CLOSED

def Over (w : Visit) : Prop :=
  w.ended = true ∧ w.events = [] ∧ w.readyState = some .CLOSED ∧ w.page.status = .disconnected

structure Inv (w : Visit) : Prop where
  phase : w.Going ∨ w.Ending ∨ w.Over
  unfetched : w.fetched = false → w.readyState = none ∧ w.accepted = false ∧ w.ended = false

variable {w : Visit}

theorem Inv.hear (h : w.Inv) (e : SocketEvent) : (w.hear e).Inv := by
  unfold Visit.hear
  split_ifs with hw
  · obtain ⟨ha, hw⟩ := (Bool.and_eq_true _ _).mp hw
    have hgoing : w.ended = false := by simpa using hw
    refine ⟨?_, fun hf => absurd ha (by rw [(h.unfetched hf).2.1]; exact Bool.false_ne_true)⟩
    rcases h.phase with ⟨-, hes, hr⟩ | ⟨hended, -⟩ | ⟨hended, -⟩
    · cases he : e.isClosed with
      | false =>
        refine .inl ⟨rfl, fun x hx => ?_, hr⟩
        rcases List.mem_append.mp hx with hx | hx
        · exact hes x hx
        · rw [List.mem_singleton.mp hx, he]
      | true =>
        cases e with
        | closed => exact .inr (.inl ⟨rfl, ⟨w.events, rfl, hes⟩, hr⟩)
        | opened => cases he
        | message m => cases he
    · cases hgoing.symm.trans hended
    · cases hgoing.symm.trans hended
  · exact h

theorem Inv.hearAll (h : w.Inv) (es : List SocketEvent) : (w.hearAll es).Inv := by
  induction es generalizing w with
  | nil => exact h
  | cons e es ih => exact ih (h.hear e)

theorem hear_accepted (e : SocketEvent) : (w.hear e).accepted = w.accepted := by
  unfold Visit.hear
  split_ifs <;> rfl

theorem hearAll_accepted (es : List SocketEvent) : (w.hearAll es).accepted = w.accepted := by
  induction es generalizing w with
  | nil => rfl
  | cons e es ih => exact ih.trans (hear_accepted e)

theorem hearAll_of_ended (hw : w.ended = true) (es : List SocketEvent) : w.hearAll es = w := by
  induction es with
  | nil => rfl
  | cons e es ih =>
    have hsame : w.hear e = w := by
      unfold Visit.hear
      rw [hw, Bool.not_true, Bool.and_false]
      rfl
    rw [Visit.hearAll, List.foldl_cons, hsame]
    exact ih

theorem hear_ended (ha : w.accepted = true) (e : SocketEvent) :
    (w.hear e).ended = (w.ended || e.isClosed) := by
  unfold Visit.hear
  rw [ha]
  cases hw : w.ended with
  | true => exact hw
  | false => rfl

theorem hearAll_ended (ha : w.accepted = true) (es : List SocketEvent) :
    (w.hearAll es).ended = (w.ended || es.any SocketEvent.isClosed) := by
  induction es generalizing w with
  | nil => exact (Bool.or_false _).symm
  | cons e es ih =>
    rw [Visit.hearAll, List.foldl_cons]
    refine (ih ((hear_accepted e).trans ha)).trans ?_
    rw [hear_ended ha, List.any_cons, Bool.or_assoc]

theorem Inv.answered (h : w.Inv) (hf : w.fetched = false) (found : Bool) :
    (w.answered found).Inv := by
  obtain ⟨hnone, -⟩ := h.unfetched hf
  unfold Visit.answered
  split_ifs with hc hfound
  · exact ⟨h.phase, fun hf => by cases hf⟩
  · refine ⟨?_, fun hf => by cases hf⟩
    rcases h.phase with ⟨hended, hes, -⟩ | ⟨hended, hes, -⟩ | ⟨-, -, hr, -⟩
    · exact .inl ⟨hended, hes, by simp⟩
    · exact .inr (.inl ⟨hended, hes, by simp⟩)
    · rw [hnone] at hr
      cases hr
  · refine ⟨?_, fun hf => by cases hf⟩
    rcases h.phase with hp | hp | ⟨-, -, hr, -⟩
    · exact .inl hp
    · exact .inr (.inl hp)
    · rw [hnone] at hr
      cases hr

theorem Inv.send (h : w.Inv) (message : Json) : (w.send message).Inv := by
  unfold Visit.send
  split_ifs with hr
  · exact ⟨h.phase, h.unfetched⟩
  · exact h

theorem Inv.cleanup (h : w.Inv) : w.cleanup.Inv := by
  have hclosed : (w.cleanup.readyState = some .CLOSED ↔ w.readyState = some .CLOSED) := by
    unfold Visit.cleanup
    cases w.readyState with
    | none => simp
    | some s => cases s <;> simp
  refine ⟨?_, fun hf => ⟨?_, (h.unfetched hf).2⟩⟩
  · rcases h.phase with ⟨hended, hes, hr⟩ | ⟨hended, hes, hr⟩ | ⟨hended, hes, hr, hs⟩
    · exact .inl ⟨hended, hes, fun hc => hr (hclosed.mp hc)⟩
    · exact .inr (.inl ⟨hended, hes, fun hc => hr (hclosed.mp hc)⟩)
    · exact .inr (.inr ⟨hended, hes, hclosed.mpr hr, hs⟩)
  · rw [Visit.cleanup, (h.unfetched hf).1]
    rfl

theorem Inv.lose (h : w.Inv) (hlive : w.isLive = true) (n : ℕ) : (w.lose n).Inv := by
  refine ⟨.inr (.inl ⟨rfl, ⟨_, rfl, fun e he => ?_⟩, fun hr => ?_⟩), fun hf => ?_⟩
  · simpa using (List.mem_filter.mp (List.mem_of_mem_take he)).2
  · change w.readyState = some .CLOSED at hr
    rw [Visit.isLive, hr] at hlive
    cases hlive
  · rw [Visit.isLive, (h.unfetched hf).1] at hlive
    cases hlive

/-- An event other than the close event leaves the end of the connection where it is. -/
theorem onevent_frame (hook : Hook) (w : Visit) (now : ℤ) {e : SocketEvent}
    (he : e.isClosed = false) :
    (w.onevent hook now e).ended = w.ended ∧ (w.onevent hook now e).events = w.events ∧
      (w.onevent hook now e).fetched = w.fetched ∧
      (w.onevent hook now e).accepted = w.accepted ∧
      ((w.onevent hook now e).readyState = w.readyState ∨
        w.readyState = some .CONNECTING ∧ (w.onevent hook now e).readyState = some .OPEN) := by
  cases e with
  | opened =>
    simp only [Visit.onevent]
    by_cases hr : w.readyState = some .CONNECTING
    · rw [if_pos hr]
      exact ⟨rfl, rfl, rfl, rfl, .inr ⟨hr, rfl⟩⟩
    · rw [if_neg hr]
      exact ⟨rfl, rfl, rfl, rfl, .inl rfl⟩
  | message m =>
    simp only [Visit.onevent]
    by_cases hr : w.readyState = some .OPEN
    · rw [if_pos hr]
      exact ⟨rfl, rfl, rfl, rfl, .inl rfl⟩
    · rw [if_neg hr]
      exact ⟨rfl, rfl, rfl, rfl, .inl rfl⟩
  | closed => cases he

/-- Handling the first event under way: the close event ends it all, another one leaves the end
where it is. -/
theorem Inv.onevent (h : w.Inv) (hook : Hook) (now : ℤ) {e : SocketEvent}
    {events : List SocketEvent} (hevents : w.events = e :: events) :
    ({ w with events := events }.onevent hook now e).Inv := by
  cases he : e.isClosed with
  | true =>
    cases e with
    | closed =>
      rcases h.phase with ⟨-, hes, -⟩ | ⟨hended, ⟨es, hes, hno⟩, hr⟩ | ⟨-, hnil, -⟩
      · have := hes .closed (by rw [hevents]; exact List.mem_cons_self)
        cases this
      · have hlast : events = [] := by
          rw [hevents] at hes
          cases es with
          | nil => exact (List.cons.inj hes).2
          | cons x es =>
            obtain ⟨rfl, -⟩ := List.cons.inj hes
            have := hno .closed List.mem_cons_self
            cases this
        refine ⟨.inr (.inr ⟨hended, hlast, rfl, rfl⟩), fun hf => ?_⟩
        cases hended.symm.trans (h.unfetched hf).2.2
      · rw [hnil] at hevents
        cases hevents
    | opened => cases he
    | message m => cases he
  | false =>
    obtain ⟨f1, f2, f3, f4, f5⟩ := onevent_frame hook { w with events := events } now he
    have hclosed : ({ w with events := events }.onevent hook now e).readyState = some .CLOSED →
        w.readyState = some .CLOSED := by
      intro hc
      rcases f5 with f5 | ⟨-, f5⟩
      · exact f5.symm.trans hc
      · rw [f5] at hc
        cases hc
    refine ⟨?_, fun hf => ?_⟩
    · rcases h.phase with ⟨hended, hes, hr⟩ | ⟨hended, ⟨es, hes, hno⟩, hr⟩ | ⟨-, hnil, -⟩
      · refine .inl ⟨f1.trans hended, fun x hx => hes x ?_, fun hc => hr (hclosed hc)⟩
        rw [hevents]
        rw [f2] at hx
        exact List.mem_cons_of_mem _ hx
      · refine .inr (.inl ⟨f1.trans hended, ?_, fun hc => hr (hclosed hc)⟩)
        rw [hevents] at hes
        cases es with
        | nil =>
          obtain ⟨rfl, -⟩ := List.cons.inj hes
          cases he
        | cons x es =>
          obtain ⟨-, hes⟩ := List.cons.inj hes
          exact ⟨es, f2.trans hes, fun y hy => hno y (List.mem_cons_of_mem _ hy)⟩
      · rw [hnil] at hevents
        cases hevents
    · obtain ⟨hnone, ha, hended⟩ := h.unfetched (f3.symm.trans hf)
      refine ⟨?_, f4.trans ha, f1.trans hended⟩
      rcases f5 with f5 | ⟨hc, -⟩
      · exact f5.trans hnone
      · cases hnone.symm.trans hc

end Visit

/-! ### Runs -/

theorem closed_arriving {t : Server} {socket : SocketId} {os : List Effect}
    (h : os.any (closes socket) = true) :
    (os.flatMap (arriving t socket)).any SocketEvent.isClosed = true := by
  obtain ⟨e, he, hc⟩ := List.any_eq_true.mp h
  refine List.any_eq_true.mpr ⟨.closed, List.mem_flatMap.mpr ⟨e, he, ?_⟩, rfl⟩
  cases e with
  | closeSocket k =>
    have hk : k = socket := of_decide_eq_true hc
    simp [arriving, hk]
  | _ => cases hc

structure EndKept (hook : Hook) (w t : Visit) (os : List Effect) : Prop where
  inv : t.Inv
  ended : w.ended = true → t.ended = true
  closes : t.accepted = true → os.any (closes hook.socket) = true → t.ended = true

theorem EndKept.silent {hook : Hook} {w t : Visit} (hinv : t.Inv)
    (hended : w.ended = true → t.ended = true) : EndKept hook w t [] :=
  ⟨hinv, hended, fun _ h => by cases h⟩

section
variable [Runtime] {hook : Hook} {w t : Visit} {os : List Effect}

theorem runServer_kept {i : Env × ServerInput} {u : Visit} (h : runServer hook w i = some (t, os))
    (hw : w.Inv) (hu : u.ended = true → w.ended = true) : EndKept hook u t os := by
  obtain ⟨r, -, h⟩ := Option.map_eq_some_iff.mp h
  obtain ⟨rfl, rfl⟩ := Prod.mk.inj h
  have hserver : ({ w with server := r.1 } : Visit).Inv := ⟨hw.phase, hw.unfetched⟩
  refine ⟨hserver.hearAll _, fun hended => ?_, fun ha hcloses => ?_⟩
  · rw [Visit.hearAll_of_ended (w := { w with server := r.1 }) (hu hended)]
    exact hu hended
  · rw [Visit.hearAll_accepted] at ha
    rw [Visit.hearAll_ended ha, closed_arriving hcloses, Bool.or_true]

theorem stepVisit_kept {i : VisitInput} (h : stepVisit hook w i = some (t, os)) (hw : w.Inv) :
    EndKept hook w t os := by
  cases i with
  | fetched found =>
    simp only [stepVisit] at h
    split_ifs at h with hf
    obtain ⟨rfl, rfl⟩ := Prod.mk.inj (Option.some.inj h)
    refine .silent (hw.answered (by simpa using hf) found) fun hended => ?_
    unfold Visit.answered
    split_ifs <;> exact hended
  | accept env identity =>
    simp only [stepVisit] at h
    split_ifs at h with hlive
    have hfetched : w.fetched = true := by
      by_contra hf
      rw [Visit.isLive, (hw.unfetched (by simpa using hf)).1] at hlive
      cases hlive
    have hopen : ({ w with accepted := true } : Visit).Inv :=
      ⟨hw.phase, fun hf => by cases hfetched.symm.trans hf⟩
    refine runServer_kept h (hopen.hear .opened) fun hended => ?_
    rw [Visit.hear_ended rfl, hended]
    rfl
  | handle now =>
    simp only [stepVisit] at h
    cases hes : w.events with
    | nil =>
      rw [hes] at h
      cases h
    | cons e events =>
      rw [hes] at h
      obtain ⟨rfl, rfl⟩ := Prod.mk.inj (Option.some.inj h)
      refine .silent (hw.onevent hook now hes) fun hended => ?_
      cases he : e.isClosed with
      | false => exact (Visit.onevent_frame hook _ now he).1.trans hended
      | true =>
        cases e with
        | closed => exact hended
        | opened => cases he
        | message m => cases he
  | send message =>
    obtain ⟨rfl, rfl⟩ := Prod.mk.inj (Option.some.inj h)
    refine .silent (hw.send message) fun hended => ?_
    unfold Visit.send
    split_ifs <;> exact hended
  | cleanup =>
    obtain ⟨rfl, rfl⟩ := Prod.mk.inj (Option.some.inj h)
    exact .silent hw.cleanup fun hended => hended
  | lose n =>
    simp only [stepVisit] at h
    split_ifs at h with hlive
    obtain ⟨rfl, rfl⟩ := Prod.mk.inj (Option.some.inj h)
    exact .silent (hw.lose hlive n) fun _ => rfl
  | deliver env =>
    simp only [stepVisit] at h
    cases hfs : w.frames with
    | nil =>
      rw [hfs] at h
      cases h
    | cons message frames =>
      rw [hfs] at h
      exact runServer_kept h ⟨hw.phase, hw.unfetched⟩ fun hended => hended
  | server env input =>
    simp only [stepVisit] at h
    split_ifs at h with hin
    exact runServer_kept h hw fun hended => hended

/-- What a recorded refusal says of the connection. -/
def RefusedWell (w : Visit) (seen : Option RoomConnectionStatus) : Prop :=
  w.Inv ∧ ∀ r ∈ seen, w.ended = true ∧ r ≠ .disconnected

omit [Runtime] in
theorem refusal_eq_some {r : RoomConnectionStatus} (h : t.refusal hook.socket os = some r) :
    t.accepted = true ∧ os.any (closes hook.socket) = true ∧ r ≠ .disconnected := by
  unfold Visit.refusal at h
  split_ifs at h with hc
  obtain ⟨ha, hcloses⟩ := (Bool.and_eq_true _ _).mp hc
  refine ⟨ha, hcloses, ?_⟩
  obtain ⟨e, -, he⟩ := List.exists_of_findSome?_eq_some h
  rintro rfl
  unfold refusalIn at he
  split at he
  · split_ifs at he
    cases he
  · split_ifs at he
    cases he
  · cases he

theorem refused_well {self : ShardIdentity} {s : Visit × Option RoomConnectionStatus}
    (hr : Machine.Reachable (visitSystem self hook) s) : RefusedWell s.1 s.2 := by
  refine hr.recorded_free (J := fun _ => True) (I := RefusedWell) (fun _ _ => trivial) ?_ ?_
  · rintro w rfl
    exact ⟨⟨.inl ⟨rfl, fun _ h => absurd h List.not_mem_nil, by simp⟩, fun _ => ⟨rfl, rfl, rfl⟩⟩,
      fun r h => by cases h⟩
  · intro w seen i t os _ ih hstep
    obtain ⟨hinv, hseen⟩ := ih
    have hkept := stepVisit_kept hstep hinv
    refine ⟨hkept.inv, fun r hr => ?_⟩
    cases hnow : t.refusal hook.socket os with
    | none =>
      rw [hnow] at hr
      exact ⟨hkept.ended (hseen r hr).1, (hseen r hr).2⟩
    | some q =>
      rw [hnow] at hr
      obtain rfl := Option.some.inj hr
      obtain ⟨ha, hcloses, hne⟩ := refusal_eq_some hnow
      exact ⟨hkept.closes ha hcloses, hne⟩

/-- A refused join leaves the page at "disconnected" once the socket has nothing more to tell:
never at the status of the refusal. -/
theorem refusal_replaced (self : ShardIdentity) (hook : Hook)
    (s : Visit × Option RoomConnectionStatus) (r : RoomConnectionStatus)
    (hr : Machine.Reachable (visitSystem self hook) s) (hrefused : s.2 = some r)
    (hquiet : s.1.events = []) :
    s.1.page.status = .disconnected ∧ s.1.page.status ≠ r := by
  obtain ⟨hinv, hseen⟩ := refused_well hr
  obtain ⟨hended, hne⟩ := hseen r hrefused
  rcases hinv.phase with ⟨hgoing, -⟩ | ⟨-, ⟨es, hes, -⟩, -⟩ | ⟨-, -, -, hstatus⟩
  · cases hgoing.symm.trans hended
  · rw [hquiet] at hes
    exact absurd hes.symm (by simp)
  · exact ⟨hstatus, fun h => hne (h.symm.trans hstatus)⟩

end

/-- The room is gone when the join arrives, and the page handles both events of the refusal. -/
def refusedVisit : List VisitInput :=
  [.fetched true, .accept (plainEnv 0) (.ok none), .handle 0, .deliver (plainEnv 1),
   .server (plainEnv 2) (.resume 0), .server (plainEnv 3) (.settle 0 (utf16 "AB3DE") false),
   .server (plainEnv 4) (.resume 0), .handle 1, .handle 1]

def plainHook : Hook := ⟨utf16 "AB3DE", utf16 "a", 0⟩

theorem refusal_replaced_run : ∃ s os,
    Machine.Run (@visitSystem plainRuntime plainShard plainHook) refusedVisit s os ∧
      s.2 = some .notFound ∧ s.1.events = [] ∧
      (s.1.page.status = .disconnected ∧ s.1.page.status ≠ .notFound) :=
  ⟨_, _, Machine.exec_observe_run (by decide +kernel), by decide +kernel, by decide +kernel,
    @refusal_replaced plainRuntime plainShard plainHook _ .notFound
      ⟨_, _, Machine.exec_observe_run (by decide +kernel)⟩ (by decide +kernel)
      (by decide +kernel)⟩

/-- The page shows the refusal until the close event. -/
theorem refusal_forgotten : ∃ s t os ps,
    Machine.Run (@visitSystem plainRuntime plainShard plainHook) refusedVisit.dropLast s os ∧
      s.2 = some .notFound ∧ s.1.page.status = .notFound ∧
    Machine.Run (@visitSystem plainRuntime plainShard plainHook) refusedVisit t ps ∧
      t.2 = some .notFound ∧ t.1.events = [] ∧ t.1.page.status = .disconnected :=
  ⟨_, _, _, _, Machine.exec_observe_run (by decide +kernel), by decide +kernel, by decide +kernel,
    Machine.exec_observe_run (by decide +kernel), by decide +kernel, by decide +kernel,
    by decide +kernel⟩

end GachaMind.Web
