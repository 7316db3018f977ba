import GachaMind.Web.RoomPage

/-!
# The countdown

A message says how much time is left, and the device adds that to its own clock when it handles
the message. A device whose clock is off by `skew`, and that handles every message at most
`latency` after the room made it, counts down to at most `latency` after the deadline of the room,
or after the moment at which the room last told it of the time left, if that was past the deadline.
The theorems are about a page that has handled all it was sent.
-/

namespace GachaMind.Web
open GachaMind.Js GachaMind.Shared GachaMind.GameSession KeyedTable Replica

/-- The call of `Date.now()` behind the `remainingMs` of a message. -/
def timeSite : ServerToClientMessage → ClockSite
  | .roomState _ => .snapshot
  | _ => .roundRemaining

abbrev Stamped := (Env × RoomInput) × ServerToClientMessage

def Stamped.madeAt (m : Stamped) : ℤ := m.1.1.now (timeSite m.2)

abbrev Delay (latency : ℕ) := {d : ℕ // d ≤ latency}

/-- The message is handled `delay` after it was made. -/
def arrive (skew : ℤ) {latency : ℕ} (page : RoomSocket) (delay : Delay latency) (m : Stamped) :
    RoomSocket :=
  page.onmessage (m.madeAt + skew + delay.1) m.2

def pageOn (skew : ℤ) {latency : ℕ} (delay : ℕ → Delay latency) (page : RoomSocket)
    (ms : List Stamped) : RoomSocket :=
  replay (arrive skew) delay page ms

/-- When the room made the last message that told of the time left. -/
def toldAfter (told : ℤ) (m : Stamped) : ℤ :=
  match m.2 with
  | .roomState _ => m.madeAt
  | .roundStarted _ => m.madeAt
  | _ => told

def toldAt (ms : List Stamped) : ℤ := ms.foldl toldAfter 0

/-- `Math.ceil(Math.max(0, endsAt - now) / 1000)`. -/
def secondsLeft (endsAt now : ℤ) : ℤ := (max 0 (endsAt - now) + 999) / 1000

def timedFeed : Feed RoomState (Env × RoomInput) ((Env × RoomInput) × Effect) Uuid Stamped :=
  roomFeed.stamped

abbrev TimedClients := RoomState × Inbox Uuid Stamped

section
variable [Runtime]

def timedClientSystem (id : RoomId) (capacity : ℕ) :
    Machine.System TimedClients (Env × RoomInput) ((Env × RoomInput) × Effect) :=
  timedFeed.system (stamped (roomSystem id capacity))

end

/-! ### One step -/

section
variable {skew : ℤ} {latency : ℕ} {i : Env × RoomInput}

/-- On a page the messages of one step are handled at times that the delays give. -/
theorem pageOn_step (delay : ℕ → Delay latency) (page : RoomSocket)
    {ms : List ServerToClientMessage} (h : ∀ m ∈ ms, timeSite m = .roundRemaining) :
    pageOn skew delay page (ms.map (Prod.mk i)) =
      pageAfter (fun n => i.1.now .roundRemaining + skew + (delay n).1) page ms := by
  induction ms generalizing delay page with
  | nil => rfl
  | cons m ms ih =>
    have hm : timeSite m = .roundRemaining := h m List.mem_cons_self
    have htail := ih (fun n => delay (n + 1)) (arrive skew page (delay 0) (i, m))
      fun n hn => h n (List.mem_cons_of_mem m hn)
    rw [List.map_cons, pageOn, replay_cons, pageAfter, replay_cons]
    rw [pageOn, arrive, Stamped.madeAt, hm] at htail
    rw [arrive, Stamped.madeAt, hm]
    exact htail

theorem timeSite_aside {m : ServerToClientMessage} (h : IsAside m) :
    timeSite m = .roundRemaining := by
  cases m <;> first | rfl | exact h.elim

/-- The page counts down to the room's deadline, and at most `latency` longer. -/
def Counts (skew : ℤ) (latency : ℕ) (room : Room) (told : ℤ) (game : GameState) : Prop :=
  ∀ r, room.roundEndsAt = some r →
    ∃ d ≤ latency, game.roundEndsAt = some (max r told + skew + d)

theorem Counts.of_room {room t : Room} {told : ℤ} {game : GameState}
    (h : Counts skew latency room told game) (ht : t.roundEndsAt = room.roundEndsAt) :
    Counts skew latency t told game := by
  intro r hr
  exact h r (ht ▸ hr)

theorem Counts.of_none {room : Room} {told : ℤ} {game : GameState} (h : room.roundEndsAt = none) :
    Counts skew latency room told game := by
  intro r hr
  rw [h] at hr
  cases hr

theorem told_aside (told : ℤ) {ms : List ServerToClientMessage} (h : ∀ m ∈ ms, IsAside m) :
    (ms.map (Prod.mk i)).foldl toldAfter told = told := by
  induction ms with
  | nil => rfl
  | cons m ms ih =>
    have hm : toldAfter told (i, m) = told := by
      have haside := h m List.mem_cons_self
      cases m <;> first | rfl | exact haside.elim
    rw [List.map_cons, List.foldl_cons, hm]
    exact ih fun n hn => h n (List.mem_cons_of_mem m hn)

theorem counts_opened {env : Env} {room : Room} {drawer : Player} {id : Uuid} {d : ℕ}
    (page : RoomSocket) (hd : d ≤ latency) :
    Counts skew latency (room.openRound env drawer) (env.now .roundRemaining)
      (page.onmessage (env.now .roundRemaining + skew + d)
        (.roundStarted (toldTo env room drawer id))).game := by
  intro r hr
  obtain ⟨word, hgame⟩ := game_roundStarted page (env.now .roundRemaining + skew + d) env room
    drawer id
  have hms : (room.startedMessage env drawer).remainingMs =
      max 0 (r - env.now .roundRemaining) := by
    simp [Room.startedMessage, Room.remainingMs, hr]
  refine ⟨d, hd, ?_⟩
  rw [hgame, hms]
  simp only [Option.some.injEq]
  omega

theorem counts_snapshot {env : Env} {room : Room} {player : Player} {d : ℕ} (page : RoomSocket)
    (hd : d ≤ latency) :
    Counts skew latency room (env.now .snapshot)
      (page.onmessage (env.now .snapshot + skew + d) (.roomState (snapshot env room player))).game
      := by
  intro r hr
  refine ⟨d, hd, ?_⟩
  simp only [RoomSocket.onmessage, snapshot, Room.remainingMs, hr, toLocalDeadline, Option.map_some,
    Option.some.injEq]
  omega

theorem heard_timeSite {env : Env} {room t : Room} {id : Uuid} {input : RoomInput}
    {ms : List ServerToClientMessage} {ks : List GameMark} (hs : Heard env room id input t ms ks) :
    ∀ m ∈ ms, timeSite m = .roundRemaining := by
  cases hs with
  | aside hms => exact fun m hm => timeSite_aside (hms m hm)
  | draw _ _ => split_ifs <;> simp [timeSite]
  | drawClear _ => split_ifs <;> simp [timeSite]
  | join _ _ _ hms =>
    exact List.forall_mem_cons.mpr ⟨rfl, fun m hm => timeSite_aside (hms m hm)⟩
  | leave hms => exact List.forall_mem_cons.mpr ⟨rfl, fun m hm => timeSite_aside (hms m hm)⟩
  | leaveGame _ hms =>
    rw [List.forall_mem_append, List.forall_mem_cons]
    exact ⟨⟨rfl, fun m hm => timeSite_aside (hms m hm)⟩, by simp [timeSite]⟩
  | leaveRound _ hms =>
    rw [List.forall_mem_append, List.forall_mem_cons]
    exact ⟨⟨rfl, fun m hm => timeSite_aside (hms m hm)⟩, by simp [timeSite]⟩
  | _ => simp [timeSite]

theorem counts_heard {env : Env} {room t : Room} {id : Uuid} {input : RoomInput}
    {ms : List ServerToClientMessage} {ks : List GameMark} (hs : Heard env room id input t ms ks)
    (delay : ℕ → Delay latency) {page : RoomSocket} {told : ℤ}
    (h : Counts skew latency room told page.game) :
    Counts skew latency t ((ms.map (Prod.mk (env, input))).foldl toldAfter told)
      (pageAfter (fun n => env.now .roundRemaining + skew + (delay n).1) page ms).game := by
  cases hs with
  | aside hms =>
    rw [told_aside told hms, game_pageAfter_aside hms]
    exact h
  | draw stroke _ =>
    have ht : Counts skew latency (room.addStroke stroke) told page.game :=
      h.of_room (by rw [Room.addStroke_eq])
    split_ifs
    · exact ht
    · exact ht
  | drawClear _ =>
    have ht : Counts skew latency room.clearStrokes told page.game := h.of_room rfl
    split_ifs
    · exact ht
    · exact ht
  | join _ _ _ hms =>
    rw [List.map_cons, List.foldl_cons, told_aside _ hms, game_pageAfter_cons hms,
      Room.seatPlayer_eq]
    exact h.of_room rfl
  | start _ _ => exact counts_opened _ (delay 2).2
  | answer _ _ =>
    rw [pageAfter, replay_cons, replay_nil, game_correctAnswer]
    exact h.of_room rfl
  | lastAnswer _ _ => exact .of_none rfl
  | close _ => exact .of_none rfl
  | next _ => exact counts_opened _ (delay 1).2
  | finish _ => exact .of_none rfl
  | leave hms =>
    rw [List.map_cons, List.foldl_cons, told_aside _ hms, game_pageAfter_cons hms]
    exact h.of_room rfl
  | leaveGame _ _ => exact .of_none rfl
  | leaveRound _ _ => exact .of_none rfl

end

/-! ### Runs -/

section
variable [Runtime] {id : RoomId} {capacity : ℕ} {skew : ℤ} {latency : ℕ}

omit [Runtime] in
theorem received_stamped (p : Uuid) (i : Env × RoomInput) (os : List Effect) :
    timedFeed.received p (os.map (Prod.mk i)) = (received p os).map (Prod.mk i) :=
  Feed.stamped_received rfl i os

theorem reachable_counts {s : TimedClients}
    (hr : Machine.Reachable (timedClientSystem id capacity) s) {p : Uuid} {ms : List Stamped}
    (hp : s.2 p = some ms) (delay : ℕ → Delay latency) (page : RoomSocket) :
    Follows s.1.room (pageOn skew delay page ms).game ∧
      Counts skew latency s.1.room (toldAt ms) (pageOn skew delay page ms).game := by
  refine Feed.replica (F := timedFeed) (J := RoomState.Inv) (A := fun _ _ => True)
    (R := fun s _ ms page => Follows s.room page.game ∧
      Counts skew latency s.room (toldAt ms) page.game)
    (fun s hr => reachable_inv (reachable_of_stamped hr)) ?_ ?_ (hr.to_restrict fun _ _ => trivial)
    hp delay page
  · intro s inbox i t os p hi _ hs hc hm delay page
    obtain ⟨ps, hs, rfl⟩ := hs
    obtain ⟨-, hstep, -⟩ := roomSystem_step hs
    obtain ⟨player, rfl, -, -, -, ms, hms, hreceived⟩ :=
      transition_joined (roomStep_transition hi.coherent hstep) (of_decide_eq_true hc)
        (of_decide_eq_false hm)
    have hrest := @pageOn_step skew _ i (fun n => delay (n + 1))
      (arrive skew page (delay 0) (i, .roomState (snapshot i.1 t.room player))) _
      fun m hm => timeSite_aside (hms m hm)
    rw [received_stamped, hreceived, List.map_cons]
    change Follows t.room (pageOn skew (fun n => delay (n + 1)) _ (ms.map (Prod.mk i))).game ∧
      Counts skew latency t.room (List.foldl toldAfter (i.1.now .snapshot) _)
        (pageOn skew (fun n => delay (n + 1)) _ (ms.map (Prod.mk i))).game
    rw [told_aside _ hms, hrest, game_pageAfter_aside hms]
    exact ⟨⟨rfl, rfl, rfl, rfl, by simp [arrive, RoomSocket.onmessage, snapshot, toLocalDeadline,
      Room.remainingMs]⟩, counts_snapshot page (delay 0).2⟩
  · intro s inbox i t os p ns page hi _ hs hc hm hrel delay
    obtain ⟨ps, hs, rfl⟩ := hs
    obtain ⟨hu, hstep, -⟩ := roomSystem_step hs
    have hfresh : i.1.uuid ∉ s.room.players.keys := fun hid => hu (hi.players_issued _ hid)
    have hheard := transition_heard (roomStep_transition hi.coherent hstep) hfresh
      (of_decide_eq_true hc) (of_decide_eq_true hm)
    rw [received_stamped, toldAt, List.foldl_append]
    change Follows t.room (pageOn skew delay page _).game ∧
      Counts skew latency t.room _ (pageOn skew delay page _).game
    rw [pageOn_step delay page (heard_timeSite hheard)]
    exact ⟨follows_heard hheard _ hrel.1, counts_heard hheard delay hrel.2⟩

/-- Whatever the clock of a device says, its page counts down to the deadline of the room or to
the moment it was last told of the time left, whichever is later. If it was told before the
deadline, it shows at every moment the seconds left, or at most those that would be left with a
deadline that much later as messages take. -/
theorem countdown_skew_free (id : RoomId) (capacity : ℕ) (s : TimedClients)
    (hr : Machine.Reachable (timedClientSystem id capacity) s) (p : Uuid) (ms : List Stamped)
    (hp : s.2 p = some ms) (skew : ℤ) (latency : ℕ) (delay : ℕ → Delay latency)
    (page : RoomSocket) :
    ((pageOn skew delay page ms).game.roundEndsAt = none ↔ s.1.room.roundEndsAt = none) ∧
    ∀ r, s.1.room.roundEndsAt = some r →
      ∃ e, (pageOn skew delay page ms).game.roundEndsAt = some e ∧
        max r (toldAt ms) + skew ≤ e ∧ e ≤ max r (toldAt ms) + skew + latency ∧
        (toldAt ms ≤ r → ∀ now, secondsLeft r now ≤ secondsLeft e (now + skew) ∧
          secondsLeft e (now + skew) ≤ secondsLeft (r + latency) now) := by
  obtain ⟨hfollows, hcounts⟩ := @reachable_counts _ _ _ skew _ _ hr _ _ hp delay page
  constructor
  · exact hfollows.countdown
  · intro r hsome
    obtain ⟨d, hd, he⟩ := hcounts r hsome
    refine ⟨_, he, by omega, by omega, fun htold now => ?_⟩
    unfold secondsLeft
    omega

end

/-- A third player joins a second after the start, on a device that is two hours ahead. -/
def joinLate : List RoomInput := twoStart ++ [.join 2 none (utf16 "c")]

theorem joinLate_countdown : ∃ s os ms e,
    Machine.Run (@timedClientSystem plainRuntime (utf16 "AB3DE") DEFAULT_ROOM_CAPACITY)
      (numbered joinLate) s os ∧ s.2 ⟨3⟩ = some ms ∧ s.1.room.roundEndsAt = some 62000 ∧
      (pageOn 7200000 (fun _ => (⟨40, by decide⟩ : Delay 150)) {} ms).game.roundEndsAt = some e ∧
      secondsLeft 62000 30000 ≤ secondsLeft e (30000 + 7200000) ∧
      secondsLeft e (30000 + 7200000) ≤ secondsLeft (62000 + 150) 30000 := by
  obtain ⟨-, hsome⟩ := @countdown_skew_free plainRuntime (utf16 "AB3DE") DEFAULT_ROOM_CAPACITY _
    ⟨numbered joinLate, _, exec_stamped_run (by decide +kernel)⟩ ⟨3⟩ _
    (Option.some_get (by decide +kernel)).symm 7200000 150 (fun _ => ⟨40, by decide⟩) {}
  obtain ⟨e, he, -, -, hseconds⟩ := hsome 62000 (by decide +kernel)
  have hleft := hseconds (by decide +kernel) 30000
  exact ⟨_, _, _, e, exec_stamped_run (by decide +kernel),
    (Option.some_get (by decide +kernel)).symm, by decide +kernel, he, hleft.1, hleft.2⟩

end GachaMind.Web
