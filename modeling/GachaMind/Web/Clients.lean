import GachaMind.Web.Audience

/-!
# The pages of the players

The system of a room with what its connected players were sent. A player is connected as long
as its socket was open at every step since it joined; a page may show anything before its
first message, and its device may have any clock.
-/

namespace GachaMind.Web
open GachaMind.Js GachaMind.Shared GachaMind.GameSession KeyedTable Replica

instance (env : Env) (room : Room) (id : Uuid) : Decidable (Online env room id) :=
  inferInstanceAs (Decidable (∃ seat ∈ room.seats, seat.1 = id ∧ env.isOpen seat.2 = true))

def roomFeed : Feed RoomState (Env × RoomInput) Effect Uuid ServerToClientMessage where
  member s id := decide (id ∈ s.room.players.keys)
  connected i t id := decide (Online i.1 t.room id)
  received := received

abbrev Clients := RoomState × Inbox Uuid ServerToClientMessage

section
variable [Runtime]

def clientSystem (id : RoomId) (capacity : ℕ) :
    Machine.System Clients (Env × RoomInput) Effect :=
  roomFeed.system (roomSystem id capacity)

end

/-- The page of a player that was sent `ms`. -/
def pageAfter (clock : ℕ → ℤ) (page : RoomSocket) (ms : List ServerToClientMessage) : RoomSocket :=
  replay RoomSocket.onmessage clock page ms

theorem pageAfter_append (clock : ℕ → ℤ) (page : RoomSocket) (ms ns : List ServerToClientMessage) :
    pageAfter clock page (ms ++ ns) =
      pageAfter (fun n => clock (n + ms.length)) (pageAfter clock page ms) ns :=
  replay_append _ clock page ms ns

theorem players_pageAfter (clock : ℕ → ℤ) (page : RoomSocket) (ms : List ServerToClientMessage) :
    (pageAfter clock page ms).players = ms.foldl playersAfter page.players :=
  replay_part onmessage_players clock page ms

theorem strokes_pageAfter (clock : ℕ → ℤ) (page : RoomSocket) (ms : List ServerToClientMessage) :
    (pageAfter clock page ms).strokes = ms.foldl strokesAfter page.strokes :=
  replay_part onmessage_strokes clock page ms

theorem foldl_aside {ω : Type} {step : ω → ServerToClientMessage → ω}
    (hstep : ∀ x m, IsAside m → step x m = x) {ms : List ServerToClientMessage}
    (h : ∀ m ∈ ms, IsAside m) (x : ω) : ms.foldl step x = x := by
  induction ms with
  | nil => rfl
  | cons m ms ih =>
    rw [List.foldl_cons, hstep x m (h m List.mem_cons_self)]
    exact ih fun n hn => h n (List.mem_cons_of_mem m hn)

theorem playersAfter_aside (players : List PlayerSummary) (m : ServerToClientMessage)
    (h : IsAside m) : playersAfter players m = players := by
  cases m <;> first | rfl | exact h.elim

theorem strokesAfter_aside (strokes : List StrokeSegment) (m : ServerToClientMessage)
    (h : IsAside m) : strokesAfter strokes m = strokes := by
  cases m <;> first | rfl | exact h.elim

theorem game_pageAfter_aside {ms : List ServerToClientMessage} (h : ∀ m ∈ ms, IsAside m)
    (clock : ℕ → ℤ) (page : RoomSocket) : (pageAfter clock page ms).game = page.game := by
  induction ms generalizing clock page with
  | nil => rfl
  | cons m ms ih =>
    rw [pageAfter, replay_cons]
    exact (ih (fun n hn => h n (List.mem_cons_of_mem m hn)) _ _).trans
      (onmessage_game_of_aside (h m List.mem_cons_self))

theorem game_pageAfter_cons {ms : List ServerToClientMessage} (h : ∀ m ∈ ms, IsAside m)
    (m : ServerToClientMessage) (clock : ℕ → ℤ) (page : RoomSocket) :
    (pageAfter clock page (m :: ms)).game = (page.onmessage (clock 0) m).game :=
  game_pageAfter_aside h _ _

/-! ### The rule for pages -/

section
variable [Runtime] {id : RoomId} {capacity : ℕ}

/-- A relation between the room, a player, what it was sent and its page holds of every
connected player, if the snapshot establishes it and every step the player hears of keeps it. -/
theorem clients_rule {A : Clients → Env × RoomInput → Prop} {J : RoomState → Prop}
    {R : RoomState → Uuid → List ServerToClientMessage → RoomSocket → Prop}
    (hJ : ∀ s, Machine.Reachable (roomSystem id capacity) s → J s)
    (hjoin : ∀ env (s t : RoomState) player ms clock page, J s →
      t.room = seatPlayer s.room player → player.id = env.uuid →
      player.id ∉ s.room.players.keys → player.score = 0 → (∀ m ∈ ms, IsAside m) →
      R t player.id (.roomState (snapshot env t.room player) :: ms)
        (pageAfter clock page (.roomState (snapshot env t.room player) :: ms)))
    (hkeep : ∀ env input (s : RoomState) inbox (t : RoomState) p ns ms ks clock page, J s →
      env.uuid ∉ s.issued → t.issued = env.uuid :: s.issued → A (s, inbox) (env, input) →
      Heard env s.room p input t.room ms ks → R s p ns page →
      R t p (ns ++ ms) (pageAfter clock page ms))
    {s : Clients} (hr : Machine.Reachable ((clientSystem id capacity).restrict A) s) {p : Uuid}
    {ms : List ServerToClientMessage} (hp : s.2 p = some ms) (clock : ℕ → ℤ) (page : RoomSocket) :
    R s.1 p ms (pageAfter clock page ms) := by
  refine Feed.replica (J := fun s => s.Inv ∧ J s) (R := R) (fun s hr => ⟨reachable_inv hr, hJ s hr⟩)
    ?_ ?_ hr hp clock page
  · intro s inbox i t os p hi _ hs hc hm clock page
    obtain ⟨hinv, hj⟩ := hi
    obtain ⟨-, hstep, -⟩ := roomSystem_step hs
    have hnew : p ∉ s.room.players.keys := of_decide_eq_false hm
    obtain ⟨player, rfl, hu, h0, ht, ms, hms, hreceived⟩ :=
      transition_joined (roomStep_transition hinv.coherent hstep) (of_decide_eq_true hc) hnew
    show R t player.id (received player.id os) (pageAfter clock page (received player.id os))
    rw [hreceived]
    exact hjoin i.1 s t player ms clock page hj ht hu hnew h0 hms
  · intro s inbox i t os p ns page hi ha hs hc hm hrel clock
    obtain ⟨hinv, hj⟩ := hi
    obtain ⟨hu, hstep, hissued⟩ := roomSystem_step hs
    have hfresh : i.1.uuid ∉ s.room.players.keys := fun hid => hu (hinv.players_issued _ hid)
    have hheard := transition_heard (roomStep_transition hinv.coherent hstep) hfresh
      (of_decide_eq_true hc) (of_decide_eq_true hm)
    exact hkeep i.1 i.2 s inbox t p ns _ _ clock page hj hu hissued ha hheard hrel

end

/-! ### Pages on fixed inputs -/

abbrev plainClients : Machine.System Clients (Env × RoomInput) Effect :=
  @clientSystem plainRuntime (utf16 "AB3DE") DEFAULT_ROOM_CAPACITY

/-- What the page of a connected player shows, with a clock that stands still. -/
def Clients.page (s : Clients) (id : Uuid) : Option RoomSocket :=
  (s.2 id).map fun ms => pageAfter (fun _ => 0) {} ms

end GachaMind.Web
