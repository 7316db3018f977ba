import GachaMind.Web.Clients

/-!
# The drawing

Strokes reach the other players as they are drawn, and a newcomer from the buffer of the room.
The buffer keeps the first `MAX_BUFFERED_STROKES` since the canvas was last emptied, and what a
player draws is not sent back to that player. What the room keeps may hold numbers that are not
finite, which no text can carry.
-/

namespace GachaMind.Web
open GachaMind.Js GachaMind.Shared GachaMind.GameSession KeyedTable Replica

/-! ### The last drawer -/

def drawerAfter (last : Option Uuid) : ServerToClientMessage → Option Uuid
  | .roundStarted m => some m.drawerId
  | _ => last

/-- The drawer of the last round that the player was told of. -/
def lastDrawer (ms : List ServerToClientMessage) : Option Uuid := ms.foldl drawerAfter none

theorem drawerAfter_aside (last : Option Uuid) (m : ServerToClientMessage) (h : IsAside m) :
    drawerAfter last m = last := by
  cases m <;> first | rfl | exact h.elim

theorem lastDrawer_append (ms ns : List ServerToClientMessage) :
    lastDrawer (ms ++ ns) = ns.foldl drawerAfter (lastDrawer ms) :=
  List.foldl_append

/-! ### The buffer -/

/-- The buffer holds the first strokes of the copy, up to its size. -/
def Buffered (room : Room) (strokes : List StrokeSegment) : Prop :=
  room.strokes.map parsedStroke = strokes.take MAX_BUFFERED_STROKES

theorem Buffered.of_strokes {room t : Room} {strokes : List StrokeSegment}
    (h : Buffered room strokes) (hs : t.strokes = room.strokes) : Buffered t strokes :=
  (congrArg (List.map parsedStroke) hs).trans h

theorem Buffered.addStroke {room : Room} {strokes : List StrokeSegment}
    (h : Buffered room strokes) (stroke : StrokeSegment) :
    Buffered (room.addStroke stroke) (strokes ++ [parsedStroke stroke]) := by
  unfold Buffered at h ⊢
  have hlen := congrArg List.length h
  rw [List.length_map, List.length_take] at hlen
  unfold Room.addStroke
  split_ifs with hfull
  · rw [h, List.take_append_of_le_length (by omega)]
  · rw [List.take_of_length_le (by simp; omega)]
    show (room.strokes ++ [stroke]).map parsedStroke = _
    rw [List.map_append, h, List.take_of_length_le (by omega)]
    rfl

theorem addStroke_length {room : Room} (stroke : StrokeSegment)
    (h : room.strokes.length ≤ MAX_BUFFERED_STROKES) :
    (room.addStroke stroke).strokes.length ≤ MAX_BUFFERED_STROKES := by
  unfold Room.addStroke
  split_ifs with hfull
  · exact h
  · show (room.strokes ++ [stroke]).length ≤ MAX_BUFFERED_STROKES
    rw [List.length_append, List.length_singleton]
    omega

theorem transition_buffer {env : Env} {room t : Room} {input : RoomInput} {os : List Effect}
    (hs : Transition env room input t os) (h : room.strokes.length ≤ MAX_BUFFERED_STROKES) :
    t.strokes.length ≤ MAX_BUFFERED_STROKES := by
  cases hs with
  | aside _ _ => exact h
  | draw sanitized _ _ => exact addStroke_length sanitized h
  | drawClear _ _ => exact Nat.zero_le _
  | join _ =>
    rw [Room.seatPlayer_eq]
    exact h
  | start _ _ _ _ => exact Nat.zero_le _
  | nextRound _ _ _ _ => exact Nat.zero_le _
  | _ => exact h

/-! ### Steps -/

/-- What `id` was sent of the strokes, unless `id` drew them. -/
structure Copied (room : Room) (id : Uuid) (last : Option Uuid) (strokes : List StrokeSegment) :
    Prop where
  drawer : room.drawerId = some id → last = some id
  buffered : last ≠ some id → Buffered room strokes

theorem Copied.of_room {room t : Room} {id : Uuid} {last : Option Uuid}
    {strokes : List StrokeSegment} (h : Copied room id last strokes)
    (hd : t.drawerId = room.drawerId ∨ t.drawerId = none) (hs : t.strokes = room.strokes) :
    Copied t id last strokes where
  drawer ht := by
    rcases hd with hd | hd
    · exact h.drawer (hd ▸ ht)
    · cases hd.symm.trans ht
  buffered hl := (h.buffered hl).of_strokes hs

theorem copied_opened (env : Env) (room : Room) (drawer : Player) (id : Uuid) :
    Copied (room.openRound env drawer) id (some drawer.id) [] :=
  ⟨fun h => h, fun _ => rfl⟩

theorem copied_heard {env : Env} {room t : Room} {id : Uuid} {input : RoomInput}
    {ms : List ServerToClientMessage} {ks : List GameMark} {last : Option Uuid}
    {strokes : List StrokeSegment} (hs : Heard env room id input t ms ks)
    (h : Copied room id last strokes) :
    Copied t id (ms.foldl drawerAfter last) (ms.foldl strokesAfter strokes) := by
  cases hs with
  | aside hms =>
    rwa [foldl_aside drawerAfter_aside hms, foldl_aside strokesAfter_aside hms]
  | @draw d _ stroke hd =>
    obtain ⟨-, hdrawer, -⟩ := room.addStroke_frame stroke
    split_ifs with he
    · subst he
      exact ⟨fun _ => h.drawer hd, fun hl => absurd (h.drawer hd) hl⟩
    · exact ⟨fun ht => h.drawer (hdrawer ▸ ht), fun hl => (h.buffered hl).addStroke stroke⟩
  | @drawClear d hd =>
    split_ifs with he
    · subst he
      exact ⟨fun _ => h.drawer hd, fun hl => absurd (h.drawer hd) hl⟩
    · exact ⟨h.drawer, fun _ => rfl⟩
  | join _ _ _ hms =>
    rw [List.foldl_cons, List.foldl_cons, foldl_aside drawerAfter_aside hms,
      foldl_aside strokesAfter_aside hms, Room.seatPlayer_eq]
    exact h.of_room (.inl rfl) rfl
  | @start drawer _ _ =>
    obtain ⟨word, hw⟩ := toldTo_word env (room.beginGame env) drawer id
    rw [hw]
    exact copied_opened env _ drawer id
  | answer _ _ => exact h.of_room (.inl rfl) rfl
  | lastAnswer _ _ => exact h.of_room (.inr rfl) rfl
  | close _ => exact h.of_room (.inr rfl) rfl
  | @next n drawer _ =>
    obtain ⟨word, hw⟩ := toldTo_word env (room.timerFired n) drawer id
    rw [hw]
    exact copied_opened env _ drawer id
  | finish _ => exact h.of_room (.inr rfl) rfl
  | leave hms =>
    rw [List.foldl_cons, List.foldl_cons, foldl_aside drawerAfter_aside hms,
      foldl_aside strokesAfter_aside hms]
    exact h.of_room (.inl rfl) rfl
  | leaveGame _ hms =>
    simp only [List.foldl_append, List.foldl_cons, foldl_aside drawerAfter_aside hms,
      foldl_aside strokesAfter_aside hms]
    exact h.of_room (.inr rfl) rfl
  | leaveRound _ hms =>
    simp only [List.foldl_append, List.foldl_cons, foldl_aside drawerAfter_aside hms,
      foldl_aside strokesAfter_aside hms]
    exact h.of_room (.inr rfl) rfl

section
variable [Runtime] {id : RoomId} {capacity : ℕ}

theorem reachable_buffer {s : RoomState} (hr : Machine.Reachable (roomSystem id capacity) s) :
    s.room.strokes.length ≤ MAX_BUFFERED_STROKES := by
  refine hr.invariant_of (J := RoomState.Inv)
    (I := fun s => s.room.strokes.length ≤ MAX_BUFFERED_STROKES) (fun _ hr => reachable_inv hr)
    ?_ ?_
  · intro s h
    obtain rfl := h
    exact Nat.zero_le _
  · intro s i t os hi h hs
    exact transition_buffer (roomStep_transition hi.coherent (roomSystem_step hs).2.1) h

theorem reachable_copied {s : Clients} (hr : Machine.Reachable (clientSystem id capacity) s)
    {p : Uuid} {ms : List ServerToClientMessage} (hp : s.2 p = some ms) (clock : ℕ → ℤ)
    (page : RoomSocket) :
    Copied s.1.room p (lastDrawer ms) (pageAfter clock page ms).strokes := by
  refine clients_rule (A := fun _ _ => True)
    (J := fun s => s.Inv ∧ s.room.strokes.length ≤ MAX_BUFFERED_STROKES)
    (R := fun s p ms page => Copied s.room p (lastDrawer ms) page.strokes)
    (fun _ hr => ⟨reachable_inv hr, reachable_buffer hr⟩) ?_ ?_ (hr.to_restrict fun _ _ => trivial)
    hp clock page
  · intro env s t player ms clock page hj ht _ hnew _ hms
    obtain ⟨hi, hlen⟩ := hj
    rw [lastDrawer, strokes_pageAfter, List.foldl_cons, List.foldl_cons,
      foldl_aside drawerAfter_aside hms, foldl_aside strokesAfter_aside hms]
    rw [ht, Room.seatPlayer_eq]
    refine ⟨fun hd => ?_, fun _ => (List.take_of_length_le (by simpa using hlen)).symm⟩
    exact absurd (hi.coherent.consistent.drawing player.id hd).2.1 hnew
  · intro env input s inbox t p ns ms ks clock page _ _ _ _ hs hrel
    rw [lastDrawer_append, strokes_pageAfter]
    exact copied_heard hs hrel

/-- The room holds the first `MAX_BUFFERED_STROKES` strokes of what a player sees who did not
draw the last round, as they come out of the text of a message. -/
theorem canvas_buffered (id : RoomId) (capacity : ℕ) (s : Clients)
    (hr : Machine.Reachable (clientSystem id capacity) s) (p : Uuid)
    (ms : List ServerToClientMessage) (hp : s.2 p = some ms) (hlast : lastDrawer ms ≠ some p)
    (clock : ℕ → ℤ) (page : RoomSocket) :
    s.1.room.strokes.map parsedStroke =
      (pageAfter clock page ms).strokes.take MAX_BUFFERED_STROKES :=
  (reachable_copied hr hp clock page).buffered hlast

end

def dotFrame : Json := .obj [(utf16 "points", .arr [.null])]

def dotThenJoin : List RoomInput :=
  [.join 0 none (utf16 "a"), .join 1 none (utf16 "b"), .startGame,
   .draw ⟨1⟩ (some dotFrame), .join 2 none (utf16 "c")]

theorem dotThenJoin_buffered : ∃ s os ms, Machine.Run plainClients (numbered dotThenJoin) s os ∧
    s.2 ⟨4⟩ = some ms ∧ lastDrawer ms ≠ some ⟨4⟩ ∧ s.1.room.strokes.length = 1 ∧
      s.1.room.strokes.map parsedStroke =
        (pageAfter (fun _ => 0) {} ms).strokes.take MAX_BUFFERED_STROKES :=
  ⟨_, _, _, Machine.exec_observe_run (by decide +kernel),
    (Option.some_get (by decide +kernel)).symm, by decide +kernel, by decide +kernel,
    @canvas_buffered plainRuntime _ _ _ ⟨_, _, Machine.exec_observe_run (by decide +kernel)⟩ _ _
      (Option.some_get (by decide +kernel)).symm (by decide +kernel) _ _⟩

/-! ### What is missing -/

def dot : StrokeSegment := { points := [.null], color := utf16 "#171717", width := .finite 4 }

def twoStart : List RoomInput :=
  [.join 0 none (utf16 "a"), .join 1 none (utf16 "b"), .startGame]

def drawDots (n : ℕ) : List RoomInput :=
  twoStart ++ List.replicate n (.draw ⟨1⟩ (some dotFrame))

theorem numbered_snoc {ι : Type} (inputs : List ι) (i : ι) :
    numbered (inputs ++ [i]) = numbered inputs ++ [(plainEnv inputs.length, i)] := by
  simp [numbered, List.zipIdx_append]

/-- The game of `twoStart` after `n` dots, as the other player sees it. -/
structure Dotted (n : ℕ) (s : Clients) : Prop where
  phase : s.1.room.phase = .playing
  drawer : s.1.room.drawerId = some ⟨1⟩
  seats : s.1.room.seats = [(⟨0⟩, 0), (⟨1⟩, 1)]
  issued : ∀ u ∈ s.1.issued, u.bits.toNat < n + 3
  shown : ∃ ms, s.2 ⟨0⟩ = some ms ∧ lastDrawer ms = some ⟨1⟩ ∧
    (pageAfter (fun _ => 0) {} ms).strokes.length = n

theorem draw_dot {room : Room} (env : Env) (hp : room.phase = .playing)
    (hd : room.drawerId = some ⟨1⟩) :
    @roomStep plainRuntime env room (.draw ⟨1⟩ (some dotFrame)) =
      some (room.addStroke dot, [(room.addStroke dot).broadcast env (.draw dot) (some ⟨1⟩)]) := by
  have hs : @sanitizeStroke plainRuntime (some dotFrame) = .ok dot := by rfl
  have hpoints : strokePoints (some dotFrame) ≠ [] := by decide
  simp only [roomStep, handleDraw, hp, hd, hpoints, hs, ne_eq, not_true_eq_false, or_self, if_false]
  rfl

theorem plainEnv_uuid {n : ℕ} (hn : n < 2 ^ 128) : (plainEnv n).uuid.bits.toNat = n := by
  rw [plainEnv, BitVec.toNat_ofNat, Nat.mod_eq_of_lt hn]

theorem dotted_step {n : ℕ} {s : Clients} (h : Dotted n s) (hn : n + 3 < 2 ^ 128) :
    ∃ t os, plainClients.step s (plainEnv (n + 3), .draw ⟨1⟩ (some dotFrame)) t os ∧
      Dotted (n + 1) t := by
  have huuid := plainEnv_uuid hn
  have hu : (plainEnv (n + 3)).uuid ∉ s.1.issued := by
    intro hmem
    have hlt := h.issued _ hmem
    omega
  have hseats : (s.1.room.addStroke dot).seats = [(⟨0⟩, 0), (⟨1⟩, 1)] := by
    rw [addStroke_seats, h.seats]
  have hon : Online (plainEnv (n + 3)) (s.1.room.addStroke dot) ⟨0⟩ := by
    rw [Online, hseats]
    exact ⟨(⟨0⟩, 0), List.mem_cons_self, rfl, rfl⟩
  have hkey : (⟨0⟩ : Uuid) ∈ s.1.room.players.keys := by
    rw [← Room.map_fst_seats, h.seats]
    exact List.mem_cons_self
  obtain ⟨ms, hms, hlast, hlen⟩ := h.shown
  obtain ⟨os, hos⟩ : ∃ os, os =
      [(s.1.room.addStroke dot).broadcast (plainEnv (n + 3)) (.draw dot) (some ⟨1⟩)] := ⟨_, rfl⟩
  have hreceived : received ⟨0⟩ os = [.draw dot] := by
    rw [hos, received_cons_except hon, if_neg (by decide)]
    rfl
  obtain ⟨t, ht⟩ : ∃ t : RoomState, t =
      ⟨s.1.room.addStroke dot, (plainEnv (n + 3)).uuid :: s.1.issued⟩ := ⟨_, rfl⟩
  refine ⟨(t, roomFeed.deliver s.2 s.1 (plainEnv (n + 3), .draw ⟨1⟩ (some dotFrame)) t os), os,
    ⟨?_, rfl⟩, ?_⟩
  · simp only [roomSystem, Machine.ofFunction, stepRoomState, if_neg hu,
      draw_dot _ h.phase h.drawer, Option.map_some, ht, hos]
  · obtain ⟨-, hdrawer, hphase⟩ := s.1.room.addStroke_frame dot
    subst ht
    refine ⟨hphase.trans h.phase, hdrawer.trans h.drawer, hseats, ?_, ms ++ [.draw dot], ?_, ?_, ?_⟩
    · intro u hmem
      rcases List.mem_cons.mp hmem with rfl | hmem
      · omega
      · exact (h.issued u hmem).trans (by omega)
    · simp only [Feed.deliver, roomFeed, decide_eq_true_eq, if_pos hon, if_pos hkey, hms,
        Option.map_some, hreceived]
    · rw [lastDrawer_append]
      exact hlast
    · rw [strokes_pageAfter, List.foldl_append, ← strokes_pageAfter (fun _ => 0) {} ms]
      simp [strokesAfter, hlen]

theorem dotted_run (n : ℕ) (hn : n + 3 < 2 ^ 128) :
    ∃ s os, Machine.Run plainClients (numbered (drawDots n)) s os ∧ Dotted n s := by
  induction n with
  | zero =>
    refine ⟨_, _, Machine.exec_observe_run (by decide +kernel), ?_⟩
    exact ⟨by decide +kernel, by decide +kernel, by decide +kernel, by decide +kernel,
      _, (Option.some_get (by decide +kernel)).symm, by decide +kernel, by decide +kernel⟩
  | succ n ih =>
    obtain ⟨s, os, hr, hs⟩ := ih (by omega)
    obtain ⟨t, ps, hstep, ht⟩ := dotted_step hs (by omega)
    refine ⟨t, os ++ ps, ?_, ht⟩
    rw [drawDots, List.replicate_succ', ← List.append_assoc, numbered_snoc]
    have hlen : (twoStart ++ List.replicate n (RoomInput.draw ⟨1⟩ (some dotFrame))).length =
        n + 3 := by
      simp [twoStart]
    rw [hlen]
    exact hr.snoc hstep

/-- A point with a number that no double can hold, as `JSON.parse` reads `1e999`. -/
def infiniteFrame : Json := .obj [(utf16 "points", .arr [.num .posInfinity])]

def pointsAreNull (strokes : List StrokeSegment) : List Bool :=
  strokes.flatMap fun stroke => stroke.points.map Json.isNull

/-- The drawer of the first round, in the intermission, was sent nothing of the dot; the buffer is
full after 3000 strokes; and the others are sent `null` for infinity. -/
theorem canvas_incomplete :
    (∃ s os page, Machine.Run plainClients (numbered (drawDots 1 ++ [.timer 0])) s os ∧
      s.1.room.drawerId ≠ some ⟨1⟩ ∧ s.page ⟨1⟩ = some page ∧
      page.strokes.length = 0 ∧ s.1.room.strokes.length = 1) ∧
    (∃ s os page, Machine.Run plainClients (numbered (drawDots 3001)) s os ∧
      s.1.room.drawerId ≠ some ⟨0⟩ ∧ s.page ⟨0⟩ = some page ∧
      page.strokes.length = 3001 ∧ s.1.room.strokes.length = 3000) ∧
    ∃ s os page, Machine.Run plainClients
        (numbered (twoStart ++ [.draw ⟨1⟩ (some infiniteFrame)])) s os ∧
      s.1.room.drawerId ≠ some ⟨0⟩ ∧ s.page ⟨0⟩ = some page ∧
      pointsAreNull page.strokes = [true] ∧ pointsAreNull s.1.room.strokes = [false] := by
  refine ⟨?_, ?_, ?_⟩
  · exact ⟨_, _, _, Machine.exec_observe_run (by decide +kernel), by decide +kernel,
      (Option.some_get (by decide +kernel)).symm, by decide +kernel, by decide +kernel⟩
  · obtain ⟨s, os, hr, hs⟩ := dotted_run 3001 (by norm_num)
    obtain ⟨ms, hms, hlast, hlen⟩ := hs.shown
    have hcopy := @reachable_copied plainRuntime _ _ s ⟨_, _, hr⟩ _ _ hms (fun _ => 0) {}
    have hroom := congrArg List.length (hcopy.buffered (by rw [hlast]; decide))
    rw [List.length_map, List.length_take, hlen] at hroom
    exact ⟨s, os, _, hr, by rw [hs.drawer]; decide, by rw [Clients.page, hms]; rfl, hlen, hroom⟩
  · exact ⟨_, _, _, Machine.exec_observe_run (by decide +kernel), by decide +kernel,
      (Option.some_get (by decide +kernel)).symm, by decide +kernel, by decide +kernel⟩

end GachaMind.Web
