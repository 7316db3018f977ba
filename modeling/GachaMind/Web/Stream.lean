import GachaMind.Web.Countdown

/-!
# The messages of one player

What a player is sent of the drawing, message by message: never a stroke while it draws itself,
and an empty canvas before every round.
-/

namespace GachaMind.Web
open GachaMind.Js GachaMind.Shared GachaMind.GameSession KeyedTable Replica

inductive Mode where
  | away
  | cleared
  | drawing
  deriving DecidableEq

/-- Where the page of `p` is after a message; `none` if the room never sends it there. -/
def Mode.after (p : Uuid) : Mode → ServerToClientMessage → Option Mode
  | .drawing, .roomState _ => none
  | .drawing, .roundStarted _ => none
  | .drawing, .draw _ => none
  | .drawing, .drawClear => none
  | .drawing, .roundEnded _ _ _ => some .away
  | .drawing, .gameEnded _ => some .away
  | .drawing, _ => some .drawing
  | .away, .roundStarted _ => none
  | .cleared, .roundStarted m => some (if m.drawerId = p then .drawing else .away)
  | _, .roomState m => if m.drawerId = some p then none else some .away
  | _, .draw _ => some .away
  | _, .drawClear => some .cleared
  | mode, _ => some mode

def Mode.run (p : Uuid) (mode : Mode) (ms : List ServerToClientMessage) : Option Mode :=
  ms.foldlM (Mode.after p) mode

theorem Mode.run_cons (p : Uuid) (mode : Mode) (m : ServerToClientMessage)
    (ms : List ServerToClientMessage) :
    mode.run p (m :: ms) = (mode.after p m).bind fun next => next.run p ms := rfl

theorem Mode.run_append (p : Uuid) (mode : Mode) (ms ns : List ServerToClientMessage) :
    mode.run p (ms ++ ns) = (mode.run p ms).bind fun next => next.run p ns :=
  List.foldlM_append

theorem Mode.run_aside (p : Uuid) (mode : Mode) {ms : List ServerToClientMessage}
    (h : ∀ m ∈ ms, IsAside m) : mode.run p ms = some mode := by
  induction ms with
  | nil => rfl
  | cons m ms ih =>
    have hm : mode.after p m = some mode := by
      have haside := h m List.mem_cons_self
      cases m <;> first | exact haside.elim | cases mode <;> rfl
    rw [Mode.run_cons, hm]
    exact ih fun n hn => h n (List.mem_cons_of_mem m hn)

/-! ### Openings -/

def isOpening : ServerToClientMessage → Bool
  | .roomState _ => true
  | .roundStarted _ => true
  | _ => false

def openingCount (ms : List ServerToClientMessage) : ℕ := ms.countP isOpening

theorem openingCount_eq_zero {ms : List ServerToClientMessage} :
    openingCount ms = 0 ↔ ∀ m ∈ ms, isOpening m = false := by
  simp [openingCount, List.countP_eq_zero]

theorem Mode.after_idle {p : Uuid} {mode mid : Mode} {m : ServerToClientMessage}
    (hm : mode ≠ .drawing) (h : mode.after p m = some mid) (hno : isOpening m = false) :
    mid ≠ .drawing := by
  rintro rfl
  cases mode with
  | drawing => exact hm rfl
  | away => cases m <;> first | cases h | cases hno
  | cleared => cases m <;> first | cases h | cases hno

/-- Only an opening makes a player the drawer. -/
theorem Mode.run_idle {p : Uuid} {mode next : Mode} {ms : List ServerToClientMessage}
    (hm : mode ≠ .drawing) (h : mode.run p ms = some next)
    (hno : ∀ m ∈ ms, isOpening m = false) : next ≠ .drawing := by
  induction ms generalizing mode with
  | nil =>
    cases h
    exact hm
  | cons m ms ih =>
    obtain ⟨mid, hmid, hrest⟩ := Option.bind_eq_some_iff.mp h
    have hnext := Mode.after_idle hm hmid (hno m List.mem_cons_self)
    exact ih hnext hrest fun n hn => hno n (List.mem_cons_of_mem m hn)

/-- While a player draws, nothing is sent to it that touches its strokes. -/
theorem strokes_drawing {p : Uuid} {ms : List ServerToClientMessage}
    (h : Mode.drawing.run p ms = some .drawing) (hno : ∀ m ∈ ms, isOpening m = false)
    (strokes : List StrokeSegment) : ms.foldl strokesAfter strokes = strokes := by
  induction ms with
  | nil => rfl
  | cons m ms ih =>
    obtain ⟨mid, hmid, hrest⟩ := Option.bind_eq_some_iff.mp h
    have htail : ∀ n ∈ ms, isOpening n = false := fun n hn => hno n (List.mem_cons_of_mem m hn)
    have hd : mid = .drawing := by
      by_contra hne
      exact Mode.run_idle hne hrest htail rfl
    subst hd
    have hm : strokesAfter strokes m = strokes := by
      cases m <;> first | rfl | cases hmid
    rw [List.foldl_cons, hm]
    exact ih hrest htail

/-- One message of a canvas that is not empty: it does not open a round, or shows a room. -/
theorem strokes_step {p : Uuid} {mode mid : Mode} {m : ServerToClientMessage}
    (hm : mode ≠ .cleared) (h : mode.after p m = some mid) :
    (∀ xs ys, strokesAfter xs m = strokesAfter ys m) ∨ mid ≠ .cleared ∧ isOpening m = false := by
  cases mode with
  | cleared => exact absurd rfl hm
  | drawing =>
    cases m <;> first
      | (cases h; exact .inr ⟨by decide, rfl⟩)
      | cases h
  | away =>
    cases m <;> first
      | exact .inl fun _ _ => rfl
      | (cases h; exact .inr ⟨by decide, rfl⟩)
      | cases h

/-- Before the next round is opened, the canvas is emptied. -/
theorem strokes_reopened {p : Uuid} {mode next : Mode} {ms : List ServerToClientMessage}
    (hm : mode ≠ .cleared) (h : mode.run p ms = some next) (ho : openingCount ms ≠ 0)
    (xs ys : List StrokeSegment) : ms.foldl strokesAfter xs = ms.foldl strokesAfter ys := by
  induction ms generalizing mode xs ys with
  | nil => exact absurd rfl ho
  | cons m ms ih =>
    obtain ⟨mid, hmid, hrest⟩ := Option.bind_eq_some_iff.mp h
    rw [List.foldl_cons, List.foldl_cons]
    rcases strokes_step hm hmid with hsame | ⟨hmid, hno⟩
    · rw [hsame xs ys]
    · refine ih hmid hrest ?_ _ _
      rwa [openingCount, List.countP_cons_of_neg (by simp [hno])] at ho

/-! ### The drawer on the page -/

def drawerIdAfter (drawerId : Option Uuid) : ServerToClientMessage → Option Uuid
  | .roomState m => m.drawerId
  | .roundStarted m => some m.drawerId
  | .roundEnded _ _ _ => none
  | .gameEnded _ => none
  | _ => drawerId

theorem onmessage_drawerId (c : RoomSocket) (now : ℤ) (m : ServerToClientMessage) :
    (c.onmessage now m).game.drawerId = drawerIdAfter c.game.drawerId m := by
  cases m <;> simp only [RoomSocket.onmessage, drawerIdAfter, RoomSocket.pushFeed_game]

theorem Mode.after_drawer {p : Uuid} {mode mid : Mode} {m : ServerToClientMessage}
    {drawerId : Option Uuid} (h : mode.after p m = some mid)
    (hd : drawerId = some p ↔ mode = .drawing) :
    drawerIdAfter drawerId m = some p ↔ mid = .drawing := by
  cases mode with
  | drawing =>
    cases m <;> first
      | (cases h; exact hd)
      | (cases h; simp [drawerIdAfter])
      | cases h
  | away =>
    cases m with
    | roomState m =>
      simp only [Mode.after] at h
      split_ifs at h with he
      cases h
      simpa [drawerIdAfter] using he
    | _ =>
      first
      | (cases h; exact hd)
      | (cases h; simp [drawerIdAfter, hd])
      | cases h
  | cleared =>
    cases m with
    | roomState m =>
      simp only [Mode.after] at h
      split_ifs at h with he
      cases h
      simpa [drawerIdAfter] using he
    | roundStarted m =>
      cases h
      by_cases he : m.drawerId = p <;> simp [drawerIdAfter, he]
    | _ =>
      first
      | (cases h; exact hd)
      | (cases h; simp [drawerIdAfter, hd])

theorem Mode.run_drawer {p : Uuid} {mode next : Mode} {ms : List ServerToClientMessage}
    {drawerId : Option Uuid} (h : mode.run p ms = some next)
    (hd : drawerId = some p ↔ mode = .drawing) :
    ms.foldl drawerIdAfter drawerId = some p ↔ next = .drawing := by
  induction ms generalizing mode drawerId with
  | nil =>
    cases h
    exact hd
  | cons m ms ih =>
    obtain ⟨mid, hmid, hrest⟩ := Option.bind_eq_some_iff.mp h
    exact ih hrest (Mode.after_drawer hmid hd)

/-! ### What the room sends -/

theorem mode_opened {env : Env} {room : Room} {drawer : Player} {p : Uuid} {mode : Mode}
    (hm : mode ≠ .drawing) :
    ∃ next, mode.run p [.drawClear, .roundStarted (toldTo env room drawer p)] = some next ∧
      ((room.openRound env drawer).drawerId = some p ↔ next = .drawing) := by
  obtain ⟨word, hw⟩ := toldTo_word env room drawer p
  have hclear : mode.after p .drawClear = some .cleared := by
    cases mode <;> first | rfl | exact absurd rfl hm
  refine ⟨if drawer.id = p then .drawing else .away, ?_, ?_⟩
  · rw [Mode.run_cons, hclear, hw]
    rfl
  · have hd : (room.openRound env drawer).drawerId = some drawer.id := rfl
    rw [hd, Option.some.injEq]
    by_cases he : drawer.id = p <;> simp [he]

def IsClosing : ServerToClientMessage → Prop
  | .roundEnded _ _ _ => True
  | .gameEnded _ => True
  | _ => False

theorem run_closed {p : Uuid} {mode : Mode} {ms : List ServerToClientMessage}
    {m : ServerToClientMessage} {t : Room} (hms : mode.run p ms = some mode) (hm : IsClosing m)
    (ht : t.drawerId = none) :
    ∃ next, mode.run p (ms ++ [m]) = some next ∧ (t.drawerId = some p ↔ next = .drawing) := by
  have hclosed : ∃ next, mode.after p m = some next ∧ next ≠ .drawing := by
    cases m with
    | roundEnded _ _ _ => cases mode <;> exact ⟨_, rfl, by decide⟩
    | gameEnded _ => cases mode <;> exact ⟨_, rfl, by decide⟩
    | _ => exact hm.elim
  obtain ⟨next, hnext, hne⟩ := hclosed
  refine ⟨next, ?_, by simp [ht, hne]⟩
  rw [Mode.run_append, hms, Option.bind_some, Mode.run_cons, hnext]
  rfl

theorem mode_draw {p : Uuid} {mode : Mode} (hm : mode ≠ .drawing) (stroke : StrokeSegment) :
    mode.after p (.draw stroke) = some .away := by
  cases mode <;> first | rfl | exact absurd rfl hm

theorem mode_drawClear {p : Uuid} {mode : Mode} (hm : mode ≠ .drawing) :
    mode.after p .drawClear = some .cleared := by
  cases mode <;> first | rfl | exact absurd rfl hm

theorem run_arrival {p : Uuid} (mode : Mode) {m : ServerToClientMessage}
    {ms : List ServerToClientMessage} (hm : mode.after p m = some mode) (h : ∀ m ∈ ms, IsAside m) :
    mode.run p (m :: ms) = some mode := by
  rw [Mode.run_cons, hm]
  exact Mode.run_aside p mode h

theorem mode_heard {env : Env} {room t : Room} {p : Uuid} {input : RoomInput}
    {ms : List ServerToClientMessage} {ks : List GameMark} {mode : Mode} (hc : room.Coherent)
    (hs : Heard env room p input t ms ks) (hd : room.drawerId = some p ↔ mode = .drawing) :
    ∃ next, mode.run p ms = some next ∧ (t.drawerId = some p ↔ next = .drawing) := by
  have hidle : room.drawerId ≠ some p → mode ≠ .drawing := fun hne hm => hne (hd.mpr hm)
  cases hs with
  | aside hms => exact ⟨mode, Mode.run_aside p mode hms, hd⟩
  | @draw d _ stroke hdr =>
    obtain ⟨-, hdrawer, -⟩ := room.addStroke_frame stroke
    rw [hdrawer]
    split_ifs with he
    · exact ⟨mode, rfl, hd⟩
    · have hne : room.drawerId ≠ some p := by simpa [hdr] using he
      refine ⟨.away, ?_, by simp [hne]⟩
      rw [Mode.run_cons, mode_draw (hidle hne)]
      rfl
  | @drawClear d hdr =>
    have hdrawer : room.clearStrokes.drawerId = room.drawerId := rfl
    rw [hdrawer]
    split_ifs with he
    · exact ⟨mode, rfl, hd⟩
    · have hne : room.drawerId ≠ some p := by simpa [hdr] using he
      refine ⟨.cleared, ?_, by simp [hne]⟩
      rw [Mode.run_cons, mode_drawClear (hidle hne)]
      rfl
  | join _ _ _ hms =>
    rw [Room.seatPlayer_eq]
    exact ⟨mode, run_arrival mode (by cases mode <;> rfl) hms, hd⟩
  | start hp _ =>
    have hne : room.drawerId ≠ some p := fun h => hp (hc.consistent.drawing p h).1
    obtain ⟨next, hrun, hnext⟩ := @mode_opened env (room.beginGame env) _ _ _ (hidle hne)
    refine ⟨next, ?_, hnext⟩
    have hstarted : mode.after p (.gameStarted (room.beginGame env).totalRounds) = some mode := by
      cases mode <;> rfl
    rw [Mode.run_cons, hstarted]
    exact hrun
  | answer _ _ => exact ⟨mode, by cases mode <;> rfl, hd⟩
  | @lastAnswer solver _ _ _ _ _ =>
    have hanswer : ∀ players, mode.run p [.correctAnswer solver.id solver.nickname players] =
        some mode := by
      intro players
      cases mode <;> rfl
    exact run_closed (hanswer _) trivial rfl
  | close _ => exact @run_closed _ _ [] _ _ rfl trivial rfl
  | next hi =>
    have hne : room.drawerId ≠ some p := by simp [hi.drawerId]
    exact mode_opened (hidle hne)
  | finish _ => exact @run_closed _ _ [] _ _ rfl trivial rfl
  | leave hms => exact ⟨mode, run_arrival mode (by cases mode <;> rfl) hms, hd⟩
  | leaveGame _ hms => exact run_closed (run_arrival mode (by cases mode <;> rfl) hms) trivial rfl
  | leaveRound _ hms => exact run_closed (run_arrival mode (by cases mode <;> rfl) hms) trivial rfl

theorem heard_noState {env : Env} {room t : Room} {p : Uuid} {input : RoomInput}
    {ms : List ServerToClientMessage} {ks : List GameMark} (hs : Heard env room p input t ms ks)
    (m : RoomStateMessage) : .roomState m ∉ ms := by
  intro hm
  cases heard_timeSite hs _ hm

section
variable [Runtime] {id : RoomId} {capacity : ℕ}

/-- What a connected player was sent, and where it stands after that. -/
theorem reachable_stream {s : Clients} (hr : Machine.Reachable (clientSystem id capacity) s)
    {p : Uuid} {ms : List ServerToClientMessage} (hp : s.2 p = some ms) :
    (∃ mode, Mode.away.run p ms = some mode ∧
      (s.1.room.drawerId = some p ↔ mode = .drawing)) ∧
      ∀ m, .roomState m ∈ ms → m.you.id = p := by
  refine clients_rule (A := fun _ _ => True) (J := RoomState.Inv)
    (R := fun s p ms _ => (∃ mode, Mode.away.run p ms = some mode ∧
      (s.room.drawerId = some p ↔ mode = .drawing)) ∧ ∀ m, .roomState m ∈ ms → m.you.id = p)
    (fun _ hr => reachable_inv hr) ?_ ?_ (hr.to_restrict fun _ _ => trivial) hp (fun _ => 0) {}
  · intro env s t player ms clock page hi ht _ hnew _ hms
    have hne : t.room.drawerId ≠ some player.id := by
      intro h
      rw [ht, Room.seatPlayer_eq] at h
      exact hnew (hi.coherent.consistent.drawing _ h).2.1
    have hstate : Mode.away.after player.id (.roomState (snapshot env t.room player)) =
        some .away := if_neg hne
    refine ⟨⟨.away, run_arrival .away hstate hms, by simp [hne]⟩, fun m hm => ?_⟩
    rcases List.mem_cons.mp hm with hm | hm
    · cases hm
      rfl
    · exact (hms _ hm).elim
  · intro env input s inbox t p ns ms ks clock page hi _ _ _ hs hrel
    obtain ⟨⟨mode, hrun, hd⟩, hstates⟩ := hrel
    obtain ⟨next, hnext, hdrawer⟩ := mode_heard hi.coherent hs hd
    refine ⟨⟨next, ?_, hdrawer⟩, fun m hm => ?_⟩
    · rw [Mode.run_append, hrun]
      exact hnext
    · rcases List.mem_append.mp hm with hm | hm
      · exact hstates m hm
      · exact absurd hm (heard_noState hs m)

end

end GachaMind.Web
