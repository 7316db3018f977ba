import GachaMind.Web.Canvas

/-!
# Strokes that can be painted (apps/web/src/features/room/DrawCanvas.tsx)

`handleDraw` limits the number of points, the colour and the width of a stroke, and passes the
points on as they came. `paintSegment` reads `x` and `y` of every point.
-/

namespace GachaMind.Web
open GachaMind.Js GachaMind.Shared GachaMind.GameSession KeyedTable

/-! ### Painting -/

section
variable [Runtime]

def pointAt (point : Json) : Except JsError (JsNumber × JsNumber) := do
  let x ← toNumber (← getProp point (utf16 "x"))
  let y ← toNumber (← getProp point (utf16 "y"))
  return (x, y)

/-- The points of the path that `paintSegment` draws, before they are scaled to the canvas. -/
def paintSegment (segment : StrokeSegment) : Except JsError (List (JsNumber × JsNumber)) :=
  match segment.points with
  | [] => .error .typeError
  | points => points.mapM pointAt

end

/-! ### Strokes as the contract has them -/

/-- A number of a canvas coordinate, 0 to 1. -/
def isCoordinate : Option Json → Bool
  | some (.num (.finite q)) => decide (0 ≤ q) && decide (q ≤ 1)
  | _ => false

/-- A `Point`. -/
def onCanvas : Json → Bool
  | .obj fields =>
    isCoordinate (lookupField (utf16 "x") fields) && isCoordinate (lookupField (utf16 "y") fields)
  | _ => false

/-- A number from 1 to 48. -/
def isLineWidth : JsNumber → Bool
  | .finite q => decide (1 ≤ q) && decide (q ≤ 48)
  | _ => false

structure Paintable (s : StrokeSegment) : Prop where
  some_points : 1 ≤ s.points.length
  few_points : s.points.length ≤ MAX_STROKE_POINTS
  points : ∀ p ∈ s.points, onCanvas p = true
  color : s.color.length ≤ 32
  width : isLineWidth s.width = true

instance (s : StrokeSegment) : Decidable (Paintable s) :=
  decidable_of_iff (1 ≤ s.points.length ∧ s.points.length ≤ MAX_STROKE_POINTS ∧
      (∀ p ∈ s.points, onCanvas p = true) ∧ s.color.length ≤ 32 ∧ isLineWidth s.width = true)
    ⟨fun ⟨h1, h2, h3, h4, h5⟩ => ⟨h1, h2, h3, h4, h5⟩,
      fun ⟨h1, h2, h3, h4, h5⟩ => ⟨h1, h2, h3, h4, h5⟩⟩

theorem isCoordinate_num {v : Option Json} (h : isCoordinate v = true) :
    ∃ q, v = some (.num (.finite q)) ∧ 0 ≤ q ∧ q ≤ 1 := by
  unfold isCoordinate at h
  split at h
  · rename_i q
    obtain ⟨h0, h1⟩ := (Bool.and_eq_true _ _).mp h
    exact ⟨q, rfl, of_decide_eq_true h0, of_decide_eq_true h1⟩
  · cases h

def InCanvas (at_ : JsNumber × JsNumber) : Prop :=
  ∃ x y : ℚ, at_ = (.finite x, .finite y) ∧ (0 ≤ x ∧ x ≤ 1) ∧ 0 ≤ y ∧ y ≤ 1

section
variable [Runtime]

theorem pointAt_onCanvas {p : Json} (h : onCanvas p = true) :
    ∃ q, pointAt p = .ok q ∧ InCanvas q := by
  unfold onCanvas at h
  split at h
  · rename_i fields
    obtain ⟨hx, hy⟩ := (Bool.and_eq_true _ _).mp h
    obtain ⟨x, hx, xbounds⟩ := isCoordinate_num hx
    obtain ⟨y, hy, ybounds⟩ := isCoordinate_num hy
    refine ⟨(.finite x, .finite y), ?_, x, y, rfl, xbounds, ybounds⟩
    simp only [pointAt, getProp, Json.isNull, Json.field, hx, hy]
    rfl
  · cases h

theorem mapM_pointAt {ps : List Json} (h : ∀ p ∈ ps, onCanvas p = true) :
    ∃ path, ps.mapM pointAt = .ok path ∧ path.length = ps.length ∧ ∀ q ∈ path, InCanvas q := by
  induction ps with
  | nil => exact ⟨[], rfl, rfl, fun q hq => absurd hq List.not_mem_nil⟩
  | cons p ps ih =>
    obtain ⟨q, hp, hq⟩ := pointAt_onCanvas (h p List.mem_cons_self)
    obtain ⟨path, hpath, hlen, hall⟩ := ih fun r hr => h r (List.mem_cons_of_mem _ hr)
    refine ⟨q :: path, ?_, by rw [List.length_cons, List.length_cons, hlen],
      List.forall_mem_cons.mpr ⟨hq, hall⟩⟩
    rw [List.mapM_cons, hp, hpath]
    rfl

/-- Every client paints such a stroke, all of it inside the canvas. -/
theorem paintSegment_paintable {s : StrokeSegment} (h : Paintable s) :
    ∃ path, paintSegment s = .ok path ∧ path.length = s.points.length ∧
      ∀ q ∈ path, InCanvas q := by
  obtain ⟨path, hpath, hrest⟩ := mapM_pointAt h.points
  refine ⟨path, ?_, hrest⟩
  unfold paintSegment
  split
  · rename_i hnil
    have hsome := h.some_points
    rw [hnil] at hsome
    cases hsome
  · exact hpath

end

/-! ### What handleDraw makes of a frame -/

theorem clamp_bounds {n : JsNumber} {lo hi : ℚ} (hle : lo ≤ hi) (hn : n ≠ .nan) :
    ∃ q : ℚ, n.clamp lo hi = .finite q ∧ lo ≤ q ∧ q ≤ hi := by
  cases n with
  | nan => exact absurd rfl hn
  | posInfinity => exact ⟨_, rfl, le_min (hle.trans (le_max_right _ _)) hle, min_le_right _ _⟩
  | negInfinity => exact ⟨_, rfl, le_min le_rfl hle, min_le_right _ _⟩
  | finite q => exact ⟨_, rfl, le_min (le_max_right _ _) hle, min_le_right _ _⟩

theorem clamp_isLineWidth {n : JsNumber} (hn : n ≠ .nan) : isLineWidth (n.clamp 1 48) = true := by
  obtain ⟨q, hq, h1, h48⟩ := clamp_bounds (by norm_num : (1 : ℚ) ≤ 48) hn
  rw [hq, isLineWidth, decide_eq_true h1, decide_eq_true h48]
  rfl

theorem or_ne_nan {n m : JsNumber} (hm : m ≠ .nan) : n.or m ≠ .nan := by
  cases n with
  | nan => exact hm
  | finite q =>
    simp only [JsNumber.or]
    split_ifs
    · exact hm
    · exact fun h => by cases h
  | posInfinity => exact fun h => by cases h
  | negInfinity => exact fun h => by cases h

section
variable [Runtime]

/-- Of a stroke that passes `handleDraw`, only the points can keep it from being painted. -/
theorem sanitizeStroke_paintable {stroke : Option Json} {sanitized : StrokeSegment}
    (h : sanitizeStroke stroke = .ok sanitized) (hne : strokePoints stroke ≠ []) :
    Paintable sanitized ↔
      ∀ p ∈ (strokePoints stroke).take MAX_STROKE_POINTS, onCanvas p = true := by
  obtain ⟨color, -, h⟩ := bind_eq_ok.mp h
  obtain ⟨width, -, h⟩ := bind_eq_ok.mp h
  obtain rfl := Except.ok.inj h
  refine ⟨fun hp => hp.points, fun hp => ⟨?_, ?_, hp, ?_, ?_⟩⟩
  · have hpos := List.length_pos_of_ne_nil hne
    rw [List.length_take]
    exact le_min (by decide) hpos
  · exact List.length_take_le _ _
  · exact List.length_take_le _ _
  · exact clamp_isLineWidth (or_ne_nan fun h => by cases h)

end

/-! ### The strokes of a step -/

def messageStrokes : ServerToClientMessage → List StrokeSegment
  | .draw stroke => [stroke]
  | .roomState m => m.strokes
  | _ => []

/-- The strokes that an effect shows to players of the room. -/
def effectStrokes : Effect → List StrokeSegment
  | .broadcast message _ => messageStrokes message
  | .send _ message => messageStrokes message
  | _ => []

def shownStrokes (os : List Effect) : List StrokeSegment := os.flatMap effectStrokes

theorem shownStrokes_append (os ps : List Effect) :
    shownStrokes (os ++ ps) = shownStrokes os ++ shownStrokes ps :=
  List.flatMap_append

theorem shownStrokes_cons (e : Effect) (os : List Effect) :
    shownStrokes (e :: os) = effectStrokes e ++ shownStrokes os :=
  List.flatMap_cons

theorem shownStrokes_aside {os : List Effect} (h : ∀ e ∈ os, e.Aside) : shownStrokes os = [] := by
  refine List.flatMap_eq_nil_iff.mpr fun e he => ?_
  have haside := h e he
  cases e with
  | broadcast message _ => cases message <;> first | rfl | exact haside.elim
  | send _ _ => exact haside.elim
  | _ => rfl

theorem shownStrokes_send {env : Env} {room : Room} {id : Uuid} {message : ServerToClientMessage} :
    ∀ st ∈ shownStrokes (room.send env id message), st ∈ messageStrokes message := by
  intro st hst
  obtain ⟨e, he, hst⟩ := List.mem_flatMap.mp hst
  unfold Room.send at he
  split at he
  · cases he
  · split_ifs at he
    · rw [List.mem_singleton.mp he] at hst
      exact hst
    · cases he

theorem shownStrokes_send_nil {env : Env} {room : Room} {id : Uuid}
    {message : ServerToClientMessage} (h : messageStrokes message = []) :
    shownStrokes (room.send env id message) = [] := by
  refine List.eq_nil_iff_forall_not_mem.mpr fun st hst => ?_
  have hmem := shownStrokes_send st hst
  rw [h] at hmem
  cases hmem

theorem shownStrokes_openEffects (env : Env) (room : Room) (drawer : Player) :
    shownStrokes (room.openEffects env drawer) = [] := by
  rw [Room.openEffects, shownStrokes_cons, shownStrokes_cons, shownStrokes_send_nil rfl]
  rfl

theorem shownStrokes_leaving (env : Env) (room : Room) (id : Uuid) {notices : List Effect}
    (h : ∀ e ∈ notices, e.Aside) :
    shownStrokes (room.leaveEffects env id ++ notices) = [] := by
  rw [shownStrokes_append, shownStrokes_aside h]
  rfl

/-- A step other than a stroke of the drawer shows and keeps only strokes of the buffer. -/
theorem transition_repeats {env : Env} {room t : Room} {input : RoomInput} {os : List Effect}
    (hs : Transition env room input t os) (hd : ∀ id raw, input ≠ .draw id raw) :
    (∀ st ∈ t.strokes, st ∈ room.strokes) ∧ ∀ st ∈ shownStrokes os, st ∈ room.strokes := by
  have hnone : ∀ {os : List Effect}, shownStrokes os = [] →
      ∀ st ∈ shownStrokes os, st ∈ room.strokes := by
    intro os h st hst
    rw [h] at hst
    cases hst
  cases hs with
  | aside _ ho => exact ⟨fun _ h => h, hnone (shownStrokes_aside ho)⟩
  | draw _ _ _ => exact absurd rfl (hd _ _)
  | drawClear _ _ => exact ⟨fun _ h => (by cases h), hnone rfl⟩
  | @join socket identity nickname _ =>
    have hkept : (seatPlayer room (joiningPlayer env socket identity nickname)).strokes =
        room.strokes := by
      rw [Room.seatPlayer_eq]
    refine ⟨fun st h => hkept ▸ h, fun st hst => ?_⟩
    rw [shownStrokes_cons, welcome, shownStrokes_append] at hst
    rcases List.mem_append.mp hst with hst | hst
    · cases hst
    · rcases List.mem_append.mp hst with hst | hst
      · exact hkept ▸ shownStrokes_send st hst
      · cases hst
  | start _ _ _ _ =>
    refine ⟨fun _ h => (by cases h), hnone ?_⟩
    rw [shownStrokes_cons, shownStrokes_cons, shownStrokes_openEffects]
    rfl
  | guess _ _ _ _ _ => exact ⟨fun _ h => h, hnone rfl⟩
  | lastGuess _ _ _ _ _ => exact ⟨fun _ h => h, hnone rfl⟩
  | timeUp _ _ => exact ⟨fun _ h => h, hnone rfl⟩
  | nextRound _ _ _ _ => exact ⟨fun _ h => (by cases h), hnone (shownStrokes_openEffects ..)⟩
  | gameOver _ _ _ _ => exact ⟨fun _ h => h, hnone rfl⟩
  | leave _ => exact ⟨fun _ h => h, hnone rfl⟩
  | leaveGame _ _ _ ho =>
    refine ⟨fun _ h => h, hnone ?_⟩
    rw [shownStrokes_append, shownStrokes_leaving _ _ _ ho]
    rfl
  | leaveRound _ _ ho =>
    refine ⟨fun _ h => h, hnone ?_⟩
    rw [shownStrokes_append, shownStrokes_leaving _ _ _ ho]
    rfl
  | leaveSolved _ _ _ => exact ⟨fun _ h => h, hnone rfl⟩

/-! ### Runs -/

/-- The points that `handleDraw` takes of an accepted frame are points of the canvas. -/
def DrawsOnCanvas (room : Room) : RoomInput → Prop
  | .draw id raw => room.phase = .playing → room.drawerId = some id →
    ∀ p ∈ (strokePoints raw).take MAX_STROKE_POINTS, onCanvas p = true
  | _ => True

instance (room : Room) : ∀ input, Decidable (DrawsOnCanvas room input)
  | .draw id raw => inferInstanceAs (Decidable (room.phase = .playing → room.drawerId = some id →
      ∀ p ∈ (strokePoints raw).take MAX_STROKE_POINTS, onCanvas p = true))
  | .join _ _ _ | .leave _ | .chat _ _ | .drawClear _ | .startGame | .timer _ =>
    inferInstanceAs (Decidable True)

section
variable [Runtime]

theorem handleDraw_cases_of {env : Env} {room t : Room} {id : Uuid} {raw : Option Json}
    {os : List Effect} (h : handleDraw env room id raw = .ok (t, os)) :
    (t = room ∧ os = [] ∧ DrawsOnCanvas room (.draw id raw)) ∨
    ∃ st, room.phase = .playing ∧ room.drawerId = some id ∧ strokePoints raw ≠ [] ∧
      sanitizeStroke raw = .ok st ∧ t = room.addStroke st ∧
      os = [(room.addStroke st).broadcast env (.draw st) (some id)] := by
  unfold handleDraw at h
  split_ifs at h with hg hnil
  · obtain ⟨rfl, rfl⟩ := Prod.mk.inj (Except.ok.inj h)
    refine .inl ⟨rfl, rfl, fun hp hd => ?_⟩
    rcases hg with hg | hg
    · exact absurd hp hg
    · exact absurd hd hg
  · obtain ⟨rfl, rfl⟩ := Prod.mk.inj (Except.ok.inj h)
    refine .inl ⟨rfl, rfl, fun _ _ p hp => ?_⟩
    rw [hnil] at hp
    cases hp
  · obtain ⟨st, hst, h⟩ := bind_eq_ok.mp h
    obtain ⟨rfl, rfl⟩ := Prod.mk.inj (Except.ok.inj h)
    push Not at hg
    exact .inr ⟨st, hg.1, hg.2, hnil, hst, rfl, rfl⟩

/-- A step shows and keeps only strokes of the buffer, or adds the stroke of an accepted frame. -/
theorem roomStep_strokes {env : Env} {room t : Room} {input : RoomInput} {os : List Effect}
    (h : room.Coherent) (hs : roomStep env room input = some (t, os)) :
    (DrawsOnCanvas room input ∧ (∀ st ∈ t.strokes, st ∈ room.strokes) ∧
      ∀ st ∈ shownStrokes os, st ∈ room.strokes) ∨
    ∃ st, t = room.addStroke st ∧ shownStrokes os = [st] ∧
      (Paintable st ↔ DrawsOnCanvas room input) := by
  cases input with
  | draw id raw =>
    rcases handleDraw_cases_of (toOption_eq_some hs) with ⟨hsame, hos, hgood⟩ |
        ⟨st, hp, hd, hne, hst, ht, hos⟩
    · rw [hsame, hos]
      exact .inl ⟨hgood, fun _ h => h, fun _ h => by cases h⟩
    · rw [hos]
      refine .inr ⟨st, ht, rfl, (sanitizeStroke_paintable hst hne).trans ?_⟩
      exact ⟨fun hall _ _ => hall, fun hall => hall hp hd⟩
  | join socket identity nickname => exact .inl ⟨trivial, transition_repeats
      (roomStep_transition h hs) fun _ _ he => by cases he⟩
  | leave id => exact .inl ⟨trivial, transition_repeats (roomStep_transition h hs)
      fun _ _ he => by cases he⟩
  | chat id text => exact .inl ⟨trivial, transition_repeats (roomStep_transition h hs)
      fun _ _ he => by cases he⟩
  | drawClear id => exact .inl ⟨trivial, transition_repeats (roomStep_transition h hs)
      fun _ _ he => by cases he⟩
  | startGame => exact .inl ⟨trivial, transition_repeats (roomStep_transition h hs)
      fun _ _ he => by cases he⟩
  | timer id => exact .inl ⟨trivial, transition_repeats (roomStep_transition h hs)
      fun _ _ he => by cases he⟩

/-- What has been stored has been shown, and it can all be painted where every accepted frame had
its points on the canvas. -/
structure Painted (s : RoomState) (good : Bool) (os : List Effect) : Prop where
  stored : ∀ st ∈ s.room.strokes, st ∈ shownStrokes os
  shown : good = true ↔ ∀ st ∈ shownStrokes os, Paintable st

theorem Painted.step {s t : RoomState} {good : Bool} {i : Env × RoomInput} {os ps : List Effect}
    (hcoherent : s.room.Coherent) (hstep : roomStep i.1 s.room i.2 = some (t.room, ps))
    (h : Painted s good os) :
    Painted t (good && decide (DrawsOnCanvas s.room i.2)) (os ++ ps) := by
  have hgood : (good && decide (DrawsOnCanvas s.room i.2)) = true ↔
      good = true ∧ DrawsOnCanvas s.room i.2 := by
    rw [Bool.and_eq_true, decide_eq_true_eq]
  rcases roomStep_strokes hcoherent hstep with ⟨hd, hkept, hshown⟩ | ⟨st, ht, hps, hpaint⟩
  · refine ⟨fun st hst => ?_, ?_⟩
    · rw [shownStrokes_append]
      exact List.mem_append_left _ (h.stored st (hkept st hst))
    · rw [hgood, and_iff_left hd, h.shown, shownStrokes_append, List.forall_mem_append]
      refine ⟨fun hall => ⟨hall, fun st hst => ?_⟩, fun hall => hall.1⟩
      exact hall st (h.stored st (hshown st hst))
  · refine ⟨fun x hx => ?_, ?_⟩
    · rw [shownStrokes_append, hps]
      rw [ht] at hx
      unfold Room.addStroke at hx
      split_ifs at hx with hfull
      · exact List.mem_append_left _ (h.stored x hx)
      · rcases List.mem_append.mp hx with hx | hx
        · exact List.mem_append_left _ (h.stored x hx)
        · exact List.mem_append_right _ hx
    · rw [hgood, h.shown, shownStrokes_append, List.forall_mem_append, hps,
        List.forall_mem_singleton, hpaint]

/-- The room with a record of whether every accepted frame had its points on the canvas. -/
def paintSystem (id : RoomId) (capacity : ℕ) :
    Machine.System (RoomState × Bool) (Env × RoomInput) Effect :=
  (roomSystem id capacity).observe true fun good s i _ _ =>
    good && decide (DrawsOnCanvas s.room i.2)

theorem run_painted {id : RoomId} {capacity : ℕ} {is : List (Env × RoomInput)}
    {s : RoomState × Bool} {os : List Effect}
    (hr : Machine.Run (paintSystem id capacity) is s os) : Painted s.1 s.2 os := by
  induction hr with
  | nil h =>
    obtain ⟨hstart, hgood⟩ := h
    rw [hgood, hstart]
    exact ⟨fun st hst => (by cases hst), iff_of_true rfl fun st hst => by cases hst⟩
  | snoc hr h ih =>
    obtain ⟨hstep, hgood⟩ := h
    rw [hgood]
    have hinv := reachable_inv (Machine.Reachable.of_observe ⟨_, _, hr⟩)
    exact ih.step hinv.coherent (roomSystem_step hstep).2.1

/-- Over every run: all strokes stored and shown can be painted exactly where the points of every
accepted frame were on the canvas. The buffer never holds too many. -/
theorem strokes_paintable_iff (id : RoomId) (capacity : ℕ) (is : List (Env × RoomInput))
    (s : RoomState × Bool) (os : List Effect)
    (hr : Machine.Run (paintSystem id capacity) is s os) :
    (((∀ st ∈ s.1.room.strokes, Paintable st) ∧ ∀ st ∈ shownStrokes os, Paintable st) ↔
      s.2 = true) ∧ s.1.room.strokes.length ≤ MAX_BUFFERED_STROKES := by
  have hpainted := run_painted hr
  refine ⟨?_, reachable_buffer (Machine.Reachable.of_observe ⟨_, _, hr⟩)⟩
  rw [hpainted.shown]
  exact ⟨fun h => h.2, fun h => ⟨fun st hst => h st (hpainted.stored st hst), h⟩⟩

end

def middleFrame : Json :=
  .obj [(utf16 "points",
    .arr [.obj [(utf16 "x", .num (.finite (1 / 2))), (utf16 "y", .num (.finite (1 / 2)))]])]

abbrev plainPaint : Machine.System (RoomState × Bool) (Env × RoomInput) Effect :=
  @paintSystem plainRuntime (utf16 "AB3DE") DEFAULT_ROOM_CAPACITY

theorem strokes_paintable_middle : ∃ s os,
    Machine.Run plainPaint (numbered (twoStart ++ [.draw ⟨1⟩ (some middleFrame)])) s os ∧
      s.2 = true ∧ s.1.room.strokes.length = 1 ∧
      ((((∀ st ∈ s.1.room.strokes, Paintable st) ∧ ∀ st ∈ shownStrokes os, Paintable st) ↔
        s.2 = true) ∧ s.1.room.strokes.length ≤ MAX_BUFFERED_STROKES) :=
  ⟨_, _, Machine.exec_observe_run (by decide +kernel), by decide +kernel, by decide +kernel,
    @strokes_paintable_iff plainRuntime _ _ _ _ _ (Machine.exec_observe_run (by decide +kernel))⟩

/-- A point that is `null` is stored and shown, and every page that paints it throws. -/
theorem null_point_stored : ∃ s os,
    Machine.Run plainPaint (numbered (twoStart ++ [.draw ⟨1⟩ (some dotFrame)])) s os ∧
      (∃ st ∈ s.1.room.strokes, ¬ Paintable st) ∧
      ∃ st ∈ shownStrokes os, ¬ Paintable st ∧
        (@paintSegment plainRuntime st).toOption = none :=
  ⟨_, _, Machine.exec_observe_run (by decide +kernel), by decide +kernel, by decide +kernel⟩

end GachaMind.Web
