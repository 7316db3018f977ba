import GachaMind.Web.Paint
import GachaMind.Web.Pen
import GachaMind.Web.Stream

/-!
# Drawing over slow connections

The drawer sees its strokes at once; the room sees them when they arrive, and the page hears of
rounds when their messages arrive. Both connections keep the order of what they carry and may be
slow. The page is rendered after every message.
-/

namespace GachaMind.Web
open GachaMind.Js GachaMind.Shared GachaMind.GameSession KeyedTable Replica

/-! ### What is sent of a stroke -/

inductive DrawMessage where
  | draw (stroke : StrokeSegment)
  | drawClear

/-- The `stroke` of the message that `sendStroke` stringifies. -/
def strokeJson (stroke : StrokeSegment) : Json :=
  .obj [(utf16 "points", .arr stroke.points), (utf16 "color", .str stroke.color),
    (utf16 "width", .num stroke.width)]

def DrawMessage.input (p : Uuid) : DrawMessage → RoomInput
  | .draw stroke => .draw p (some (serialized (strokeJson stroke)))
  | .drawClear => .drawClear p

/-- What the room makes of the message, and what it tells the others. -/
def DrawMessage.apply (room : Room) : DrawMessage → Room
  | .draw stroke => room.addStroke stroke
  | .drawClear => room.clearStrokes

def DrawMessage.message : DrawMessage → ServerToClientMessage
  | .draw stroke => .draw stroke
  | .drawClear => .drawClear

/-- What a message does to the strokes of whoever sees it. -/
def sentAfter (strokes : List StrokeSegment) : DrawMessage → List StrokeSegment
  | .draw stroke => strokes ++ [stroke]
  | .drawClear => []

/-- A stroke that the room takes as it is. -/
structure Sendable (stroke : StrokeSegment) : Prop where
  points_ne_nil : stroke.points ≠ []
  points_length : stroke.points.length ≤ MAX_STROKE_POINTS
  points_survive : itemsSurvive stroke.points = true
  color_length : stroke.color.length ≤ 32
  width : isLineWidth stroke.width = true

instance (stroke : StrokeSegment) : Decidable (Sendable stroke) :=
  decidable_of_iff (stroke.points ≠ [] ∧ stroke.points.length ≤ MAX_STROKE_POINTS ∧
      itemsSurvive stroke.points = true ∧ stroke.color.length ≤ 32 ∧
      isLineWidth stroke.width = true)
    ⟨fun ⟨h1, h2, h3, h4, h5⟩ => ⟨h1, h2, h3, h4, h5⟩,
      fun ⟨h1, h2, h3, h4, h5⟩ => ⟨h1, h2, h3, h4, h5⟩⟩

def COLORS : List JsString :=
  ["#171717", "#ef4444", "#f59e0b", "#10b981", "#3b82f6", "#8b5cf6", "#ffffff"].map utf16

def WIDTHS : List JsNumber := [3, 8, 18].map .finite

theorem sendable_of_style {style : PenStyle} (hc : style.color ∈ COLORS) (hw : style.width ∈ WIDTHS)
    {points : List Json} (hne : points ≠ []) (hl : points.length ≤ MAX_STROKE_POINTS)
    (hf : itemsSurvive points = true) :
    Sendable { points := points, color := style.color, width := style.width } where
  points_ne_nil := hne
  points_length := hl
  points_survive := hf
  color_length := by
    have hcolors : ∀ color ∈ COLORS, color.length ≤ 32 := by decide
    exact hcolors _ hc
  width := by
    have hwidths : ∀ width ∈ WIDTHS, isLineWidth width = true := by decide +kernel
    exact hwidths _ hw

/-- Every stroke of the pen is sendable, unless more points come in one frame than the room takes
of a message. -/
theorem handle_sendable {pen : Pen} (hc : pen.style.color ∈ COLORS)
    (hw : pen.style.width ∈ WIDTHS) (hl : pen.buffer.length ≤ MAX_STROKE_POINTS)
    (hf : itemsSurvive pen.buffer = true) (event : PenEvent) :
    ∀ stroke ∈ (pen.handle event).2, Sendable stroke := by
  intro stroke hs
  cases event with
  | pointerDown point =>
    simp only [Pen.handle, handlePointerDown] at hs
    split_ifs at hs <;> cases hs
  | pointerMove point =>
    simp only [Pen.handle, handlePointerMove] at hs
    split_ifs at hs <;> cases hs
  | pointerUp =>
    simp only [Pen.handle, handlePointerUp] at hs
    split_ifs at hs with _ hemit
    · rw [List.mem_singleton.mp hs]
      refine sendable_of_style hc hw (fun hnil => ?_) hl hf
      simp [hnil] at hemit
    · cases hs
    · cases hs
  | frame =>
    simp only [Pen.handle, flush] at hs
    split_ifs at hs with _ hshort
    · cases hs
    · rw [List.mem_singleton.mp hs]
      refine sendable_of_style hc hw (fun hnil => ?_) hl hf
      simp [hnil] at hshort
    · cases hs
  | canDraw canDraw => cases canDraw <;> cases hs
  | _ => cases hs

section
variable [Runtime]

omit [Runtime] in
theorem strokeField_strokeJson (stroke : StrokeSegment) :
    strokePoints (some (strokeJson stroke)) = stroke.points ∧
      strokeField (some (strokeJson stroke)) "color" = some (.str stroke.color) ∧
      strokeField (some (strokeJson stroke)) "width" = some (.num stroke.width) := by
  have hcolor : utf16 "points" ≠ utf16 "color" := by decide
  have hwidth : utf16 "points" ≠ utf16 "width" := by decide
  have hboth : utf16 "color" ≠ utf16 "width" := by decide
  simp [strokePoints, strokeField, strokeJson, lookupField, hcolor, hwidth, hboth]

omit [Runtime] in
theorem clamp_lineWidth {n : JsNumber} (h : isLineWidth n = true) :
    (n.or (.finite 4)).clamp 1 48 = n := by
  cases n with
  | finite q =>
    simp only [isLineWidth, Bool.and_eq_true, decide_eq_true_eq] at h
    have hq : q ≠ 0 := by linarith
    rw [JsNumber.or, if_neg hq, JsNumber.clamp, max_eq_left h.1, min_eq_left h.2]
  | _ => cases h

omit [Runtime] in
theorem Sendable.parsed {stroke : StrokeSegment} (h : Sendable stroke) :
    parsedStroke stroke = stroke := by
  rw [parsedStroke, serializedItems_of_survive h.points_survive]

omit [Runtime] in
theorem Sendable.serialized {stroke : StrokeSegment} (h : Sendable stroke) :
    serialized (strokeJson stroke) = strokeJson stroke := by
  have hwidth : stroke.width.isFinite = true := by
    have hw := h.width
    cases hn : stroke.width with
    | finite q => rfl
    | _ =>
      rw [hn] at hw
      cases hw
  apply serialized_of_survives
  simp [strokeJson, survives, fieldsSurvive, h.points_survive, hwidth]

theorem sanitizeStroke_sendable {stroke : StrokeSegment} (h : Sendable stroke) :
    sanitizeStroke (some (strokeJson stroke)) = .ok stroke := by
  obtain ⟨hpoints, hcolor, hwidth⟩ := strokeField_strokeJson stroke
  simp only [sanitizeStroke, strokeColor, hpoints, hcolor, hwidth, toStr, toNumber]
  have hclamp := clamp_lineWidth h.width
  have htake := List.take_of_length_le h.points_length
  have hslice : sliceTo stroke.color 32 = stroke.color := List.take_of_length_le h.color_length
  change Except.ok _ = _
  rw [hclamp, htake, hslice]

theorem roomStep_taken {env : Env} {room : Room} {p : Uuid} {m : DrawMessage} (hc : room.Coherent)
    (hd : room.drawerId = some p) (hm : ∀ stroke, m = .draw stroke → Sendable stroke) :
    roomStep env room (m.input p) =
      some (m.apply room, [(m.apply room).broadcast env m.message (some p)]) := by
  have hphase := (hc.consistent.drawing p hd).1
  have hguard : ¬ (room.phase ≠ .playing ∨ room.drawerId ≠ some p) := by simp [hphase, hd]
  cases m with
  | draw stroke =>
    have hsend := hm stroke rfl
    have hpoints : strokePoints (some (strokeJson stroke)) ≠ [] := by
      rw [(strokeField_strokeJson stroke).1]
      exact hsend.points_ne_nil
    have hdraw : handleDraw env room p (some (strokeJson stroke)) = .ok (room.addStroke stroke,
        [(room.addStroke stroke).broadcast env (.draw stroke) (some p)]) := by
      rw [handleDraw, if_neg hguard, if_neg hpoints, sanitizeStroke_sendable hsend]
      rfl
    change (handleDraw env room p (some (serialized (strokeJson stroke)))).toOption = _
    rw [hsend.serialized, hdraw]
    rfl
  | drawClear =>
    change some (handleDrawClear env room p) = _
    rw [handleDrawClear, if_neg hguard]
    rfl

theorem roomStep_refused (env : Env) {room : Room} {p : Uuid} (m : DrawMessage)
    (hd : room.drawerId ≠ some p) : roomStep env room (m.input p) = some (room, []) := by
  have hguard : room.phase ≠ .playing ∨ room.drawerId ≠ some p := .inr hd
  cases m with
  | draw stroke =>
    change (handleDraw env room p (some (serialized (strokeJson stroke)))).toOption = _
    rw [handleDraw, if_pos hguard]
    rfl
  | drawClear =>
    change some (handleDrawClear env room p) = _
    rw [handleDrawClear, if_pos hguard]

end

theorem apply_drawerId (room : Room) (m : DrawMessage) :
    (m.apply room).drawerId = room.drawerId := by
  cases m with
  | draw stroke => exact (room.addStroke_frame stroke).2.1
  | drawClear => rfl

theorem apply_buffered {room : Room} {strokes : List StrokeSegment} (h : Buffered room strokes)
    {m : DrawMessage} (hm : ∀ stroke, m = .draw stroke → Sendable stroke) :
    Buffered (m.apply room) (sentAfter strokes m) := by
  cases m with
  | draw stroke =>
    have hadded := h.addStroke stroke
    rwa [(hm stroke rfl).parsed] at hadded
  | drawClear => rfl

/-! ### The drawer's page and its connection -/

/-- The room with its players, the page of one player, how many messages it has handled and how
many of these opened a round or showed the room, and what it has sent. A message is marked with
the number of openings that the page knew of when it was sent. -/
structure Sketch where
  clients : Clients
  page : RoomSocket := {}
  handled : ℕ := 0
  openings : ℕ := 0
  outgoing : List (ℕ × DrawMessage) := []

inductive SketchInput where
  /-- Whatever else reaches the room. -/
  | room (env : Env) (input : RoomInput)
  | arrive (env : Env)
  | hear (now : ℤ)
  | sendStroke (stroke : StrokeSegment)
  | sendClear

def drawsAs (p : Uuid) : RoomInput → Bool
  | .draw playerId _ => decide (playerId = p)
  | .drawClear playerId => decide (playerId = p)
  | _ => false

section
variable [Runtime]

def stepClients (s : Clients) (i : Env × RoomInput) : Option (Clients × List Effect) :=
  Machine.observeStep stepRoomState roomFeed.deliver s i

def stepSketch (p : Uuid) (s : Sketch) : SketchInput → Option (Sketch × List Effect)
  | .room env input =>
    if drawsAs p input then none
    else (stepClients s.clients (env, input)).map fun r => ({ s with clients := r.1 }, r.2)
  | .arrive env =>
    match s.outgoing with
    | [] => none
    | (_, m) :: rest =>
      (stepClients s.clients (env, m.input p)).map fun r =>
        ({ s with clients := r.1, outgoing := rest }, r.2)
  | .hear now =>
    match (s.clients.2 p).bind fun ms => ms[s.handled]? with
    | none => none
    | some m =>
      some ({ s with
        page := s.page.onmessage now m
        handled := s.handled + 1
        openings := if isOpening m then s.openings + 1 else s.openings }, [])
  | .sendStroke stroke =>
    if s.page.canDraw then
      some ({ s with
        page := { s.page with strokes := s.page.strokes ++ [stroke] }
        outgoing := s.outgoing ++ [(s.openings, .draw stroke)] }, [])
    else none
  | .sendClear =>
    if s.page.canDraw then
      some ({ s with
        page := { s.page with strokes := [] }
        outgoing := s.outgoing ++ [(s.openings, .drawClear)] }, [])
    else none

def sketchSystem (id : RoomId) (capacity : ℕ) (p : Uuid) :
    Machine.System Sketch SketchInput Effect :=
  Machine.ofFunction { clients := (⟨newRoom id capacity, []⟩, fun _ => none) } (stepSketch p)

end

/-- Nothing that was drawn in one round of `p` arrives in a later one, and the room takes every
stroke as it is. -/
def Undisturbed (p : Uuid) (s : Sketch) : SketchInput → Prop
  | .arrive _ => s.clients.1.room.drawerId = some p →
      ∀ ms ∈ s.clients.2 p, ∀ x ∈ s.outgoing.head?, x.1 = openingCount ms
  | .sendStroke stroke => Sendable stroke
  | _ => True

instance (p : Uuid) (s : Sketch) : ∀ i, Decidable (Undisturbed p s i)
  | .arrive _ => inferInstanceAs (Decidable (_ → ∀ ms ∈ s.clients.2 p, _))
  | .room _ _ => inferInstanceAs (Decidable True)
  | .hear _ => inferInstanceAs (Decidable True)
  | .sendStroke stroke => inferInstanceAs (Decidable (Sendable stroke))
  | .sendClear => inferInstanceAs (Decidable True)

/-! ### What the page and the room have in common -/

/-- The messages on their way that were sent in the round that the player was told of last. -/
def current (ms : List ServerToClientMessage) (outgoing : List (ℕ × DrawMessage)) :
    List DrawMessage :=
  (outgoing.filter fun x => decide (x.1 = openingCount ms)).map Prod.snd

/-- The page of `p`, that was sent `ms`. While `p` draws, the room has what the page will show
once it has handled everything, without what is on its way. -/
structure Synced (p : Uuid) (s : Sketch) (ms : List ServerToClientMessage) : Prop where
  handled : s.handled ≤ ms.length
  openings : s.openings = openingCount (ms.take s.handled)
  drawerId : s.page.game.drawerId = (ms.take s.handled).foldl drawerIdAfter none
  me : ∀ me, s.page.me = some me → me.id = p
  marked : ∀ x ∈ s.outgoing, x.1 ≤ s.openings
  sendable : ∀ x ∈ s.outgoing, ∀ stroke, x.2 = .draw stroke → Sendable stroke
  strokes : s.clients.1.room.drawerId = some p → ∃ full, Buffered s.clients.1.room full ∧
    (current ms s.outgoing).foldl sentAfter full =
      (ms.drop s.handled).foldl strokesAfter s.page.strokes

theorem openingCount_append (ms ns : List ServerToClientMessage) :
    openingCount (ms ++ ns) = openingCount ms + openingCount ns := List.countP_append

theorem openingCount_take_le (ms : List ServerToClientMessage) (n : ℕ) :
    openingCount (ms.take n) ≤ openingCount ms :=
  (List.take_sublist n ms).countP_le

theorem openingCount_aside {ms : List ServerToClientMessage} (h : ∀ m ∈ ms, IsAside m) :
    openingCount ms = 0 := by
  rw [openingCount_eq_zero]
  intro m hm
  have haside := h m hm
  cases m <;> first | rfl | exact haside.elim

/-- A step of the room, other than a message of `p`, in whose end `p` is to draw. -/
theorem strokes_heard {env : Env} {room t : Room} {p : Uuid} {input : RoomInput}
    {ms : List ServerToClientMessage} {ks : List GameMark} (hs : Heard env room p input t ms ks)
    (hown : drawsAs p input = false) (hd : t.drawerId = some p) :
    (openingCount ms = 0 ∧ room.drawerId = some p ∧ t.strokes = room.strokes ∧
      ∀ strokes, ms.foldl strokesAfter strokes = strokes) ∨
    (openingCount ms ≠ 0 ∧ t.strokes = [] ∧ ∀ strokes, ms.foldl strokesAfter strokes = []) := by
  cases hs with
  | aside hms =>
    exact .inl ⟨openingCount_aside hms, hd, rfl, foldl_aside strokesAfter_aside hms⟩
  | @draw d _ stroke hdr =>
    rw [(room.addStroke_frame stroke).2.1, hdr, Option.some.injEq] at hd
    simp [drawsAs, hd] at hown
  | @drawClear d hdr =>
    have he : d = p := Option.some.inj (hdr.symm.trans hd)
    simp [drawsAs, he] at hown
  | join _ _ _ hms =>
    rw [Room.seatPlayer_eq] at hd ⊢
    refine .inl ⟨?_, hd, rfl, fun strokes => ?_⟩
    · rw [openingCount, List.countP_cons_of_neg (by simp [isOpening])]
      exact openingCount_aside hms
    · exact foldl_aside strokesAfter_aside hms strokes
  | start _ _ => exact .inr ⟨by simp [openingCount, isOpening], rfl, fun _ => rfl⟩
  | answer _ _ => exact .inl ⟨rfl, hd, rfl, fun _ => rfl⟩
  | lastAnswer _ _ => cases hd
  | close _ => cases hd
  | next _ => exact .inr ⟨by simp [openingCount, isOpening], rfl, fun _ => rfl⟩
  | finish _ => cases hd
  | leave hms =>
    refine .inl ⟨?_, hd, rfl, fun strokes => ?_⟩
    · rw [openingCount, List.countP_cons_of_neg (by simp [isOpening])]
      exact openingCount_aside hms
    · exact foldl_aside strokesAfter_aside hms strokes
  | leaveGame _ _ => cases hd
  | leaveRound _ _ => cases hd

section
variable {p : Uuid} {s : Sketch} {ms : List ServerToClientMessage}

theorem Synced.room {u : Clients} {ns : List ServerToClientMessage} (h : Synced p s ms)
    (hstep : u.1.room.drawerId = some p →
      (openingCount ns = 0 ∧ s.clients.1.room.drawerId = some p ∧
        u.1.room.strokes = s.clients.1.room.strokes ∧
        ∀ strokes, ns.foldl strokesAfter strokes = strokes) ∨
      (openingCount ns ≠ 0 ∧ u.1.room.strokes = [] ∧
        ∀ strokes, ns.foldl strokesAfter strokes = [])) :
    Synced p { s with clients := u } (ms ++ ns) where
  handled := by
    rw [List.length_append]
    exact h.handled.trans (Nat.le_add_right _ _)
  openings := by
    rw [List.take_append_of_le_length h.handled]
    exact h.openings
  drawerId := by
    rw [List.take_append_of_le_length h.handled]
    exact h.drawerId
  me := h.me
  marked := h.marked
  sendable := h.sendable
  strokes hd := by
    rw [List.drop_append_of_le_length h.handled, List.foldl_append]
    rcases hstep hd with ⟨hcount, hroom, hstrokes, hfold⟩ | ⟨hcount, hstrokes, hfold⟩
    · obtain ⟨full, hfull, he⟩ := h.strokes hroom
      refine ⟨full, hfull.of_strokes hstrokes, ?_⟩
      rw [hfold, ← he, current, openingCount_append, hcount]
      rfl
    · refine ⟨[], congrArg (List.map parsedStroke) hstrokes, ?_⟩
      have hnone : current (ms ++ ns) s.outgoing = [] := by
        rw [current, List.map_eq_nil_iff, List.filter_eq_nil_iff]
        intro x hx
        have hle := h.marked x hx
        have htake := openingCount_take_le ms s.handled
        rw [h.openings] at hle
        rw [openingCount_append, decide_eq_true_iff]
        omega
      rw [hfold]
      exact congrArg (fun ms => ms.foldl sentAfter []) hnone

theorem Synced.arrive {u : Clients} {n : ℕ} {m : DrawMessage} {rest : List (ℕ × DrawMessage)}
    (h : Synced p s ms) (hout : s.outgoing = (n, m) :: rest)
    (hd : u.1.room.drawerId = s.clients.1.room.drawerId)
    (htaken : s.clients.1.room.drawerId = some p → n = openingCount ms ∧
      ∀ full, Buffered s.clients.1.room full → Buffered u.1.room (sentAfter full m)) :
    Synced p { s with clients := u, outgoing := rest } ms where
  handled := h.handled
  openings := h.openings
  drawerId := h.drawerId
  me := h.me
  marked x hx := h.marked x (hout ▸ List.mem_cons_of_mem _ hx)
  sendable x hx := h.sendable x (hout ▸ List.mem_cons_of_mem _ hx)
  strokes hdr := by
    have hroom : s.clients.1.room.drawerId = some p := hd ▸ hdr
    obtain ⟨hn, hbuffer⟩ := htaken hroom
    obtain ⟨full, hfull, he⟩ := h.strokes hroom
    refine ⟨sentAfter full m, hbuffer full hfull, ?_⟩
    rw [← he, hout]
    simp [current, hn]

theorem Synced.hear {m : ServerToClientMessage} (now : ℤ) (h : Synced p s ms)
    (hm : ms[s.handled]? = some m) (hyou : ∀ state, .roomState state ∈ ms → state.you.id = p) :
    Synced p { s with
      page := s.page.onmessage now m
      handled := s.handled + 1
      openings := if isOpening m then s.openings + 1 else s.openings } ms := by
  obtain ⟨hlt, hget⟩ := List.getElem?_eq_some_iff.mp hm
  have htake : ms.take (s.handled + 1) = ms.take s.handled ++ [m] := by
    rw [List.take_add_one, hm]
    rfl
  have hdrop : ms.drop s.handled = m :: ms.drop (s.handled + 1) := by
    rw [List.drop_eq_getElem_cons hlt, hget]
  have hcount : openingCount [m] = if isOpening m then 1 else 0 := by
    simp [openingCount, List.countP_cons]
  constructor
  case handled => exact hlt
  case openings =>
    rw [htake, openingCount_append, hcount, ← h.openings]
    split_ifs <;> rfl
  case drawerId =>
    rw [htake, List.foldl_append, ← h.drawerId]
    exact onmessage_drawerId s.page now m
  case me =>
    intro me hme
    rw [onmessage_me] at hme
    cases m with
    | roomState state =>
      cases hme
      exact hyou state (List.mem_of_getElem? hm)
    | _ => exact h.me me hme
  case marked =>
    intro x hx
    have hle := h.marked x hx
    dsimp only
    split_ifs <;> omega
  case sendable => exact h.sendable
  case strokes =>
    intro hd
    obtain ⟨full, hfull, he⟩ := h.strokes hd
    refine ⟨full, hfull, ?_⟩
    rw [he, hdrop, List.foldl_cons, ← onmessage_strokes s.page now m]

theorem Synced.drawing {mode : Mode} (h : Synced p s ms) (hdraw : s.page.canDraw = true)
    (hrun : Mode.away.run p ms = some mode) :
    Mode.drawing.run p (ms.drop s.handled) = some mode := by
  rw [← List.take_append_drop s.handled ms, Mode.run_append] at hrun
  obtain ⟨mid, hmid, hrest⟩ := Option.bind_eq_some_iff.mp hrun
  have hdrawer : s.page.game.drawerId = some p := by
    rw [RoomSocket.canDraw, Bool.and_eq_true, RoomSocket.isDrawer] at hdraw
    cases hme : s.page.me with
    | none => simp [hme] at hdraw
    | some me =>
      rw [hme, Option.any_some, decide_eq_true_iff, h.me me hme] at hdraw
      exact hdraw.1
  have hnone : (none : Option Uuid) = some p ↔ Mode.away = .drawing := by simp
  rw [h.drawerId] at hdrawer
  rw [(Mode.run_drawer hmid hnone).mp hdrawer] at hrest
  exact hrest

theorem Synced.send {mode : Mode} {m : DrawMessage} (h : Synced p s ms)
    (hdraw : s.page.canDraw = true) (hrun : Mode.away.run p ms = some mode)
    (hmode : s.clients.1.room.drawerId = some p → mode = .drawing)
    (hm : ∀ stroke, m = .draw stroke → Sendable stroke) :
    Synced p { s with
      page := { s.page with strokes := sentAfter s.page.strokes m }
      outgoing := s.outgoing ++ [(s.openings, m)] } ms where
  handled := h.handled
  openings := h.openings
  drawerId := h.drawerId
  me := h.me
  marked x hx := by
    rcases List.mem_append.mp hx with hx | hx
    · exact h.marked x hx
    · rw [List.mem_singleton.mp hx]
  sendable x hx stroke he := by
    rcases List.mem_append.mp hx with hx | hx
    · exact h.sendable x hx stroke he
    · rw [List.mem_singleton.mp hx] at he
      exact hm stroke he
  strokes hd := by
    obtain ⟨full, hfull, he⟩ := h.strokes hd
    have hrest := h.drawing hdraw hrun
    have hcount : openingCount ms = s.openings + openingCount (ms.drop s.handled) := by
      rw [h.openings, ← openingCount_append, List.take_append_drop]
    refine ⟨full, hfull, ?_⟩
    by_cases hopen : openingCount (ms.drop s.handled) = 0
    · -- the page is in the round of the room
      rw [hmode hd] at hrest
      have hfold := strokes_drawing hrest (openingCount_eq_zero.mp hopen)
      rw [hfold] at he ⊢
      rw [← he, current, List.filter_append, List.map_append, List.foldl_append]
      have hcur : s.openings = openingCount ms := by omega
      simp [hcur, current]
    · have hne : ¬ s.openings = openingCount ms := by omega
      rw [strokes_reopened (by decide) hrest hopen _ s.page.strokes, ← he]
      simp [current, hne]

end

/-! ### Runs -/

structure SketchInv (p : Uuid) (s : Sketch) : Prop where
  blank : p ∉ s.clients.1.issued → s.page.me = none ∧ s.page.game.drawerId = none ∧
    s.handled = 0 ∧ s.openings = 0 ∧ s.outgoing = []
  synced : ∀ ms, s.clients.2 p = some ms → Synced p s ms

theorem not_canDraw_of_me {c : RoomSocket} (h : c.me = none) : c.canDraw = false := by
  simp [RoomSocket.canDraw, RoomSocket.isDrawer, h]

section
variable [Runtime] {id : RoomId} {capacity : ℕ} {p : Uuid}

theorem stepClients_step {s u : Clients} {i : Env × RoomInput} {os : List Effect}
    (h : stepClients s i = some (u, os)) : (clientSystem id capacity).step s i u os := by
  obtain ⟨r, hr, he⟩ := Option.map_eq_some_iff.mp h
  cases he
  exact ⟨hr, rfl⟩

/-! The steps of the page, of what is on its way and of the room. -/

inductive SketchStep (p : Uuid) (s : Sketch) : SketchInput → Sketch → Prop
  | room {env : Env} {input : RoomInput} {u : Clients} {os : List Effect}
      (hown : drawsAs p input = false) (hs : stepClients s.clients (env, input) = some (u, os)) :
      SketchStep p s (.room env input) { s with clients := u }
  | arrive {env : Env} {n : ℕ} {m : DrawMessage} {rest : List (ℕ × DrawMessage)} {u : Clients}
      {os : List Effect} (hout : s.outgoing = (n, m) :: rest)
      (hs : stepClients s.clients (env, m.input p) = some (u, os)) :
      SketchStep p s (.arrive env) { s with clients := u, outgoing := rest }
  | hear {now : ℤ} {ms : List ServerToClientMessage} {m : ServerToClientMessage}
      (hp : s.clients.2 p = some ms) (hget : ms[s.handled]? = some m) :
      SketchStep p s (.hear now) { s with
        page := s.page.onmessage now m
        handled := s.handled + 1
        openings := if isOpening m then s.openings + 1 else s.openings }
  | sendStroke {stroke : StrokeSegment} (hdraw : s.page.canDraw = true) :
      SketchStep p s (.sendStroke stroke) { s with
        page := { s.page with strokes := sentAfter s.page.strokes (.draw stroke) }
        outgoing := s.outgoing ++ [(s.openings, .draw stroke)] }
  | sendClear (hdraw : s.page.canDraw = true) :
      SketchStep p s .sendClear { s with
        page := { s.page with strokes := sentAfter s.page.strokes .drawClear }
        outgoing := s.outgoing ++ [(s.openings, .drawClear)] }

theorem sketch_step {s t : Sketch} {i : SketchInput} {os : List Effect}
    (h : stepSketch p s i = some (t, os)) : SketchStep p s i t := by
  cases i with
  | room env input =>
    simp only [stepSketch] at h
    split_ifs at h with hown
    obtain ⟨r, hr, he⟩ := Option.map_eq_some_iff.mp h
    cases he
    exact .room (Bool.eq_false_iff.mpr hown) hr
  | arrive env =>
    simp only [stepSketch] at h
    split at h
    · cases h
    · rename_i n m rest hout
      obtain ⟨r, hr, he⟩ := Option.map_eq_some_iff.mp h
      cases he
      exact .arrive hout hr
  | hear now =>
    simp only [stepSketch] at h
    split at h
    · cases h
    · rename_i m hm
      cases h
      obtain ⟨ms, hp, hget⟩ := Option.bind_eq_some_iff.mp hm
      exact .hear hp hget
  | sendStroke stroke =>
    simp only [stepSketch] at h
    split_ifs at h with hdraw
    cases h
    exact .sendStroke hdraw
  | sendClear =>
    simp only [stepSketch] at h
    split_ifs at h with hdraw
    cases h
    exact .sendClear hdraw

theorem sketch_clients {A : Sketch → SketchInput → Prop} {s : Sketch}
    (hr : Machine.Reachable ((sketchSystem id capacity p).restrict A) s) :
    Machine.Reachable (clientSystem id capacity) s.clients := by
  refine hr.invariant (I := fun s => Machine.Reachable (clientSystem id capacity) s.clients) ?_ ?_
  · rintro s rfl
    exact .start ⟨rfl, rfl⟩
  · rintro s i t os hs ⟨-, ht⟩
    cases sketch_step ht with
    | room _ hstep => exact hs.step (stepClients_step hstep)
    | arrive _ hstep => exact hs.step (stepClients_step hstep)
    | hear _ _ => exact hs
    | sendStroke _ => exact hs
    | sendClear _ => exact hs

theorem reachable_issued {s : Clients} (hr : Machine.Reachable (clientSystem id capacity) s)
    {ms : List ServerToClientMessage} (hp : s.2 p = some ms) : p ∈ s.1.issued := by
  obtain ⟨is, os, hr⟩ := hr
  cases hr with
  | nil h =>
    rw [h.2] at hp
    cases hp
  | snoc hr h => exact inbox_issued ⟨_, _, hr⟩ h hp

/-- A step of the room as a player sees it who was connected before it or is connected by it. -/
theorem client_inbox {s u : Clients} (hr : Machine.Reachable (clientSystem id capacity) s)
    {i : Env × RoomInput} {os : List Effect} (hs : (clientSystem id capacity).step s i u os)
    {ms : List ServerToClientMessage} (hp : u.2 p = some ms) :
    (p ∉ s.1.issued ∧ u.1.room.drawerId ≠ some p) ∨
    ∃ ns, s.2 p = some ns ∧ ms = ns ++ received p os ∧ Online i.1 u.1.room p ∧
      Heard i.1 s.1.room p i.2 u.1.room (received p os) ((marks os).filter isTold) := by
  obtain ⟨hstep, hinbox⟩ := hs
  obtain ⟨hu, hroom, -⟩ := roomSystem_step hstep
  have hi := reachable_inv hr.of_observe
  have htransition := roomStep_transition hi.coherent hroom
  rw [hinbox] at hp
  obtain ⟨hc, ⟨hm, rfl⟩ | ⟨hm, ns, hn, rfl⟩⟩ := Feed.deliver_eq_some hp
  · have hnew : p ∉ s.1.room.players.keys := of_decide_eq_false hm
    obtain ⟨player, rfl, huuid, -, ht, -⟩ :=
      transition_joined htransition (of_decide_eq_true hc) hnew
    refine .inl ⟨huuid ▸ hu, fun hd => ?_⟩
    rw [ht, Room.seatPlayer_eq] at hd
    exact hnew (hi.coherent.consistent.drawing _ hd).2.1
  · have hfresh : i.1.uuid ∉ s.1.room.players.keys := fun hid => hu (hi.players_issued _ hid)
    exact .inr ⟨ns, hn, rfl, of_decide_eq_true hc,
      transition_heard htransition hfresh (of_decide_eq_true hc) (of_decide_eq_true hm)⟩

omit [Runtime] in
theorem Synced.newcomer {s : Sketch} {ms : List ServerToClientMessage} (hme : s.page.me = none)
    (hd : s.page.game.drawerId = none) (hhandled : s.handled = 0) (hopenings : s.openings = 0)
    (hout : s.outgoing = []) (hroom : s.clients.1.room.drawerId ≠ some p) : Synced p s ms where
  handled := by omega
  openings := by rw [hhandled, hopenings]; rfl
  drawerId := by rw [hd, hhandled]; rfl
  me me h := by rw [hme] at h; cases h
  marked x hx := by rw [hout] at hx; cases hx
  sendable x hx := by rw [hout] at hx; cases hx
  strokes h := absurd h hroom

theorem SketchInv.room {s : Sketch} {u : Clients} {env : Env} {input : RoomInput}
    {os : List Effect} (h : SketchInv p s)
    (hr : Machine.Reachable (clientSystem id capacity) s.clients)
    (hs : (clientSystem id capacity).step s.clients (env, input) u os)
    (hown : drawsAs p input = false) : SketchInv p { s with clients := u } := by
  obtain ⟨-, -, hissued⟩ := roomSystem_step hs.1
  constructor
  case blank =>
    intro hp
    rw [hissued, List.mem_cons, not_or] at hp
    exact h.blank hp.2
  case synced =>
    intro ms hp
    rcases client_inbox hr hs hp with ⟨hnew, hroom⟩ | ⟨ns, hn, rfl, -, hheard⟩
    · obtain ⟨hme, hd, hhandled, hopenings, hout⟩ := h.blank hnew
      exact .newcomer hme hd hhandled hopenings hout hroom
    · exact (h.synced ns hn).room fun hd => strokes_heard hheard hown hd

theorem SketchInv.arrive {s : Sketch} {u : Clients} {env : Env} {n : ℕ} {m : DrawMessage}
    {rest : List (ℕ × DrawMessage)} {os : List Effect} (h : SketchInv p s)
    (hr : Machine.Reachable (clientSystem id capacity) s.clients)
    (hout : s.outgoing = (n, m) :: rest) (htime : Undisturbed p s (.arrive env))
    (hs : (clientSystem id capacity).step s.clients (env, m.input p) u os) :
    SketchInv p { s with clients := u, outgoing := rest } := by
  obtain ⟨-, hstep, hissued⟩ := roomSystem_step hs.1
  constructor
  case blank =>
    intro hp
    rw [hissued, List.mem_cons, not_or] at hp
    have hnone := (h.blank hp.2).2.2.2.2
    rw [hout] at hnone
    cases hnone
  case synced =>
    intro ms hp
    rcases client_inbox hr hs hp with ⟨hnew, -⟩ | ⟨ns, hn, rfl, hon, -⟩
    · have hnone := (h.blank hnew).2.2.2.2
      rw [hout] at hnone
      cases hnone
    · have hsynced := h.synced ns hn
      have hc := (reachable_inv hr.of_observe).coherent
      have hsend := hsynced.sendable (n, m) (hout ▸ List.mem_cons_self)
      by_cases hd : s.clients.1.room.drawerId = some p
      · rw [roomStep_taken hc hd hsend] at hstep
        obtain ⟨hu, rfl⟩ := Prod.mk.inj (Option.some.inj hstep)
        have hnothing : received p [(m.apply s.clients.1.room).broadcast env m.message (some p)]
            = [] := by
          rw [hu, received_cons_except hon]
          simp [received]
        rw [hnothing, List.append_nil]
        refine hsynced.arrive hout ?_ fun _ => ⟨?_, ?_⟩
        · rw [← hu, apply_drawerId]
        · exact htime hd ns hn (n, m) (by rw [hout]; rfl)
        · intro full hfull
          rw [← hu]
          exact apply_buffered hfull hsend
      · rw [roomStep_refused env m hd] at hstep
        obtain ⟨hu, rfl⟩ := Prod.mk.inj (Option.some.inj hstep)
        have hnothing : received p [] = [] := rfl
        rw [hnothing, List.append_nil]
        exact hsynced.arrive hout (by rw [← hu]) fun hdr => absurd hdr hd

theorem SketchInv.send {s : Sketch} {m : DrawMessage} (h : SketchInv p s)
    (hr : Machine.Reachable (clientSystem id capacity) s.clients) (hdraw : s.page.canDraw = true)
    (hm : ∀ stroke, m = .draw stroke → Sendable stroke) :
    SketchInv p { s with
      page := { s.page with strokes := sentAfter s.page.strokes m }
      outgoing := s.outgoing ++ [(s.openings, m)] } := by
  constructor
  case blank =>
    intro hp
    rw [not_canDraw_of_me (h.blank hp).1] at hdraw
    cases hdraw
  case synced =>
    intro ms hp
    obtain ⟨⟨mode, hrun, hd⟩, -⟩ := reachable_stream hr hp
    exact (h.synced ms hp).send hdraw hrun hd.mp hm

theorem sketch_inv {s : Sketch}
    (hr : Machine.Reachable ((sketchSystem id capacity p).restrict (Undisturbed p)) s) :
    SketchInv p s := by
  refine hr.invariant_of (I := SketchInv p)
    (J := fun s => Machine.Reachable (clientSystem id capacity) s.clients)
    (fun _ hr => sketch_clients hr) ?_ ?_
  · rintro s rfl
    exact ⟨fun _ => ⟨rfl, rfl, rfl, rfl, rfl⟩, fun ms h => by cases h⟩
  · rintro s i t os hclients h ⟨htime, ht⟩
    cases sketch_step ht with
    | room hown hstep => exact h.room hclients (stepClients_step hstep) hown
    | arrive hout hstep => exact h.arrive hclients hout htime (stepClients_step hstep)
    | hear hp hget =>
      refine ⟨fun hnew => absurd (reachable_issued hclients hp) hnew, fun ns hn => ?_⟩
      obtain rfl := Option.some.inj (hp.symm.trans hn)
      exact (h.synced _ hp).hear _ hget (reachable_stream hclients hp).2
    | sendStroke hdraw =>
      apply h.send hclients hdraw
      intro stroke he
      cases he
      exact htime
    | sendClear hdraw =>
      apply h.send hclients hdraw
      intro stroke he
      cases he

omit [Runtime] in
theorem lastDrawer_heard {env : Env} {room t : Room} {q : Uuid} {input : RoomInput}
    {ms : List ServerToClientMessage} {ks : List GameMark} {last : Option Uuid}
    (hs : Heard env room q input t ms ks)
    (h : ∀ d, room.drawerId = some d → last = none ∨ last = some d) :
    ∀ d, t.drawerId = some d →
      ms.foldl drawerAfter last = none ∨ ms.foldl drawerAfter last = some d := by
  intro d hd
  cases hs with
  | aside hms =>
    rw [foldl_aside drawerAfter_aside hms]
    exact h d hd
  | draw stroke _ =>
    rw [(room.addStroke_frame stroke).2.1] at hd
    split_ifs <;> exact h d hd
  | drawClear _ => split_ifs <;> exact h d hd
  | join _ _ _ hms =>
    rw [Room.seatPlayer_eq] at hd
    rw [List.foldl_cons, foldl_aside drawerAfter_aside hms]
    exact h d hd
  | @start drawer _ _ =>
    obtain ⟨word, hw⟩ := toldTo_word env (room.beginGame env) drawer q
    rw [hw]
    exact .inr hd
  | answer _ _ => exact h d hd
  | lastAnswer _ _ => cases hd
  | close _ => cases hd
  | @next n drawer _ =>
    obtain ⟨word, hw⟩ := toldTo_word env (room.timerFired n) drawer q
    rw [hw]
    exact .inr hd
  | finish _ => cases hd
  | leave hms =>
    rw [List.foldl_cons, foldl_aside drawerAfter_aside hms]
    exact h d hd
  | leaveGame _ _ => cases hd
  | leaveRound _ _ => cases hd

theorem reachable_lastDrawer {s : Clients} (hr : Machine.Reachable (clientSystem id capacity) s)
    {q : Uuid} {ms : List ServerToClientMessage} (hq : s.2 q = some ms) {d : Uuid}
    (hd : s.1.room.drawerId = some d) : lastDrawer ms = none ∨ lastDrawer ms = some d := by
  refine clients_rule (A := fun _ _ => True) (J := RoomState.Inv)
    (R := fun s _ ms _ => ∀ d, s.room.drawerId = some d →
      lastDrawer ms = none ∨ lastDrawer ms = some d)
    (fun _ hr => reachable_inv hr) ?_ ?_ (hr.to_restrict fun _ _ => trivial) hq (fun _ => 0) {} d hd
  · intro env s t player ms clock page _ _ _ _ _ hms d _
    rw [lastDrawer, List.foldl_cons, foldl_aside drawerAfter_aside hms]
    exact .inl rfl
  · intro env input s inbox t q ns ms ks clock page _ _ _ _ hs hrel
    rw [lastDrawer_append]
    exact lastDrawer_heard hs hrel

/-- The page of the drawer shows what the room has and what is on its way; and once nothing is,
it shows what the pages of all others show. -/
theorem drawing_converges (id : RoomId) (capacity : ℕ) (p : Uuid) (s : Sketch)
    (hr : Machine.Reachable ((sketchSystem id capacity p).restrict (Undisturbed p)) s)
    (ms : List ServerToClientMessage) (hp : s.clients.2 p = some ms)
    (hd : s.clients.1.room.drawerId = some p) :
    (s.openings = openingCount ms → ∃ full, Buffered s.clients.1.room full ∧
      s.page.strokes = (current ms s.outgoing).foldl sentAfter full) ∧
    (s.handled = ms.length → s.outgoing = [] →
      Buffered s.clients.1.room s.page.strokes ∧
      (s.clients.1.room.strokes.length < MAX_BUFFERED_STROKES →
        ∀ q ns, q ≠ p → s.clients.2 q = some ns → ∀ clock page,
          (pageAfter clock page ns).strokes = s.page.strokes)) := by
  have hclients := sketch_clients hr
  have hsynced := (sketch_inv hr).synced ms hp
  obtain ⟨full, hfull, he⟩ := hsynced.strokes hd
  constructor
  · intro hopen
    obtain ⟨⟨mode, hrun, hmode⟩, -⟩ := reachable_stream hclients hp
    rw [← List.take_append_drop s.handled ms, Mode.run_append] at hrun
    obtain ⟨mid, -, hrest⟩ := Option.bind_eq_some_iff.mp hrun
    have hno : openingCount (ms.drop s.handled) = 0 := by
      have hcount := openingCount_append (ms.take s.handled) (ms.drop s.handled)
      rw [List.take_append_drop, ← hsynced.openings] at hcount
      omega
    have hmid : mid = .drawing := by
      by_contra hne
      exact Mode.run_idle hne hrest (openingCount_eq_zero.mp hno) (hmode.mp hd)
    rw [hmid, hmode.mp hd] at hrest
    rw [strokes_drawing hrest (openingCount_eq_zero.mp hno)] at he
    exact ⟨full, hfull, he.symm⟩
  · intro hall hnone
    rw [hnone, hall, List.drop_length] at he
    have hbuffered : Buffered s.clients.1.room s.page.strokes := by
      rw [← show full = s.page.strokes from he]
      exact hfull
    refine ⟨hbuffered, fun hroom q ns hne hq clock page => ?_⟩
    have hlast : lastDrawer ns ≠ some q := by
      rcases reachable_lastDrawer hclients hq hd with h | h
      · simp [h]
      · simp [h, Ne.symm hne]
    have hcopied := (reachable_copied hclients hq clock page).buffered hlast
    have hshort : ∀ strokes, Buffered s.clients.1.room strokes →
        strokes = s.clients.1.room.strokes.map parsedStroke := by
      intro strokes h
      have hlength := congrArg List.length h
      rw [List.length_map, List.length_take] at hlength
      rw [h, List.take_of_length_le (by omega)]
    rw [hshort _ hcopied, ← hshort _ hbuffered]

end

/-- The drawer of `twoStart` draws a stroke that the room gets after a third player has come, and
another one before it hears of that player. -/
def twoStrokes : List SketchInput :=
  [.room (plainEnv 0) (.join 0 none (utf16 "a")), .room (plainEnv 1) (.join 1 none (utf16 "b")),
   .hear 0, .hear 0, .room (plainEnv 2) .startGame, .hear 0, .hear 0, .hear 0, .sendStroke dot,
   .room (plainEnv 3) (.join 2 none (utf16 "c")), .arrive (plainEnv 4), .sendStroke dot,
   .hear 0, .hear 0, .arrive (plainEnv 5)]

abbrev plainSketch : Machine.System Sketch SketchInput Effect :=
  @sketchSystem plainRuntime (utf16 "AB3DE") DEFAULT_ROOM_CAPACITY ⟨1⟩

theorem twoStrokes_runs : (Machine.exec
    (Machine.restrictStep (@stepSketch plainRuntime ⟨1⟩) (Undisturbed ⟨1⟩))
    { clients := (⟨newRoom (utf16 "AB3DE") DEFAULT_ROOM_CAPACITY, []⟩, fun _ => none) }
    twoStrokes).isSome := by
  decide +kernel

theorem twoStrokes_converged : ∃ s os ms ns, Machine.Run (plainSketch.restrict (Undisturbed ⟨1⟩))
      twoStrokes s os ∧ s.clients.2 ⟨1⟩ = some ms ∧ s.clients.2 ⟨3⟩ = some ns ∧
    s.page.strokes.length = 2 ∧
    (pageAfter (fun _ => 0) {} ns).strokes = s.page.strokes := by
  obtain ⟨-, hquiet⟩ := @drawing_converges plainRuntime (utf16 "AB3DE") DEFAULT_ROOM_CAPACITY ⟨1⟩ _
    ⟨twoStrokes, _, Machine.exec_restrict_run twoStrokes_runs⟩ _
    (Option.some_get (by decide +kernel)).symm (by decide +kernel)
  obtain ⟨-, hsame⟩ := hquiet (by decide +kernel) (List.length_eq_zero_iff.mp (by decide +kernel))
  exact ⟨_, _, _, _, Machine.exec_restrict_run twoStrokes_runs,
    (Option.some_get (by decide +kernel)).symm, (Option.some_get (by decide +kernel)).symm,
    by decide +kernel,
    hsame (by decide +kernel) ⟨3⟩ _ (by decide) (Option.some_get (by decide +kernel)).symm _ _⟩

end GachaMind.Web
