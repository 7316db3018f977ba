import GachaMind.Lib.Polyline
import GachaMind.Shared

/-!
# Pen strokes (apps/web/src/features/room/DrawCanvas.tsx)

The pointer handlers, the frame loop and the buffer between them. The points are those that
`toNormalized` returns for the events; an emitted segment is painted and passed to `onStroke`.
-/

namespace GachaMind.Web
open GachaMind.Js GachaMind.Shared Polyline

/-! ### The component -/

structure PenStyle where
  color : JsString
  width : JsNumber

/-- The refs of the component, and whether this player may draw. -/
structure Pen where
  canDraw : Bool
  drawing : Bool
  flushed : Bool
  buffer : List Json
  style : PenStyle

inductive PenEvent where
  | pointerDown (point : Json)
  | pointerMove (point : Json)
  /-- Also when the pointer leaves the canvas. -/
  | pointerUp
  | pointerCancel
  | frame
  | restyle (style : PenStyle)
  | canDraw (canDraw : Bool)

def emitSegment (pen : Pen) (points : List Json) : Pen × List StrokeSegment :=
  ({ pen with flushed := true },
    [{ points := points, color := pen.style.color, width := pen.style.width }])

/-- One turn of the frame loop, which runs while the player may draw. The last point stays in
the buffer, so that the next segment joins this one. -/
def flush (pen : Pen) : Pen × List StrokeSegment :=
  if pen.buffer.length < 2 then (pen, [])
  else emitSegment { pen with buffer := pen.buffer.getLast?.toList } pen.buffer

def handlePointerDown (pen : Pen) (point : Json) : Pen × List StrokeSegment :=
  if pen.canDraw then
    ({ pen with drawing := true, flushed := false, buffer := [point] }, [])
  else (pen, [])

def handlePointerMove (pen : Pen) (point : Json) : Pen × List StrokeSegment :=
  if pen.canDraw && pen.drawing then ({ pen with buffer := pen.buffer ++ [point] }, [])
  else (pen, [])

def handlePointerUp (pen : Pen) : Pen × List StrokeSegment :=
  if pen.drawing then
    let buffer := pen.buffer
    let pen := { pen with drawing := false, buffer := [] }
    if 2 ≤ buffer.length ∨ (buffer.length = 1 ∧ pen.flushed = false) then emitSegment pen buffer
    else (pen, [])
  else (pen, [])

def handlePointerCancel (pen : Pen) : Pen × List StrokeSegment :=
  ({ pen with drawing := false, buffer := [] }, [])

def Pen.handle (pen : Pen) : PenEvent → Pen × List StrokeSegment
  | .pointerDown point => handlePointerDown pen point
  | .pointerMove point => handlePointerMove pen point
  | .pointerUp => handlePointerUp pen
  | .pointerCancel => handlePointerCancel pen
  | .frame => if pen.canDraw then flush pen else (pen, [])
  | .restyle style => ({ pen with style := style }, [])
  | .canDraw true => ({ pen with canDraw := true }, [])
  | .canDraw false => ({ pen with canDraw := false, drawing := false, buffer := [] }, [])

/-- The segments emitted while the events are handled one after another. -/
def Pen.run (pen : Pen) : List PenEvent → Pen × List StrokeSegment
  | [] => (pen, [])
  | event :: events =>
    let handled := pen.handle event
    let rest := handled.1.run events
    (rest.1, handled.2 ++ rest.2)

theorem Pen.run_append (pen : Pen) (events more : List PenEvent) :
    pen.run (events ++ more) =
      (((pen.run events).1.run more).1,
        (pen.run events).2 ++ ((pen.run events).1.run more).2) := by
  induction events generalizing pen with
  | nil => rfl
  | cons event events ih => simp only [List.cons_append, Pen.run, ih, List.append_assoc]

/-! ### A stroke -/

/-- What happens between the pointer going down and coming up: moves, frames and, from the
toolbar, changes of the style. -/
inductive InStroke : PenEvent → Prop
  | move (point : Json) : InStroke (.pointerMove point)
  | frame : InStroke .frame
  | restyle (style : PenStyle) : InStroke (.restyle style)

def capturedPoint : PenEvent → List Json
  | .pointerMove point => [point]
  | _ => []

def captured (events : List PenEvent) : List Json := events.flatMap capturedPoint

/-- The segments handed over so far and what the buffer still holds of the points captured. -/
inductive Pending : Pen → List (List Json) → List Json → Prop
  | first {pen : Pen} (hdraw : pen.canDraw = true) (hdrawing : pen.drawing = true)
      (hflushed : pen.flushed = false) (hbuffer : pen.buffer ≠ []) : Pending pen [] pen.buffer
  | later {pen : Pen} {segments : List (List Json)} {sent tail : List Json} {last : Json}
      (hdraw : pen.canDraw = true) (hdrawing : pen.drawing = true) (hflushed : pen.flushed = true)
      (hne : segments ≠ []) (hlong : ∀ segment ∈ segments, 2 ≤ segment.length)
      (hsent : Covers segments sent)
      (hlast : segments.getLast?.bind List.getLast? = some last)
      (hbuffer : pen.buffer = last :: tail) : Pending pen segments (sent ++ tail)

section
variable {pen : Pen} {segments : List (List Json)} {points : List Json}

theorem Pending.canDraw (h : Pending pen segments points) : pen.canDraw = true := by
  cases h with
  | first hdraw _ _ _ => exact hdraw
  | later hdraw _ _ _ _ _ _ _ => exact hdraw

theorem Pending.drawing (h : Pending pen segments points) : pen.drawing = true := by
  cases h with
  | first _ hdrawing _ _ => exact hdrawing
  | later _ hdrawing _ _ _ _ _ _ => exact hdrawing

theorem Pending.move (h : Pending pen segments points) (point : Json) :
    handlePointerMove pen point = ({ pen with buffer := pen.buffer ++ [point] }, []) ∧
      Pending { pen with buffer := pen.buffer ++ [point] } segments (points ++ [point]) := by
  refine ⟨if_pos (by rw [h.canDraw, h.drawing]; rfl), ?_⟩
  cases h with
  | first hdraw hdrawing hflushed hbuffer =>
    exact @Pending.first { pen with buffer := pen.buffer ++ [point] } hdraw hdrawing hflushed
      (by simp)
  | later hdraw hdrawing hflushed hne hlong hsent hlast hbuffer =>
    rw [List.append_assoc]
    exact .later hdraw hdrawing hflushed hne hlong hsent hlast (by simp [hbuffer])

theorem Pending.long (h : Pending pen segments points) :
    ∀ segment ∈ segments, 2 ≤ segment.length := by
  cases h with
  | first _ _ _ _ => exact fun segment hs => absurd hs List.not_mem_nil
  | later _ _ _ _ hlong _ _ _ => exact hlong

theorem Pending.long_concat (h : Pending pen segments points) (hbuffer : 2 ≤ pen.buffer.length) :
    ∀ segment ∈ segments ++ [pen.buffer], 2 ≤ segment.length := by
  intro segment hs
  rcases List.mem_append.mp hs with hs | hs
  · exact h.long segment hs
  · rw [List.mem_singleton.mp hs]
    exact hbuffer

/-- The buffer is the next segment. -/
theorem Pending.handOver (h : Pending pen segments points) :
    Covers (segments ++ [pen.buffer]) points := by
  cases h with
  | first _ _ _ hbuffer => exact Covers.single hbuffer
  | later _ _ _ hne _ hsent hlast hbuffer =>
    rw [hbuffer]
    exact hsent.concat hne hlast

theorem Pending.buffer_ne_nil (h : Pending pen segments points) : pen.buffer ≠ [] := by
  cases h with
  | first _ _ _ hbuffer => exact hbuffer
  | later _ _ _ _ _ _ _ hbuffer =>
    rw [hbuffer]
    exact List.cons_ne_nil _ _

theorem Pending.flush (h : Pending pen segments points) :
    Pending (flush pen).1 (segments ++ (flush pen).2.map StrokeSegment.points) points := by
  by_cases hshort : pen.buffer.length < 2
  · have hflush : Web.flush pen = (pen, []) := if_pos hshort
    rw [hflush, List.map_nil, List.append_nil]
    exact h
  · have hflush : Web.flush pen =
        emitSegment { pen with buffer := pen.buffer.getLast?.toList } pen.buffer := if_neg hshort
    obtain ⟨last, hlast⟩ : ∃ last, pen.buffer.getLast? = some last :=
      Option.ne_none_iff_exists'.mp (mt List.getLast?_eq_none_iff.mp h.buffer_ne_nil)
    rw [hflush, hlast, ← List.append_nil points]
    apply @Pending.later (emitSegment { pen with buffer := [last] } pen.buffer).1 _ points [] last
      h.canDraw h.drawing rfl
    · simp [emitSegment]
    · exact h.long_concat (not_lt.mp hshort)
    · exact h.handOver
    · simp [emitSegment, hlast]
    · rfl

/-- One event of the stroke. -/
theorem Pending.handle {event : PenEvent} (h : Pending pen segments points)
    (he : InStroke event) :
    Pending (pen.handle event).1 (segments ++ (pen.handle event).2.map StrokeSegment.points)
      (points ++ capturedPoint event) := by
  cases he with
  | move point =>
    obtain ⟨heq, hmove⟩ := h.move point
    rw [Pen.handle, heq, List.map_nil, List.append_nil]
    exact hmove
  | frame =>
    have hnone : capturedPoint .frame = [] := rfl
    rw [Pen.handle, if_pos h.canDraw, hnone, List.append_nil]
    exact h.flush
  | restyle style =>
    have hnone : capturedPoint (.restyle style) = [] := rfl
    rw [Pen.handle, List.map_nil, List.append_nil, hnone, List.append_nil]
    cases h with
    | first hdraw hdrawing hflushed hbuffer =>
      exact @Pending.first { pen with style := style } hdraw hdrawing hflushed hbuffer
    | later hdraw hdrawing hflushed hne hlong hsent hlast hbuffer =>
      exact .later hdraw hdrawing hflushed hne hlong hsent hlast hbuffer

/-- The pointer comes up: a lone point is handed over unless it was before. -/
theorem Pending.up (h : Pending pen segments points) {all : List (List Json)}
    (hall : all = segments ++ (handlePointerUp pen).2.map StrokeSegment.points) :
    Covers all points ∧ (all = [points] ∨ ∀ segment ∈ all, 2 ≤ segment.length) := by
  have hup : handlePointerUp pen =
      if 2 ≤ pen.buffer.length ∨ (pen.buffer.length = 1 ∧ pen.flushed = false) then
        emitSegment { pen with drawing := false, buffer := [] } pen.buffer
      else ({ pen with drawing := false, buffer := [] }, []) := if_pos h.drawing
  by_cases hrest : 2 ≤ pen.buffer.length ∨ (pen.buffer.length = 1 ∧ pen.flushed = false)
  · rw [hup, if_pos hrest] at hall
    rw [hall]
    refine ⟨h.handOver, ?_⟩
    rcases hrest with htwo | ⟨-, hflushed⟩
    · exact .inr (h.long_concat htwo)
    · cases h with
      | first _ _ _ _ => exact .inl rfl
      | later _ _ hsent _ _ _ _ _ => cases hflushed.symm.trans hsent
  · rw [hup, if_neg hrest, List.map_nil, List.append_nil] at hall
    rw [hall]
    refine ⟨?_, .inr h.long⟩
    cases h with
    | first _ _ hflushed hbuffer =>
      have hpos := List.length_pos_iff.mpr hbuffer
      exact absurd ⟨by omega, hflushed⟩ (not_or.mp hrest).2
    | @later _ sent tail _ _ _ _ _ _ hsent _ hbuffer =>
      have hlen := (not_or.mp hrest).1
      rw [hbuffer, List.length_cons] at hlen
      obtain rfl := List.length_eq_zero_iff.mp (by omega : tail.length = 0)
      rw [List.append_nil]
      exact hsent

end

theorem Pending.run {events : List PenEvent} : ∀ {pen : Pen} {segments : List (List Json)}
    {points : List Json}, Pending pen segments points → (∀ event ∈ events, InStroke event) →
    Pending (pen.run events).1 (segments ++ (pen.run events).2.map StrokeSegment.points)
      (points ++ captured events) := by
  induction events with
  | nil =>
    intro pen segments points h _
    rw [Pen.run, List.map_nil, List.append_nil, captured, List.flatMap_nil, List.append_nil]
    exact h
  | cons event events ih =>
    intro pen segments points h he
    obtain ⟨hevent, hrest⟩ := List.forall_mem_cons.mp he
    have hrun := ih (h.handle hevent) hrest
    rw [Pen.run, List.map_append, captured, List.flatMap_cons, ← List.append_assoc,
      ← List.append_assoc]
    exact hrun

/-- The point lists of the segments that a stroke emits. -/
def strokeSegments (pen : Pen) (down : Json) (events : List PenEvent) : List (List Json) :=
  (pen.run (.pointerDown down :: events ++ [.pointerUp])).2.map StrokeSegment.points

theorem strokeSegments_cover (pen : Pen) (down : Json) (events : List PenEvent)
    (hdraw : pen.canDraw = true) (hevents : ∀ event ∈ events, InStroke event) :
    Covers (strokeSegments pen down events) (down :: captured events) ∧
      (captured events = [] → strokeSegments pen down events = [[down]]) := by
  let started : Pen := { pen with drawing := true, flushed := false, buffer := [down] }
  have hdown : pen.handle (.pointerDown down) = (started, []) := if_pos hdraw
  have hfirst : Pending started [] [down] :=
    @Pending.first started hdraw rfl rfl (List.cons_ne_nil _ _)
  have hrun := hfirst.run hevents
  rw [List.nil_append, List.singleton_append] at hrun
  have hsegments : strokeSegments pen down events =
      (started.run events).2.map StrokeSegment.points ++
        (handlePointerUp (started.run events).1).2.map StrokeSegment.points := by
    rw [strokeSegments, List.cons_append, Pen.run, hdown, List.nil_append, Pen.run_append,
      List.map_append, Pen.run, Pen.run, List.append_nil]
    rfl
  obtain ⟨hcover, hlong⟩ := hrun.up hsegments
  refine ⟨hcover, fun hclick => ?_⟩
  rw [hclick] at hcover hlong
  exact hcover.click hlong

def drawingPen : Pen := ⟨true, false, false, [], ⟨utf16 "#171717", .finite 8⟩⟩

def penPoint (x y : ℚ) : Json :=
  .obj [(utf16 "x", .num (.finite x)), (utf16 "y", .num (.finite y))]

def sampleStroke : List PenEvent :=
  [.frame, .pointerMove (penPoint (1 / 2) 0), .pointerMove (penPoint (1 / 2) 1), .frame]

theorem strokeSegments_cover_sample :
    Covers (strokeSegments drawingPen (penPoint 0 0) sampleStroke)
        (penPoint 0 0 :: captured sampleStroke) ∧
      (captured sampleStroke = [] →
        strokeSegments drawingPen (penPoint 0 0) sampleStroke = [[penPoint 0 0]]) := by
  apply strokeSegments_cover drawingPen (penPoint 0 0) sampleStroke rfl
  intro event he
  simp only [sampleStroke, List.mem_cons, List.not_mem_nil, or_false] at he
  rcases he with rfl | rfl | rfl | rfl
  · exact .frame
  · exact .move _
  · exact .move _
  · exact .frame

end GachaMind.Web
