import Mathlib

/-!
# Polylines cut into overlapping segments

A polyline is handed over in segments, each starting at the point where the one before it
ended. Joining them drops the first point of every later segment.
-/

namespace Polyline

universe u

variable {α : Type u}

def join : List (List α) → List α
  | [] => []
  | segment :: later => segment ++ later.flatMap List.tail

/-- The segments hand over exactly these points, in this order. -/
structure Covers (segments : List (List α)) (points : List α) : Prop where
  nonempty : ∀ segment ∈ segments, segment ≠ []
  overlap : segments.IsChain fun before after => after.head? = before.getLast?
  joined : join segments = points

theorem join_concat {segments : List (List α)} (h : segments ≠ []) (segment : List α) :
    join (segments ++ [segment]) = join segments ++ segment.tail := by
  cases segments with
  | nil => exact absurd rfl h
  | cons first later => simp [join]

theorem Covers.single {segment : List α} (h : segment ≠ []) : Covers [segment] segment where
  nonempty s hs := by
    rw [List.mem_singleton.mp hs]
    exact h
  overlap := List.isChain_singleton _
  joined := List.append_nil _

/-- The next segment starts at the last point handed over. -/
theorem Covers.concat {segments : List (List α)} {points more : List α} {last : α}
    (h : Covers segments points) (hne : segments ≠ [])
    (hlast : segments.getLast?.bind List.getLast? = some last) :
    Covers (segments ++ [last :: more]) (points ++ more) where
  nonempty s hs := by
    rcases List.mem_append.mp hs with hs | hs
    · exact h.nonempty s hs
    · rw [List.mem_singleton.mp hs]
      exact List.cons_ne_nil _ _
  overlap := by
    apply List.isChain_append.mpr
    refine ⟨h.overlap, List.isChain_singleton _, ?_⟩
    intro before hbefore after hafter
    obtain rfl := Option.some.inj hafter
    have hend : before.getLast? = some last := by
      rw [Option.mem_def.mp hbefore, Option.bind_some] at hlast
      exact hlast
    rw [hend]
    rfl
  joined := by
    rw [join_concat hne, h.joined]
    rfl

/-- Segments of two points or more cannot cover a single point. -/
theorem Covers.click {segments : List (List α)} {point : α} (h : Covers segments [point])
    (hlong : segments = [[point]] ∨ ∀ segment ∈ segments, 2 ≤ segment.length) :
    segments = [[point]] := by
  rcases hlong with hone | hlong
  · exact hone
  · have hjoined := congrArg List.length h.joined
    cases segments with
    | nil => simp [join] at hjoined
    | cons first later =>
      have hfirst := hlong first List.mem_cons_self
      simp only [join, List.length_append, List.length_singleton] at hjoined
      omega

end Polyline
