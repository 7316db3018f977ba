import GachaMind.Lib.Ranking
import GachaMind.GameSession.Results

/-!
# Standard competition ranking (apps/game-session/src/game.ts)

The loop of `toResultPlayers` in closed form: over the sorted players, the rank it carries is
one more than the number of players above the score it carries.
-/

namespace GachaMind.GameSession
open GachaMind.Js GachaMind.Shared KeyedTable Ranking

def above (score : ℤ) (players : List Player) : ℕ :=
  players.countP fun p => decide (score < p.score)

theorem above_append (score : ℤ) (xs ys : List Player) :
    above score (xs ++ ys) = above score xs + above score ys :=
  List.countP_append

theorem above_eq_zero {score : ℤ} {players : List Player} (h : ∀ p ∈ players, p.score ≤ score) :
    above score players = 0 :=
  countP_eq_zero_of_le h

theorem above_eq_length {score : ℤ} {players : List Player} (h : ∀ p ∈ players, score < p.score) :
    above score players = players.length := by
  apply List.countP_eq_length.mpr
  intro p hp
  exact decide_eq_true (h p hp)

/-! ### The loop -/

/-- `rank` and `previousScore` after the players of `done`, the best first. -/
inductive Reached (done : List Player) : ℕ → Option ℤ → Prop
  | start (hdone : done = []) : Reached done 0 none
  | after {score : ℤ} (hmem : ∃ p ∈ done, p.score = score) (hle : ∀ p ∈ done, score ≤ p.score) :
      Reached done (above score done + 1) (some score)

/-- A new score is below all the earlier ones. -/
theorem Reached.index {done : List Player} {rank : ℕ} {previousScore : Option ℤ} {score : ℤ}
    (h : Reached done rank previousScore) (hle : ∀ p ∈ done, score ≤ p.score)
    (hnew : previousScore ≠ some score) : above score done = done.length := by
  apply above_eq_length
  intro p hp
  cases h with
  | start hdone =>
    rw [hdone] at hp
    cases hp
  | after hmem hprevious =>
    obtain ⟨q, hq, rfl⟩ := hmem
    have hlt : score < q.score := lt_of_le_of_ne (hle q hq) fun heq => hnew (by rw [heq])
    exact hlt.trans_le (hprevious p hp)

theorem Reached.same {done : List Player} {rank : ℕ} {score : ℤ}
    (h : Reached done rank (some score)) : rank = above score done + 1 := by
  cases h with
  | after _ _ => rfl

theorem Reached.next {done : List Player} {player : Player}
    (hle : ∀ p ∈ done, player.score ≤ p.score) :
    Reached (done ++ [player]) (above player.score done + 1) (some player.score) := by
  have hself : above player.score [player] = 0 := above_eq_zero (by simp)
  have hnext := @Reached.after (done ++ [player]) player.score ⟨player, by simp, rfl⟩ (by
    intro p hp
    rcases List.mem_append.mp hp with hp | hp
    · exact hle p hp
    · rw [List.mem_singleton.mp hp])
  rwa [above_append, hself, Nat.add_zero] at hnext

def resultOf (players : List Player) (p : Player) : GameResultPlayer :=
  ⟨p.id, p.userId, p.nickname, p.score, 1 + above p.score players⟩

theorem rankFrom_eq (players : List Player) : ∀ {done : List Player} {rank : ℕ}
    {previousScore : Option ℤ}, Reached done rank previousScore →
    Descending Player.score (done ++ players) →
    rankFrom done.length rank previousScore players =
      players.map (resultOf (done ++ players)) := by
  induction players with
  | nil =>
    intro done rank previousScore _ _
    rfl
  | cons player players ih =>
    intro done rank previousScore hreached hsorted
    obtain ⟨-, hrest, hcross⟩ := List.pairwise_append.mp hsorted
    have hle : ∀ p ∈ done, player.score ≤ p.score :=
      fun p hp => hcross p hp player List.mem_cons_self
    have hlower : ∀ p ∈ player :: players, p.score ≤ player.score := by
      intro p hp
      rcases List.mem_cons.mp hp with rfl | hp
      · exact le_rfl
      · exact (List.pairwise_cons.mp hrest).1 p hp
    have hrank : above player.score (done ++ player :: players) = above player.score done := by
      rw [above_append, above_eq_zero hlower, Nat.add_zero]
    have hsplit : done ++ player :: players = done ++ [player] ++ players := by simp
    have htail := ih (Reached.next hle) (hsplit ▸ hsorted)
    rw [← hsplit, List.length_append, List.length_singleton] at htail
    rw [rankFrom, List.map_cons, ← htail]
    by_cases hnew : previousScore = some player.score
    · subst hnew
      simp [hreached.same, resultOf, hrank, Nat.add_comm]
    · simp [hnew, resultOf, hrank, hreached.index hle hnew, Nat.add_comm]

theorem sortedByScore_descending (room : Room) :
    Descending Player.score (sortedByScore room) := by
  let le : Player → Player → Prop := fun x y => y.score ≤ x.score
  have htotal : Std.Total le := ⟨fun x y => le_total y.score x.score⟩
  have htrans : IsTrans Player le := ⟨fun x y z hxy hyz => le_trans hyz hxy⟩
  exact List.pairwise_insertionSort le room.players.rows

theorem sortedByScore_perm (room : Room) : (sortedByScore room).Perm room.players.rows :=
  List.perm_insertionSort _ _

theorem toResultPlayers_eq (room : Room) :
    toResultPlayers room = (sortedByScore room).map (resultOf room.players.rows) := by
  have h := rankFrom_eq (sortedByScore room) (.start rfl) (sortedByScore_descending room)
  rw [List.nil_append, List.length_nil] at h
  rw [toResultPlayers, h]
  apply List.map_congr_left
  intro p _
  simp only [resultOf, above, (sortedByScore_perm room).countP_eq]

/-! ### The ranking -/

/-- Standard competition ranking of players that come in join order. -/
structure RanksPlayers (players : List Player) (results : List GameResultPlayer) : Prop where
  each_once : (results.map fun r => (r.playerId, r.userId, r.nickname, r.score)).Perm
    (players.map fun p => (p.id, p.userId, p.nickname, p.score))
  sorted : results.Pairwise fun r s => s.score ≤ r.score
  ties : ∀ score : ℤ, (results.filter fun r => decide (r.score = score)).map (·.playerId) =
    (players.filter fun p => decide (p.score = score)).map Player.id
  rank : ∀ r ∈ results, r.rank = 1 + players.countP fun p => decide (r.score < p.score)
  /-- What `RANK()` computes over the scores. -/
  leaderboard : ∀ r ∈ results, r.rank = Ranking.rank Player.score players r.score

theorem toResultPlayers_ranks (room : Room) :
    RanksPlayers room.players.rows (toResultPlayers room) := by
  rw [toResultPlayers_eq]
  refine ⟨?_, ?_, ?_, ?_, ?_⟩
  · rw [List.map_map]
    exact (sortedByScore_perm room).map _
  · apply List.pairwise_map.mpr
    exact sortedByScore_descending room
  · intro score
    rw [List.filter_map, List.map_map]
    have hstable := filter_insertionSort Player.score room.players.rows score
    exact congrArg (List.map Player.id) hstable
  · intro r hr
    obtain ⟨p, -, rfl⟩ := List.mem_map.mp hr
    rfl
  · intro r hr
    obtain ⟨p, hp, rfl⟩ := List.mem_map.mp hr
    have hpeer : rank Player.score room.players.rows p.score = _ :=
      rank_eq_countP ⟨p, (sortedByScore_perm room).mem_iff.mp hp, rfl⟩
    rw [resultOf, hpeer, Nat.add_comm]
    rfl

end GachaMind.GameSession
