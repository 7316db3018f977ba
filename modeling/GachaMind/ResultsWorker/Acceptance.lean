import GachaMind.GameSession.Contents
import GachaMind.ResultsWorker.Worker
import GachaMind.User.Refusals

/-!
# What user accepts

An event that the pipe refuses is dropped, and one that the transaction refuses is returned to
the queue, for ever where the refusal is for its content. For the events of game-session the
values that no check in between keeps from the columns are U+0000 in a nickname and numbers
beyond 32 bits.
-/

namespace GachaMind.ResultsWorker
open GachaMind.Js GachaMind.Shared GachaMind.GameSession GachaMind.User KeyedTable

/-- The clock shows a year of four digits. -/
def CommonEra (_ : Server) (i : Env × ServerInput) : Prop := FourDigits (i.1.now .finish)

instance (s : Server) (i : Env × ServerInput) : Decidable (CommonEra s i) :=
  inferInstanceAs (Decidable (FourDigits _))

theorem verdict_eq_ack {delivery : Delivery} :
    verdict delivery = .ack ↔ delivery ≠ .unavailable := by
  cases delivery <;> decide

section
variable [Postgres]

theorem deliver_recordGame (t : HistoryTables) (e : GameFinishedEvent) :
    deliver (some (recordGame t e).2) ≠ .unavailable ↔
      validate e = none ∨ ∃ dto, validate e = some dto ∧ (saveGameResult t dto).isSome := by
  rcases recordGame_cases t e with ⟨hv, he⟩ | ⟨dto, hv, ⟨hsave, he⟩ | ⟨t', isNew, hsave, he⟩⟩
  · rw [he]
    exact iff_of_true (fun h => by cases h) (.inl hv)
  · rw [he]
    refine iff_of_false (fun h => h rfl) fun h => ?_
    rcases h with hnone | ⟨dto', hv', hsome⟩
    · cases hv.symm.trans hnone
    · obtain rfl := Option.some.inj (hv.symm.trans hv')
      rw [hsave] at hsome
      cases hsome
  · rw [he]
    refine iff_of_true ?_ (.inr ⟨dto, hv, by rw [hsave]; rfl⟩)
    cases isNew <;> exact fun h => by cases h

/-- An event of game-session is acknowledged where the pipe refuses it or the columns take it. -/
theorem event_acked_iff [Runtime] (h : Documented) (self : ShardIdentity)
    (is : List (Env × ServerInput)) (s : Server) (os : List Effect)
    (hr : Machine.Run ((serverSystem self).restrict CommonEra) is s os)
    (e : GameFinishedEvent) (he : e ∈ publishedEvents os) (t : HistoryTables) (ht : t.Typed) :
    (deliver (some (recordGame t e).2) ≠ .unavailable ∧
      verdict (deliver (some (recordGame t e).2)) = .ack) ↔ Malformed e ∨ Storable t e := by
  obtain ⟨hb, hyear⟩ := run_bounded hr FourDigits (fun _ _ ha => ha) e he
  have hlength : e.players.length < 2 ^ 31 := lt_of_le_of_lt hb.length (by decide)
  have hranks : ∀ p ∈ e.players, p.rank < 2 ^ 31 :=
    fun p hp => lt_of_le_of_lt (hb.ranks p hp).2 hlength
  have hpipe := validate_eq_none hb.players fun p hp => (hb.ranks p hp).1
  rw [verdict_eq_ack, and_self, deliver_recordGame, hpipe]
  refine or_congr_right' fun hwell => ?_
  obtain ⟨dto, hv⟩ := Option.ne_none_iff_exists'.mp (mt hpipe.mp hwell)
  have hstored := saveGameResult_isSome h hv hb.roomId hyear hlength hb.scores hranks ht
  simp only [hv, Option.some.injEq, exists_eq_left', hstored]

end

theorem guestGame_acked : ∃ s os,
    Machine.Run ((@serverSystem plainRuntime plainShard).restrict CommonEra)
      (numbered (gameOfTwo none none (joinFrame "AB3DE"))) s os ∧
    ∃ e ∈ publishedEvents os, Malformed e ∨ @Storable plainPostgres .empty e := by
  have hrun : Machine.Run ((@serverSystem plainRuntime plainShard).restrict CommonEra)
      (numbered (gameOfTwo none none (joinFrame "AB3DE"))) _ _ :=
    Machine.exec_restrict_run (by decide +kernel)
  have htyped : HistoryTables.empty.Typed := fun row h => absurd h List.not_mem_nil
  refine ⟨_, _, hrun, List.head _ (by decide +kernel), List.head_mem _, ?_⟩
  exact (@event_acked_iff plainPostgres plainRuntime plainPostgres_documented plainShard _ _ _ hrun
    _ (List.head_mem _) .empty htyped).mp ⟨by decide +kernel, by decide +kernel⟩

/-- The frame of a guest whose nickname holds U+0000. -/
def nulFrame : Option Json :=
  some (.obj [(utf16 "type", .str (utf16 "join")), (utf16 "roomId", .str (utf16 "AB3DE")),
    (utf16 "nickname", .str [0x61, 0, 0x62])])

theorem nulNickname_requeued : ∃ s os,
    Machine.Run ((@serverSystem plainRuntime plainShard).restrict CommonEra)
      (numbered (gameOfTwo none none nulFrame)) s os ∧
    ∃ e ∈ publishedEvents os,
      deliver (some (@recordGame plainPostgres .empty e).2) = .unavailable ∧
      verdict (deliver (some (@recordGame plainPostgres .empty e).2)) = .nack :=
  ⟨_, _, Machine.exec_restrict_run (by decide +kernel), by decide +kernel⟩

end GachaMind.ResultsWorker
