import GachaMind.User.Members

/-!
# What a save stores

A save either finds the game and changes nothing, or adds the row of the game, and no statement
of it touches the ids of other games. `saveEach` is a history of saves that were all new.
-/

namespace GachaMind.User
open GachaMind.Js GachaMind.Shared KeyedTable

section
variable [Postgres]

/-- Events saved one after the other, each of them new. -/
def saveEach (t : HistoryTables) (events : List GameFinishedDto) : Option HistoryTables :=
  events.foldlM (fun t event =>
    (saveGameResult t event).bind fun r => if r.2 then some r.1 else none) t

theorem saveEach_snoc {t t' t'' : HistoryTables} {events : List GameFinishedDto}
    {event : GameFinishedDto} (h : saveEach t events = some t')
    (hsave : saveGameResult t' event = some (t'', true)) :
    saveEach t (events ++ [event]) = some t'' := by
  unfold saveEach at h ⊢
  rw [List.foldlM_append, h]
  simp [hsave]

theorem savePlayer_games {event : GameFinishedDto} {t t' : HistoryTables}
    {player : GameResultPlayerDto} (h : savePlayer event t player = some t') :
    t'.games = t.games := by
  obtain ⟨row, -, h⟩ := Option.bind_eq_some_iff.mp h
  cases hu : player.userId with
  | none =>
    simp only [hu, Option.pure_def] at h
    obtain rfl := Option.some.inj h
    rfl
  | some userId =>
    simp only [hu] at h
    obtain ⟨excluded, -, h⟩ := Option.bind_eq_some_iff.mp h
    exact (HistoryTables.upsertStats_get? h).1

theorem savePlayers_games {event : GameFinishedDto} (players : List GameResultPlayerDto) :
    ∀ {t t' : HistoryTables}, players.foldlM (savePlayer event) t = some t' →
      t'.games = t.games := by
  induction players with
  | nil =>
    intro t t' h
    obtain rfl := Option.some.inj h
    rfl
  | cons player players ih =>
    intro t t' h
    rw [List.foldlM_cons] at h
    obtain ⟨u, hu, h⟩ := Option.bind_eq_some_iff.mp h
    exact (ih h).trans (savePlayer_games hu)

theorem saveGameResult_cases {t t' : HistoryTables} {event : GameFinishedDto} {isNew : Bool}
    (h : saveGameResult t event = some (t', isNew)) :
    ∃ id, Postgres.uuid event.gameId.text = some id ∧
      (id ∈ t.games.keys ∧ isNew = false ∧ t' = t ∨
        id ∉ t.games.keys ∧ isNew = true ∧ t'.games.keys = t.games.keys ++ [id]) := by
  simp only [saveGameResult, insertGame, Option.bind_eq_bind, Option.bind_eq_some_iff] at h
  obtain ⟨r, ⟨g, hg, hr⟩, h⟩ := h
  refine ⟨g.id, (gameRow_spec hg).1, ?_⟩
  split_ifs at hr with hid
  · obtain rfl := Option.some.inj hr
    cases h
    exact .inl ⟨hid, rfl, rfl⟩
  · obtain rfl := Option.some.inj hr
    obtain ⟨u, hu, h⟩ := Option.bind_eq_some_iff.mp h
    cases h
    refine .inr ⟨hid, rfl, ?_⟩
    rw [savePlayers_games _ hu]
    simp [Table.keys, Table.insertNew]

/-- The games of the tables are those that were there and those that were saved, each once. -/
theorem saveEach_keys {t t' : HistoryTables} {events : List GameFinishedDto}
    (h : saveEach t events = some t') :
    ∃ ids, events.map (fun event => Postgres.uuid event.gameId.text) = ids.map some ∧
      t'.games.keys = t.games.keys ++ ids := by
  induction events using List.reverseRecOn generalizing t' with
  | nil =>
    obtain rfl := Option.some.inj h
    exact ⟨[], rfl, (List.append_nil _).symm⟩
  | append_singleton events event ih =>
    simp only [saveEach, List.foldlM_append, List.foldlM_cons, List.foldlM_nil,
      Option.bind_eq_bind, Option.bind_eq_some_iff, Option.pure_def, Option.some.injEq] at h
    obtain ⟨u, hu, v, ⟨r, hr, hnew⟩, rfl⟩ := h
    obtain ⟨ids, hids, hkeys⟩ := ih hu
    split_ifs at hnew with hr2
    obtain rfl := Option.some.inj hnew
    obtain ⟨v, isNew⟩ := r
    obtain ⟨id, hid, ⟨-, hold, -⟩ | ⟨-, -, hadd⟩⟩ := saveGameResult_cases hr
    · rw [hold] at hr2
      cases hr2
    · refine ⟨ids ++ [id], ?_, ?_⟩
      · rw [List.map_append, hids, List.map_append, List.map_singleton, hid, List.map_singleton]
      · rw [hadd, hkeys, List.append_assoc]

theorem saveEach_nodup {t t' : HistoryTables} {events : List GameFinishedDto}
    (h : saveEach t events = some t') :
    (events.map fun event => event.gameId.text).Nodup := by
  obtain ⟨ids, hids, hkeys⟩ := saveEach_keys h
  have hnodup : ids.Nodup := (List.nodup_append.mp (hkeys ▸ keys_nodup t'.games)).2.1
  have hread : ((events.map fun event => event.gameId.text).map Postgres.uuid).Nodup := by
    rw [List.map_map]
    exact hids ▸ hnodup.map (Option.some_injective _)
  exact hread.of_map _

end

end GachaMind.User
