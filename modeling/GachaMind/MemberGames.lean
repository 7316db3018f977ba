import GachaMind.GameSession.Publications
import GachaMind.User.Members

/-!
# The games of a member, from the room to the totals

A room seats a connection, whoever its user is, so a user with two connections in a room has
two entries in the result and the upsert counts the game twice. Where no game ends with two
players of one user, the totals count the distinct games.
-/

namespace GachaMind
open Js Shared KeyedTable GameSession User

/-! ### Users of a room -/

def ServerInput.timerRoom : ServerInput → Option RoomId
  | .timer roomId _ => some roomId
  | _ => none

section
variable [Postgres]

def UsersApart (userIds : List (Option JsString)) : Prop := (userIds.filterMap userOf).Nodup

instance (userIds : List (Option JsString)) : Decidable (UsersApart userIds) :=
  inferInstanceAs (Decidable (List.Nodup _))

theorem UsersApart.perm {userIds userIds' : List (Option JsString)} (h : UsersApart userIds)
    (hp : userIds'.Perm userIds) : UsersApart userIds' :=
  (hp.filterMap userOf).nodup_iff.mpr h

theorem usersApart_of_length {userIds : List (Option JsString)} (h : userIds.length ≤ 1) :
    UsersApart userIds := by
  match userIds with
  | [] => exact List.nodup_nil
  | [userId] =>
    unfold UsersApart
    cases hu : userOf userId with
    | none => simp [hu]
    | some user => simp [hu]

/-- A timer ends no game in which two players have one user. -/
def EndsApart (s : Server) (i : Env × ServerInput) : Prop :=
  ∀ room ∈ s.rooms.rows, ServerInput.timerRoom i.2 = some room.id → room.phase = .playing →
    room.drawerId = none → room.drawerQueue = [] →
      UsersApart (room.players.rows.map Player.userId)

instance (s : Server) (i : Env × ServerInput) : Decidable (EndsApart s i) :=
  inferInstanceAs (Decidable (∀ room ∈ s.rooms.rows, _ → _))

/-! ### Users of an event -/

theorem published_usersApart {env : Env} {room t : Room} {inside : RoomInput}
    {ms : List GameMark} (hs : GameStep env room inside t ms)
    (hend : ∀ n, inside = .timer n → room.phase = .playing → room.drawerId = none →
      room.drawerQueue = [] → UsersApart (room.players.rows.map Player.userId)) :
    ∀ e ∈ ms.filterMap GameMark.event?, UsersApart (e.players.map GameResultPlayer.userId) := by
  have hresult : ∀ r : Room, UsersApart (r.players.rows.map Player.userId) →
      UsersApart ((toResultPlayers r).map GameResultPlayer.userId) :=
    fun r h => h.perm (toResultPlayers_map (fun _ _ => rfl) r)
  cases hs with
  | gameOver hi hq hg =>
    intro e he
    obtain rfl := List.mem_singleton.mp he
    exact hresult _ (hend _ rfl hi.phase hi.drawerId hq)
  | leaveGame hp hsize hg =>
    intro e he
    obtain rfl := List.mem_singleton.mp he
    refine hresult _ (usersApart_of_length ?_)
    rw [List.length_map]
    exact Nat.lt_succ_iff.mp hsize
  | _ => exact fun e he => absurd he List.not_mem_nil

section
variable [Runtime] {self : ShardIdentity}

theorem run_usersApart {is : List (Env × ServerInput)} {s : Server} {os : List Effect}
    (hr : Machine.Run ((serverSystem self).restrict EndsApart) is s os) :
    ∀ e ∈ publishedEvents os, UsersApart (e.players.map GameResultPlayer.userId) := by
  have houtputs : ∀ o ∈ os, ∀ e, o = .publishGameEvent e →
      UsersApart (e.players.map GameResultPlayer.userId) := by
    refine hr.outputs fun s i t ps hreach hs o ho e he => ?_
    subst he
    obtain ⟨hends, hs⟩ := hs
    have hrun := server_room_reachable hreach.of_restrict
    obtain ⟨u, room, r, inside, ls, hrow, hstep, hmem, htimer⟩ :=
      server_published hrun hs (mem_publishedEvents.mpr ho)
    rw [publishedEvents_eq] at hmem
    refine published_usersApart ((hrun room hrow).gameStep hstep) (fun n hn => ?_) e hmem
    exact hends room hrow (by rw [htimer n hn]; rfl)
  exact fun e he => houtputs _ (mem_publishedEvents.mp he) e rfl

end

/-! ### What the pipe lets pass -/

theorem validate_membersOnce {event : GameFinishedEvent} {dto : GameFinishedDto}
    (h : validate event = some dto)
    (hu : UsersApart (event.players.map GameResultPlayer.userId)) : dto.MembersOnce := by
  intro member
  obtain ⟨-, hplayers⟩ := validate_spec h
  have hlisted : ∀ player row, validatePlayer player = some row →
      listed member row = decide (userOf player.userId = some member) := by
    intro player row hrow
    rw [listed, validatePlayer_member hrow]
  rw [countP_mapM hlisted hplayers]
  have hcount := List.nodup_iff_count_le_one.mp hu member
  rw [List.count, List.countP_filterMap, List.countP_map] at hcount
  refine le_trans (le_of_eq (List.countP_congr fun player _ => ?_)) hcount
  cases hp : userOf player.userId with
  | none => simp [hp]
  | some user => simp [hp]

theorem validated_idsApart (huuid : ∀ u, Postgres.uuid (uuidText u) = some u)
    {log : List GameFinishedEvent} (hlog : (log.map GameFinishedEvent.gameId).Nodup)
    {events : List GameFinishedDto}
    (hevents : ∀ dto ∈ events, ∃ e ∈ log, validate e = some dto) : IdsApart events := by
  intro dto hd dto' hd' hid
  obtain ⟨e, he, hv⟩ := hevents dto hd
  obtain ⟨e', he', hv'⟩ := hevents dto' hd'
  rw [(validate_spec hv).1, (validate_spec hv').1, huuid, huuid] at hid
  obtain rfl := List.inj_on_of_nodup_map hlog he he' (Option.some.inj hid)
  exact Option.some.inj (hv.symm.trans hv')

/-- Where no game ends with two players of one user, the totals of a member are its distinct
games, and one more game adds one. -/
theorem member_games [Runtime] {self : ShardIdentity}
    (huuid : ∀ u, Postgres.uuid (uuidText u) = some u)
    (is : List (Env × ServerInput)) (s : Server) (os : List Effect)
    (hr : Machine.Run ((serverSystem self).restrict EndsApart) is s os)
    (events : List GameFinishedDto)
    (hevents : ∀ dto ∈ events, ∃ e ∈ publishedEvents os, validate e = some dto)
    (t : HistoryTables) (h : saveAll events = some t) (member : Uuid) :
    t.gamesPlayed member = (gamesWith (listed member) events).card ∧
    t.wins member = (gamesWith (won member) events).card ∧
    t.wins member ≤ t.gamesPlayed member ∧
    ∀ e ∈ publishedEvents os, ∀ dto t' isNew, validate e = some dto → dto ∉ events →
      saveGameResult t dto = some (t', isNew) →
      t'.gamesPlayed member =
        t.gamesPlayed member + if dto.players.any (listed member) then 1 else 0 := by
  have hnodup := (server_games_apart hr.of_restrict).once
  have hcount : ∀ {events : List GameFinishedDto} {t : HistoryTables},
      (∀ dto ∈ events, ∃ e ∈ publishedEvents os, validate e = some dto) →
      saveAll events = some t →
      t.gamesPlayed member = (gamesWith (listed member) events).card ∧
        t.wins member = (gamesWith (won member) events).card := by
    intro events t hevents h
    refine members_counted h (validated_idsApart huuid hnodup hevents) (fun dto hd => ?_) member
    obtain ⟨e, he, hv⟩ := hevents dto hd
    exact validate_membersOnce hv (run_usersApart hr e he)
  obtain ⟨hplayed, hwins⟩ := hcount hevents h
  refine ⟨hplayed, hwins, ?_, fun e he dto t' isNew hv hnew hsave => ?_⟩
  · rw [hplayed, hwins]
    exact_mod_cast Finset.card_le_card (gamesWith_won_subset member events)
  · have hevents' : ∀ d ∈ events ++ [dto], ∃ e ∈ publishedEvents os, validate e = some d := by
      intro d hd
      rcases List.mem_append.mp hd with hd | hd
      · exact hevents d hd
      · exact ⟨e, he, List.mem_singleton.mp hd ▸ hv⟩
    have hids := validated_idsApart huuid hnodup hevents'
    have htext : ∀ d ∈ events, d.gameId.text ≠ dto.gameId.text := by
      intro d hd hsame
      refine hnew (hids d (List.mem_append_left _ hd) dto (by simp) ?_ ▸ hd)
      rw [hsame]
    have hplayed' := (hcount hevents' (saveAll_snoc h hsave)).1
    rw [hplayed', hplayed, gamesWith_snoc htext]
    split_ifs <;> simp

end

/-! ### Two connections of one user -/

def accountOf (n : ℕ) : Identity :=
  ⟨uuidText ⟨BitVec.ofNat 128 n⟩, utf16 "u", utf16 "a"⟩

/-- The users `a` and `b` join one room and play a game. -/
def playTogether (a b : Identity) : List ServerInput :=
  gameOfTwo (some a) (some b) (joinFrame "AB3DE")

/-- One user in two seats: the game of the two counts twice. -/
theorem twoSeats_countTwice : ∃ s os events t,
    Machine.Run (@serverSystem plainRuntime plainShard)
      (numbered (playTogether (accountOf 7) (accountOf 7))) s os ∧
    (publishedEvents os).mapM validate = some events ∧
    @saveAll plainPostgres events = some t ∧
    (@gamesWith (@listed plainPostgres ⟨7⟩) events).card = 1 ∧
    t.gamesPlayed ⟨7⟩ = 2 ∧ t.wins ⟨7⟩ = 2 :=
  ⟨_, _, _, _, Machine.exec_get_run (by decide +kernel), (Option.some_get (by decide +kernel)).symm,
    (Option.some_get (by decide +kernel)).symm, by decide +kernel, by decide +kernel,
    by decide +kernel⟩

theorem twoUsers_countOnce : ∃ s os events t,
    Machine.Run ((@serverSystem plainRuntime plainShard).restrict (@EndsApart plainPostgres))
      (numbered (playTogether (accountOf 7) (accountOf 8))) s os ∧
    (publishedEvents os).mapM validate = some events ∧
    @saveAll plainPostgres events = some t ∧ t.gamesPlayed ⟨7⟩ = 1 ∧
    t.gamesPlayed ⟨7⟩ = (@gamesWith (@listed plainPostgres ⟨7⟩) events).card := by
  have hrun : Machine.Run ((@serverSystem plainRuntime plainShard).restrict
      (@EndsApart plainPostgres)) (numbered (playTogether (accountOf 7) (accountOf 8))) _ _ :=
    Machine.exec_restrict_run (by decide +kernel)
  refine ⟨_, _, _, _, hrun, (Option.some_get (by decide +kernel)).symm,
    (Option.some_get (by decide +kernel)).symm, by decide +kernel, ?_⟩
  exact (@member_games plainPostgres plainRuntime plainShard plainPostgres_uuid _ _ _ hrun _
    (fun dto hd => exists_of_mapM (Option.some_get _).symm hd) _ (Option.some_get _).symm ⟨7⟩).1

end GachaMind
