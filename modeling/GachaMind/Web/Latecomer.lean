import GachaMind.Web.Canvas
import GachaMind.Web.GameView
import GachaMind.Web.Scoreboard

/-!
# Latecomers

Who has solved the round and which word it had reach a page only as they happen: the snapshot
says neither. A latecomer sees what the others see exactly when there is nothing of either to
be told.
-/

namespace GachaMind.Web
open GachaMind.Js GachaMind.Shared GachaMind.GameSession KeyedTable Replica

/-! ### What the pages show -/

def RoomSocket.Marked (c : RoomSocket) (id : Uuid) : Prop :=
  id ∈ c.players.map PlayerSummary.id ∧ id ∈ c.game.solvedIds

/-- Two pages show the same game. -/
structure SameGame (c c' : RoomSocket) : Prop where
  phase : c.game.phase = c'.game.phase
  round : c.game.round = c'.game.round
  totalRounds : c.game.totalRounds = c'.game.totalRounds
  drawerId : c.game.drawerId = c'.game.drawerId
  marked : ∀ id, c.Marked id ↔ c'.Marked id
  revealedWord : c.game.revealedWord = c'.game.revealedWord

/-- The part of the game that the snapshot leaves out. -/
structure Tally where
  solved : List Uuid
  revealed : Option JsString
  deriving DecidableEq

def Tally.blank : Tally := ⟨[], none⟩

def GameState.tally (game : GameState) : Tally := ⟨game.solvedIds, game.revealedWord⟩

def Tally.mark (k : Tally) : GameMark → Tally
  | .gameStarted _ => { k with revealed := none }
  | .roundStarted _ => Tally.blank
  | .correctAnswer playerId => { k with solved := k.solved ++ [playerId] }
  | .roundEnded _ word => { k with revealed := some word }
  | _ => k

/-! ### The players on the page -/

theorem ids_heard {env : Env} {room t : Room} {id : Uuid} {input : RoomInput}
    {ms : List ServerToClientMessage} {ks : List GameMark} (hs : Heard env room id input t ms ks)
    {players : List PlayerSummary} (h : players.map PlayerSummary.id = room.players.keys) :
    (ms.foldl playersAfter players).map PlayerSummary.id = t.players.keys := by
  cases hs with
  | aside hms => rwa [foldl_aside playersAfter_aside hms]
  | draw stroke _ =>
    rw [← summaries_ids (room.addStroke stroke), summaries_addStroke, summaries_ids]
    split_ifs <;> exact h
  | drawClear _ => split_ifs <;> exact h
  | @join _ _ _ player _ _ hnew _ hms =>
    rw [List.foldl_cons, foldl_aside playersAfter_aside hms, Room.seatPlayer_eq]
    show _ = (room.players.set player).keys
    rw [keys_set_of_new hnew]
    have hany : (players.any fun p => decide (p.id = player.id)) = false := by
      rw [List.any_eq_false]
      intro p hp hid
      rw [decide_eq_true_eq] at hid
      exact hnew (by rw [← h, ← hid]; exact List.mem_map_of_mem hp)
    simp [playersAfter, hany, h]
  | start _ _ =>
    show players.map PlayerSummary.id = (room.beginGame env).players.keys
    rw [keys_beginGame, h]
  | answer _ _ => exact summaries_ids _
  | lastAnswer _ _ => exact summaries_ids _
  | close _ => exact summaries_ids _
  | next _ => exact h
  | finish _ => exact summaries_ids _
  | @leave left _ _ _ hms =>
    rw [List.foldl_cons, foldl_aside playersAfter_aside hms]
    show (players.filter fun p => p.id ≠ left).map PlayerSummary.id = (room.players.erase left).keys
    rw [keys_erase, ← h, List.filter_map]
    rfl
  | leaveGame _ _ =>
    rw [List.foldl_append]
    exact summaries_ids _
  | leaveRound _ _ =>
    rw [List.foldl_append]
    exact summaries_ids _

/-! ### The tally on the page -/

theorem tally_heard {env : Env} {room t : Room} {id : Uuid} {input : RoomInput}
    {ms : List ServerToClientMessage} {ks : List GameMark} (hs : Heard env room id input t ms ks)
    (clock : ℕ → ℤ) (page : RoomSocket) :
    (pageAfter clock page ms).game.tally = ks.foldl Tally.mark page.game.tally := by
  cases hs with
  | aside hms => rw [game_pageAfter_aside hms, List.foldl_nil]
  | draw _ _ => split_ifs <;> rfl
  | drawClear _ => split_ifs <;> rfl
  | join _ _ _ hms =>
    rw [game_pageAfter_cons hms]
    rfl
  | @start drawer _ _ =>
    obtain ⟨word, hw⟩ := toldTo_word env (room.beginGame env) drawer id
    rw [hw]
    rfl
  | answer _ _ =>
    rw [pageAfter, replay_cons, replay_nil, game_correctAnswer]
    rfl
  | lastAnswer _ _ =>
    rw [pageAfter, replay_cons, replay_cons, replay_nil, game_roundEnded, game_correctAnswer]
    rfl
  | close _ =>
    rw [pageAfter, replay_cons, replay_nil, game_roundEnded]
    rfl
  | @next n drawer _ =>
    obtain ⟨word, hw⟩ := toldTo_word env (room.timerFired n) drawer id
    rw [hw]
    rfl
  | finish _ =>
    rw [pageAfter, replay_cons, replay_nil, game_gameEnded]
    rfl
  | leave hms =>
    rw [game_pageAfter_cons hms]
    rfl
  | @leaveGame left nickname count _ _ hms =>
    obtain ⟨before, now, hb, he⟩ := pageAfter_departure hms room.id left nickname count
      (.gameEnded (room.removePlayer left).summaries) clock page
    rw [he, game_gameEnded, hb]
    rfl
  | @leaveRound left nickname count _ _ hms =>
    obtain ⟨before, now, hb, he⟩ := pageAfter_departure hms room.id left nickname count
      (.roundEnded room.round (room.word.getD []) (room.removePlayer left).summaries) clock page
    rw [he, game_roundEnded, hb]
    rfl

/-! ### The tally of the room -/

/-- `id` is in the room or has yet to come. -/
def Staying (s : RoomState) (id : Uuid) : Prop := id ∈ s.issued → id ∈ s.room.players.keys

theorem keys_heard {env : Env} {room t : Room} {id : Uuid} {input : RoomInput}
    {ms : List ServerToClientMessage} {ks : List GameMark} (hs : Heard env room id input t ms ks)
    {l : Uuid} (hl : l ∈ t.players.keys) : l = env.uuid ∨ l ∈ room.players.keys := by
  cases hs with
  | draw stroke _ =>
    rw [← Room.map_fst_seats, addStroke_seats, Room.map_fst_seats] at hl
    exact .inr hl
  | join hu _ _ _ =>
    rw [Room.seatPlayer_eq] at hl
    rcases mem_keys_set.mp hl with hl | hl
    · exact .inl (hl.trans hu)
    · exact .inr hl
  | start _ _ =>
    have hbegun : l ∈ (room.beginGame env).players.keys := hl
    exact .inr (by simpa using hbegun)
  | answer _ _ => exact .inr (by simpa using hl)
  | @lastAnswer solver _ d _ _ _ =>
    have hscored : l ∈ (room.scoreGuess env solver.id d).players.keys := hl
    exact .inr (by simpa using hscored)
  | leave _ => exact .inr (mem_keys_erase.mp hl).1
  | leaveGame _ _ => exact .inr (mem_keys_erase.mp hl).1
  | leaveRound _ _ => exact .inr (mem_keys_erase.mp hl).1
  | _ => exact .inr hl

theorem Staying.of_heard {env : Env} {s t : RoomState} {id : Uuid} {input : RoomInput}
    {ms : List ServerToClientMessage} {ks : List GameMark}
    (hs : Heard env s.room id input t.room ms ks) (hu : env.uuid ∉ s.issued)
    (hissued : t.issued = env.uuid :: s.issued) {l : Uuid} (h : Staying t l) : Staying s l := by
  intro hl
  have hkey : l ∈ t.room.players.keys := h (by rw [hissued]; exact List.mem_cons_of_mem _ hl)
  rcases keys_heard hs hkey with rfl | hkey
  · exact absurd hl hu
  · exact hkey

/-- The page has been told what the room knows of the round. -/
structure Tallied (s : RoomState) (k : Tally) : Prop where
  solved : ∀ id, Staying s id → (id ∈ k.solved ↔ id ∈ s.room.solvedPlayerIds)
  revealed : k.revealed = none ↔ s.room.drawerId ≠ none

section
variable {s t : RoomState} {k : Tally}

theorem Tallied.of_room (h : Tallied s k) (hstay : ∀ id, Staying t id → Staying s id)
    (hsolved : t.room.solvedPlayerIds = s.room.solvedPlayerIds)
    (hd : t.room.drawerId = s.room.drawerId) : Tallied t k where
  solved id hid := by rw [hsolved, h.solved id (hstay id hid)]
  revealed := by rw [hd, h.revealed]

theorem Tallied.opened {d : Uuid} (hsolved : t.room.solvedPlayerIds = ∅)
    (hd : t.room.drawerId = some d) : Tallied t Tally.blank where
  solved id _ := by simp [hsolved, Tally.blank]
  revealed := by simp [hd, Tally.blank]

theorem Tallied.answered (h : Tallied s k) (hstay : ∀ id, Staying t id → Staying s id)
    {solver : Uuid} (hsolved : t.room.solvedPlayerIds = insert solver s.room.solvedPlayerIds)
    (hd : t.room.drawerId = s.room.drawerId) : Tallied t (k.mark (.correctAnswer solver)) where
  solved id hid := by
    have hk := h.solved id (hstay id hid)
    rw [hsolved, Finset.mem_insert, ← hk, Tally.mark, List.mem_append, List.mem_singleton, or_comm]
  revealed := by rw [hd, ← h.revealed]; rfl

theorem Tallied.closed (h : Tallied s k) (n : ℕ) (word : JsString)
    (hstay : ∀ id, Staying t id → Staying s id)
    (hsolved : t.room.solvedPlayerIds = s.room.solvedPlayerIds)
    (hd : t.room.drawerId = none) : Tallied t (k.mark (.roundEnded n word)) where
  solved id hid := by rw [hsolved, ← h.solved id (hstay id hid)]; rfl
  revealed := by simp [hd, Tally.mark]

theorem Tallied.left {left : Uuid} (h : Tallied s k) (hs : s.Inv)
    (hstay : ∀ id, Staying t id → Staying s id) (hissued : ∀ id ∈ s.issued, id ∈ t.issued)
    (hkeys : left ∉ t.room.players.keys)
    (hsolved : t.room.solvedPlayerIds = s.room.solvedPlayerIds.erase left)
    (hd : t.room.drawerId = s.room.drawerId) : Tallied t k where
  solved id hid := by
    rw [hsolved, Finset.mem_erase, h.solved id (hstay id hid), iff_and_self]
    rintro hmem rfl
    have hpresent := hs.coherent.consistent.solved_present id hmem
    exact hkeys (hid (hissued id (hs.players_issued id hpresent)))
  revealed := by rw [hd, h.revealed]

end

theorem tallied_heard {env : Env} {s t : RoomState} {id : Uuid} {input : RoomInput}
    {ms : List ServerToClientMessage} {ks : List GameMark} {last : Option Uuid} {k : Tally}
    (hi : s.Inv) (hs : Heard env s.room id input t.room ms ks) (hu : env.uuid ∉ s.issued)
    (hissued : t.issued = env.uuid :: s.issued)
    (h : last ≠ none → s.room.phase = .playing → Tallied s k)
    (hlast : ms.foldl drawerAfter last ≠ none) (hp : t.room.phase = .playing) :
    Tallied t (ks.foldl Tally.mark k) := by
  obtain ⟨room, issued⟩ := t
  have hstay : ∀ l, Staying ⟨room, issued⟩ l → Staying s l :=
    fun l hl => hl.of_heard hs hu hissued
  have hold : ∀ l ∈ s.issued, l ∈ issued := by
    intro l hl
    rw [show issued = env.uuid :: s.issued from hissued]
    exact List.mem_cons_of_mem _ hl
  dsimp only at hs hp
  generalize hr : s.room = r at hs
  cases hs with
  | aside hms =>
    rw [foldl_aside drawerAfter_aside hms] at hlast
    exact (h hlast (hr ▸ hp)).of_room hstay (by rw [hr]) (by rw [hr])
  | draw stroke _ =>
    obtain ⟨hsolved, hd, hphase⟩ := r.addStroke_frame stroke
    have hl : last ≠ none := by split_ifs at hlast <;> exact hlast
    rw [hphase] at hp
    exact (h hl (hr ▸ hp)).of_room hstay (by rw [hr, hsolved]) (by rw [hr, hd])
  | drawClear _ =>
    have hl : last ≠ none := by split_ifs at hlast <;> exact hlast
    exact (h hl (hr ▸ hp)).of_room hstay (by rw [hr]; rfl) (by rw [hr]; rfl)
  | join _ _ _ hms =>
    rw [List.foldl_cons, foldl_aside drawerAfter_aside hms] at hlast
    rw [Room.seatPlayer_eq] at hp hstay ⊢
    exact (h hlast (hr ▸ hp)).of_room hstay (by rw [hr]) (by rw [hr])
  | start _ _ => exact .opened rfl rfl
  | answer _ _ => exact (h hlast (hr ▸ hp)).answered hstay (by rw [hr]; rfl) (by rw [hr]; rfl)
  | @lastAnswer solver _ d _ _ _ =>
    have hstay' : ∀ l, Staying ⟨r.scoreGuess env solver.id d, issued⟩ l → Staying s l := hstay
    have hanswered : Tallied ⟨r.scoreGuess env solver.id d, issued⟩
        (k.mark (.correctAnswer solver.id)) :=
      (h hlast (hr ▸ hp)).answered hstay' (by rw [hr]; rfl) (by rw [hr]; rfl)
    exact hanswered.closed r.round _ (fun _ hl => hl) rfl rfl
  | close _ => exact (h hlast (hr ▸ hp)).closed r.round _ hstay (by rw [hr]; rfl) rfl
  | next _ => exact .opened rfl rfl
  | finish _ => cases hp
  | @leave left _ _ _ hms =>
    rw [List.foldl_cons, foldl_aside drawerAfter_aside hms] at hlast
    refine (h hlast (hr ▸ hp)).left hi hstay hold ?_ (by rw [hr]; rfl) (by rw [hr]; rfl)
    exact fun hmem => (mem_keys_erase.mp hmem).2 rfl
  | leaveGame _ _ => cases hp
  | @leaveRound left _ _ _ _ hms =>
    replace hlast : last ≠ none := by
      simpa [drawerAfter, foldl_aside drawerAfter_aside hms] using hlast
    have hleft : Tallied ⟨r.removePlayer left, issued⟩ k := by
      refine (h hlast (hr ▸ hp)).left hi hstay hold ?_ (by rw [hr]; rfl) (by rw [hr]; rfl)
      exact fun hmem => (mem_keys_erase.mp hmem).2 rfl
    exact hleft.closed r.round _ (fun _ hl => hl) rfl rfl

/-! ### Two pages -/

/-- The pages have been told the same of everybody who stays. -/
structure Agreed (s : RoomState) (k k' : Tally) : Prop where
  solved : ∀ id, Staying s id → (id ∈ k.solved ↔ id ∈ k'.solved)
  revealed : k.revealed = k'.revealed

theorem Agreed.mark {s : RoomState} {k k' : Tally} (h : Agreed s k k') (m : GameMark) :
    Agreed s (k.mark m) (k'.mark m) := by
  cases m with
  | gameStarted _ => exact ⟨h.solved, rfl⟩
  | roundStarted _ => exact ⟨fun _ _ => Iff.rfl, rfl⟩
  | correctAnswer solver =>
    refine ⟨fun id hid => ?_, h.revealed⟩
    have hk := h.solved id hid
    simp only [Tally.mark, List.mem_append, hk]
  | roundEnded _ _ => exact ⟨h.solved, rfl⟩
  | gameEnded _ => exact h
  | published _ => exact h

theorem Agreed.foldl {s : RoomState} {k k' : Tally} (h : Agreed s k k') (ks : List GameMark) :
    Agreed s (ks.foldl Tally.mark k) (ks.foldl Tally.mark k') := by
  induction ks generalizing k k' with
  | nil => exact h
  | cons m ks ih => exact ih (h.mark m)

section
variable [Runtime] {id : RoomId} {capacity : ℕ}

theorem reachable_ids {s : Clients} (hr : Machine.Reachable (clientSystem id capacity) s)
    {p : Uuid} {ms : List ServerToClientMessage} (hp : s.2 p = some ms) (clock : ℕ → ℤ)
    (page : RoomSocket) :
    (pageAfter clock page ms).players.map PlayerSummary.id = s.1.room.players.keys := by
  refine clients_rule (A := fun _ _ => True)
    (R := fun s _ _ page => page.players.map PlayerSummary.id = s.room.players.keys)
    (fun _ hr => reachable_inv hr) ?_ ?_ (hr.to_restrict fun _ _ => trivial) hp clock page
  · intro env s t player ms clock page _ _ _ _ _ hms
    rw [players_pageAfter, List.foldl_cons, foldl_aside playersAfter_aside hms]
    exact summaries_ids _
  · intro env input s inbox t p ns ms ks clock page _ _ _ _ hs hrel
    rw [players_pageAfter]
    exact ids_heard hs hrel

theorem reachable_tallied {s : Clients} (hr : Machine.Reachable (clientSystem id capacity) s)
    {p : Uuid} {ms : List ServerToClientMessage} (hp : s.2 p = some ms)
    (hlast : lastDrawer ms ≠ none)
    (hg : s.1.room.phase = .playing) (clock : ℕ → ℤ) (page : RoomSocket) :
    Tallied s.1 (pageAfter clock page ms).game.tally := by
  refine clients_rule (A := fun _ _ => True) (J := RoomState.Inv)
    (R := fun s _ ms page => lastDrawer ms ≠ none → s.room.phase = .playing →
      Tallied s page.game.tally)
    (fun _ hr => reachable_inv hr) ?_ ?_ (hr.to_restrict fun _ _ => trivial) hp clock page hlast hg
  · intro env s t player ms clock page _ _ _ _ _ hms hlast
    rw [lastDrawer, List.foldl_cons, foldl_aside drawerAfter_aside hms] at hlast
    exact absurd rfl hlast
  · intro env input s inbox t p ns ms ks clock page hi hu hissued _ hs hrel hlast hg
    rw [lastDrawer_append] at hlast
    rw [tally_heard hs]
    exact tallied_heard hi hs hu hissued hrel hlast hg

theorem client_step {s u : Clients} (hr : Machine.Reachable (clientSystem id capacity) s)
    {i : Env × RoomInput} {os : List Effect} (hs : (clientSystem id capacity).step s i u os)
    {p : Uuid} (hp : p ∈ s.1.issued) {ms : List ServerToClientMessage} (hm : u.2 p = some ms) :
    ∃ ns, s.2 p = some ns ∧ ms = ns ++ received p os ∧
      Heard i.1 s.1.room p i.2 u.1.room (received p os) ((marks os).filter isTold) := by
  obtain ⟨hstep, hinbox⟩ := hs
  have hi := reachable_inv hr.of_observe
  obtain ⟨hu, hroom, -⟩ := roomSystem_step hstep
  have htransition := roomStep_transition hi.coherent hroom
  rw [hinbox] at hm
  obtain ⟨hc, ⟨hmem, -⟩ | ⟨hmem, ns, hn, rfl⟩⟩ := Feed.deliver_eq_some hm
  · obtain ⟨player, rfl, huuid, -⟩ :=
      transition_joined htransition (of_decide_eq_true hc) (of_decide_eq_false hmem)
    exact absurd (huuid ▸ hp) hu
  · have hfresh : i.1.uuid ∉ s.1.room.players.keys := fun hid => hu (hi.players_issued _ hid)
    exact ⟨ns, hn, rfl, transition_heard htransition hfresh (of_decide_eq_true hc)
      (of_decide_eq_true hmem)⟩

/-- What two players have been told, if they are still connected. -/
def AgreedOn (p q : Uuid) (s : Clients) : Prop :=
  ∀ mp mq, s.2 p = some mp → s.2 q = some mq → ∀ clock page clock' page',
    Agreed s.1 (pageAfter clock page mp).game.tally (pageAfter clock' page' mq).game.tally

theorem agreed_step {s u : Clients} (hr : Machine.Reachable (clientSystem id capacity) s)
    {i : Env × RoomInput} {os : List Effect} (hs : (clientSystem id capacity).step s i u os)
    {p q : Uuid} (hp : p ∈ s.1.issued) (hq : q ∈ s.1.issued) (h : AgreedOn p q s) :
    AgreedOn p q u := by
  intro mp mq hmp hmq clock page clock' page'
  obtain ⟨np, hnp, rfl, hheard⟩ := client_step hr hs hp hmp
  obtain ⟨nq, hnq, rfl, hheard'⟩ := client_step hr hs hq hmq
  obtain ⟨hu, -, hissued⟩ := roomSystem_step hs.1
  rw [pageAfter_append, pageAfter_append, tally_heard hheard, tally_heard hheard']
  have hbefore := (h np nq hnp hnq clock page clock' page').foldl ((marks os).filter isTold)
  exact ⟨fun l hl => hbefore.solved l (hl.of_heard hheard hu hissued), hbefore.revealed⟩

theorem since_agreed {t : Clients} (ht : Machine.Reachable (clientSystem id capacity) t)
    {p q : Uuid} (hp : p ∈ t.1.issued) (hq : q ∈ t.1.issued) (h : AgreedOn p q t) {u : Clients}
    (hr : Machine.Reachable ((clientSystem id capacity).since t) u) : AgreedOn p q u := by
  refine (hr.invariant_of (J := Machine.Reachable (clientSystem id capacity))
    (I := fun u => p ∈ u.1.issued ∧ q ∈ u.1.issued ∧ AgreedOn p q u)
    (fun _ hr => Machine.Reachable.of_since ht hr) ?_ ?_).2.2
  · intro u hu
    obtain rfl := hu
    exact ⟨hp, hq, h⟩
  · intro s i u os hr hi hs
    obtain ⟨hp, hq, h⟩ := hi
    obtain ⟨-, -, hissued⟩ := roomSystem_step hs.1
    rw [hissued]
    exact ⟨List.mem_cons_of_mem _ hp, List.mem_cons_of_mem _ hq, agreed_step hr hs hp hq h⟩

theorem sameGame_of_agreed {u : Clients} (hr : Machine.Reachable (clientSystem id capacity) u)
    {p q : Uuid} (h : AgreedOn p q u) {mp mq : List ServerToClientMessage}
    (hmp : u.2 p = some mp) (hmq : u.2 q = some mq) (clock clock' : ℕ → ℤ)
    (page page' : RoomSocket) : SameGame (pageAfter clock page mp) (pageAfter clock' page' mq) := by
  have hf := reachable_follows hr hmp clock page
  have hf' := reachable_follows hr hmq clock' page'
  have hagreed := h mp mq hmp hmq clock page clock' page'
  refine ⟨hf.phase.trans hf'.phase.symm, hf.round.trans hf'.round.symm,
    hf.totalRounds.trans hf'.totalRounds.symm, hf.drawerId.trans hf'.drawerId.symm,
    fun l => ?_, hagreed.revealed⟩
  rw [RoomSocket.Marked, RoomSocket.Marked, reachable_ids hr hmp, reachable_ids hr hmq]
  exact and_congr_right fun hl => hagreed.solved l fun _ => hl

theorem newcomer_blank {s t : Clients} (hr : Machine.Reachable (clientSystem id capacity) s)
    {i : Env × RoomInput} {os : List Effect} (hs : (clientSystem id capacity).step s i t os)
    {q : Uuid} {ms : List ServerToClientMessage} (hnew : q ∉ s.1.room.players.keys)
    (hq : t.2 q = some ms) :
    (∃ player, t.1.room = seatPlayer s.1.room player) ∧
      ∀ clock page, (pageAfter clock page ms).game.tally = Tally.blank := by
  obtain ⟨hstep, hinbox⟩ := hs
  obtain ⟨-, hroom, -⟩ := roomSystem_step hstep
  have htransition := roomStep_transition (reachable_inv hr.of_observe).coherent hroom
  rw [hinbox] at hq
  obtain ⟨hc, ⟨-, rfl⟩ | ⟨hmem, -⟩⟩ := Feed.deliver_eq_some hq
  · obtain ⟨player, -, -, -, hseat, ns, hns, hreceived⟩ :=
      transition_joined htransition (of_decide_eq_true hc) hnew
    refine ⟨⟨player, hseat⟩, fun clock page => ?_⟩
    show (pageAfter clock page (received q os)).game.tally = _
    rw [hreceived, game_pageAfter_cons hns]
    rfl
  · exact absurd (of_decide_eq_true hmem) hnew

theorem inbox_issued {s t : Clients} (hr : Machine.Reachable (clientSystem id capacity) s)
    {i : Env × RoomInput} {os : List Effect} (hs : (clientSystem id capacity).step s i t os)
    {p : Uuid} {ms : List ServerToClientMessage} (hp : t.2 p = some ms) : p ∈ t.1.issued := by
  have hi := reachable_inv (hr.step hs).of_observe
  obtain ⟨-, hinbox⟩ := hs
  rw [hinbox] at hp
  obtain ⟨hc, -⟩ := Feed.deliver_eq_some hp
  exact hi.players_issued p (Online.present (of_decide_eq_true hc))

/-- From `t` on until the next round starts, the pages of `p` and `q` show the same game. -/
def AlikeInRound (id : RoomId) (capacity : ℕ) (t : Clients) (p q : Uuid) : Prop :=
  ∀ is u os, Machine.Run ((clientSystem id capacity).since t) is u os →
    (∀ n, GameMark.roundStarted n ∉ marks os) →
      ∀ mp mq, u.2 p = some mp → u.2 q = some mq → ∀ clock page clock' page',
        SameGame (pageAfter clock page mp) (pageAfter clock' page' mq)

/-- A latecomer `q` to a game sees what a player `p` sees who was told of a round, exactly when
it comes into a round that nobody in the room has solved. -/
theorem latecomer_alike (id : RoomId) (capacity : ℕ) (s t : Clients)
    (hr : Machine.Reachable (clientSystem id capacity) s) (i : Env × RoomInput) (os : List Effect)
    (hs : (clientSystem id capacity).step s i t os) (hg : s.1.room.phase = .playing)
    (q : Uuid) (mq : List ServerToClientMessage) (hnew : q ∉ s.1.room.players.keys)
    (hq : t.2 q = some mq) (p : Uuid) (mp : List ServerToClientMessage) (hp : t.2 p = some mp)
    (hround : lastDrawer mp ≠ none) :
    AlikeInRound id capacity t p q ↔
      s.1.room.drawerId ≠ none ∧ s.1.room.solvedPlayerIds = ∅ := by
  have ht := hr.step hs
  obtain ⟨⟨player, hseat⟩, hblank⟩ := newcomer_blank hr hs hnew hq
  rw [Room.seatPlayer_eq] at hseat
  have hphase : t.1.room.phase = .playing := by rw [hseat]; exact hg
  have hdrawer : t.1.room.drawerId = s.1.room.drawerId := by rw [hseat]
  have hsolved : t.1.room.solvedPlayerIds = s.1.room.solvedPlayerIds := by rw [hseat]
  rw [← hdrawer, ← hsolved]
  constructor
  · intro halike
    have hsame := halike [] t [] (.nil rfl) (fun _ hmem => by cases hmem) mp mq hp hq
      (fun _ => 0) {} (fun _ => 0) {}
    have htallied := reachable_tallied ht hp hround hphase (fun _ => 0) {}
    have hshown := hblank (fun _ => 0) {}
    refine ⟨htallied.revealed.mp ?_, Finset.eq_empty_iff_forall_notMem.mpr fun l hl => ?_⟩
    · exact hsame.revealedWord.trans (congrArg Tally.revealed hshown)
    · have hi := reachable_inv ht.of_observe
      have hpresent := hi.coherent.consistent.solved_present l hl
      have hmark := (hsame.marked l).mp
        ⟨by rwa [reachable_ids ht hp], (htallied.solved l fun _ => hpresent).mpr hl⟩
      have hmember : l ∈ Tally.blank.solved := hshown ▸ hmark.2
      cases hmember
  · intro hclear
    obtain ⟨hd, hnone⟩ := hclear
    have hagreed : AgreedOn p q t := by
      intro mp' mq' hp' hq' clock page clock' page'
      obtain rfl := Option.some.inj (hp.symm.trans hp')
      obtain rfl := Option.some.inj (hq.symm.trans hq')
      have htallied := reachable_tallied ht hp hround hphase clock page
      rw [hblank]
      refine ⟨fun l hl => ?_, htallied.revealed.mpr hd⟩
      rw [htallied.solved l hl, hnone]
      simp [Tally.blank]
    intro is u os hu _ mp' mq' hp' hq' clock page clock' page'
    have hsince : Machine.Reachable ((clientSystem id capacity).since t) u := ⟨is, os, hu⟩
    have hlater := since_agreed ht (inbox_issued hr hs hp) (inbox_issued hr hs hq) hagreed hsince
    exact sameGame_of_agreed (Machine.Reachable.of_since ht hsince) hlater hp' hq' _ _ _ _

end

/-! ### Latecomers on fixed inputs -/

instance (c : RoomSocket) (id : Uuid) : Decidable (c.Marked id) :=
  inferInstanceAs (Decidable (_ ∧ _))

/-- A third player joins right after the start. -/
theorem thirdJoin_alike : ∃ s os t ps, Machine.Run plainClients (numbered twoStart) s os ∧
    plainClients.step s (plainEnv 3, .join 2 none (utf16 "c")) t ps ∧
      @AlikeInRound plainRuntime (utf16 "AB3DE") DEFAULT_ROOM_CAPACITY t ⟨0⟩ ⟨3⟩ :=
  ⟨_, _, _, _, Machine.exec_observe_run (by decide +kernel),
    Machine.observeStep_step (by decide +kernel),
    (@latecomer_alike plainRuntime _ _ _ _ ⟨_, _, Machine.exec_observe_run (by decide +kernel)⟩
      _ _ (Machine.observeStep_step (by decide +kernel)) (by decide +kernel) _ _
      (by decide +kernel) (Option.some_get (by decide +kernel)).symm _ _
      (Option.some_get (by decide +kernel)).symm (by decide +kernel)).mpr
        ⟨by decide +kernel, by decide +kernel⟩⟩

def threeStart : List RoomInput :=
  [.join 0 none (utf16 "a"), .join 1 none (utf16 "b"), .join 2 none (utf16 "c"), .startGame]

/-- A fourth player comes into a round that the first one has solved, or into the intermission
after it. -/
theorem fourthJoin_unlike :
    (∃ s os mp mq, Machine.Run plainClients (numbered (threeStart ++
        [.chat ⟨0⟩ (some (.str (utf16 "사과"))), .join 3 none (utf16 "d")])) s os ∧
      s.1.room.phase = .playing ∧ s.1.room.drawerId ≠ some ⟨0⟩ ∧ s.2 ⟨0⟩ = some mp ∧
      lastDrawer mp ≠ none ∧ s.2 ⟨5⟩ = some mq ∧
      ¬ SameGame (pageAfter (fun _ => 0) {} mp) (pageAfter (fun _ => 0) {} mq)) ∧
    ∃ s os mp mq, Machine.Run plainClients (numbered (threeStart ++
        [.timer 0, .join 3 none (utf16 "d")])) s os ∧
      s.1.room.phase = .playing ∧ s.1.room.drawerId ≠ some ⟨0⟩ ∧ s.2 ⟨0⟩ = some mp ∧
      lastDrawer mp ≠ none ∧ s.2 ⟨5⟩ = some mq ∧
      ¬ SameGame (pageAfter (fun _ => 0) {} mp) (pageAfter (fun _ => 0) {} mq) := by
  constructor
  · refine ⟨_, _, _, _, Machine.exec_observe_run (by decide +kernel), by decide +kernel,
      by decide +kernel, (Option.some_get (by decide +kernel)).symm, by decide +kernel,
      (Option.some_get (by decide +kernel)).symm, fun hsame => ?_⟩
    exact absurd ((hsame.marked ⟨0⟩).mp (by decide +kernel)) (by decide +kernel)
  · refine ⟨_, _, _, _, Machine.exec_observe_run (by decide +kernel), by decide +kernel,
      by decide +kernel, (Option.some_get (by decide +kernel)).symm, by decide +kernel,
      (Option.some_get (by decide +kernel)).symm, fun hsame => ?_⟩
    exact absurd hsame.revealedWord (by decide +kernel)

end GachaMind.Web
