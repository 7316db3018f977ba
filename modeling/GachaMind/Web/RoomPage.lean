import GachaMind.Web.Latecomer

/-!
# What the page offers (apps/web/src/app/room/[roomId]/page.tsx, RoundBanner.tsx)

The canvas can be drawn on, the start button can be pressed and the word can be read exactly
where the room accepts strokes, starts a game and has told the word.
-/

namespace GachaMind.Web
open GachaMind.Js GachaMind.Shared GachaMind.GameSession KeyedTable Replica

/-! ### The components -/

/-- `Boolean(me && game.drawerId === me.id)`. -/
def RoomSocket.isDrawer (c : RoomSocket) : Bool :=
  c.me.any fun me => decide (c.game.drawerId = some me.id)

/-- The `canDraw` that the page gives to the canvas. -/
def RoomSocket.canDraw (c : RoomSocket) : Bool := c.isDrawer && decide (c.game.phase = .playing)

/-- `game.roundEndsAt && <RoundTimer endsAt={game.roundEndsAt} />`. -/
def roundTimer (game : GameState) : Option ℤ := game.roundEndsAt.filter (· ≠ 0)

/-- `Array(game.wordLength).fill("_").join(" ")`. -/
def hintText (wordLength : Option ℕ) : JsString :=
  (utf16 " ").intercalate (List.replicate (wordLength.getD 0) (utf16 "_"))

inductive RoundBanner where
  | idle (phase : GamePhase) (canStart : Bool)
  | revealed (round : ℕ) (word : JsString)
  | drawing (round totalRounds : ℕ) (word : Option JsString) (endsAt : Option ℤ)
  | guessing (round totalRounds : ℕ) (hint : JsString) (drawerNickname : Option JsString)
      (endsAt : Option ℤ)
  deriving DecidableEq

def roundBanner (game : GameState) (isDrawer : Bool) (playerCount : ℕ) : RoundBanner :=
  if game.phase = .waiting ∨ game.phase = .ended then
    .idle game.phase (decide (MIN_PLAYERS_TO_START ≤ playerCount))
  else if game.revealedWord.getD [] ≠ [] then
    .revealed game.round (game.revealedWord.getD [])
  else if isDrawer then
    .drawing game.round game.totalRounds game.word (roundTimer game)
  else
    .guessing game.round game.totalRounds (hintText game.wordLength) game.drawerNickname
      (roundTimer game)

def RoomSocket.banner (c : RoomSocket) : RoundBanner :=
  roundBanner c.game c.isDrawer c.players.length

/-- The button that sends `start-game` is there and enabled. -/
def RoundBanner.offersStart : RoundBanner → Bool
  | .idle _ canStart => canStart
  | _ => false

theorem offersStart_banner (c : RoomSocket) : c.banner.offersStart = true ↔
    c.game.phase ≠ .playing ∧ MIN_PLAYERS_TO_START ≤ c.players.length := by
  unfold RoomSocket.banner roundBanner
  cases c.game.phase <;> simp only [reduceCtorEq, or_false, or_true, if_true, if_false]
  · simp [RoundBanner.offersStart]
  · split_ifs <;> simp [RoundBanner.offersStart]
  · simp [RoundBanner.offersStart]

/-! ### Who draws -/

def nicknames (room : Room) : List (Uuid × JsString) :=
  room.players.rows.map fun p => (p.id, p.nickname)

theorem mem_nicknames {room : Room} {p : Player} (h : p ∈ room.players.rows) :
    (p.id, p.nickname) ∈ nicknames room := List.mem_map.mpr ⟨p, h, rfl⟩

theorem nicknames_addScore (room : Room) (id : Uuid) (points : ℤ) :
    nicknames (addScore room id points) = nicknames room := by
  simp only [nicknames, addScore, rows_modify, List.map_map]
  apply List.map_congr_left
  intro p _
  simp only [Function.comp_apply]
  split_ifs <;> rfl

theorem nicknames_scoreGuess (env : Env) (room : Room) (solver d : Uuid) :
    nicknames (room.scoreGuess env solver d) = nicknames room := by
  rw [Room.scoreGuess, nicknames_addScore, nicknames_addScore]
  rfl

theorem mem_nicknames_removePlayer {room : Room} {left : Uuid} {n : Uuid × JsString}
    (h : n ∈ nicknames (room.removePlayer left)) : n ∈ nicknames room := by
  obtain ⟨p, hp, rfl⟩ := List.mem_map.mp h
  exact mem_nicknames (List.mem_of_mem_filter hp)

theorem nicknames_inj {room : Room} {d : Uuid} {n n' : JsString} (h : (d, n) ∈ nicknames room)
    (h' : (d, n') ∈ nicknames room) : n = n' := by
  obtain ⟨p, hp, he⟩ := List.mem_map.mp h
  obtain ⟨q, hq, he'⟩ := List.mem_map.mp h'
  simp only [Prod.mk.injEq] at he he'
  rw [← he.2, ← he'.2, rows_inj hp hq (he.1.trans he'.1.symm)]

/-- The opening that an effect announces. -/
def opening? : Effect → Option RoundStartedMessage
  | .broadcast (.roundStarted m) _ => some m
  | .send _ (.roundStarted m) => some m
  | _ => none

def openings (os : List Effect) : List RoundStartedMessage := os.filterMap opening?

theorem openings_aside {os : List Effect} (h : ∀ e ∈ os, e.Aside) : openings os = [] := by
  rw [openings, List.filterMap_eq_nil_iff]
  intro e he
  have haside := h e he
  cases e with
  | broadcast message _ => cases message <;> first | rfl | exact haside.elim
  | send _ _ => exact haside.elim
  | _ => rfl

/-- The room has the drawer that the message names. -/
def Announces (room : Room) (m : RoundStartedMessage) : Prop :=
  room.drawerId = some m.drawerId ∧ (m.drawerId, m.drawerNickname) ∈ nicknames room

theorem openings_openEffects {env : Env} {room : Room} {drawer : Player}
    (hd : drawer ∈ room.players.rows) {m : RoundStartedMessage}
    (h : m ∈ openings (room.openEffects env drawer)) :
    Announces (room.openRound env drawer) m := by
  have hmem : (drawer.id, drawer.nickname) ∈ nicknames (room.openRound env drawer) :=
    mem_nicknames hd
  obtain ⟨e, he, hm⟩ := List.mem_filterMap.mp h
  simp only [Room.openEffects, Room.send, List.mem_cons] at he
  rcases he with rfl | rfl | he
  · cases hm
  · cases hm
    exact ⟨rfl, hmem⟩
  · rw [get?_of_mem hd] at he
    simp only at he
    split_ifs at he
    · rw [List.mem_singleton.mp he] at hm
      cases hm
      exact ⟨rfl, hmem⟩
    · exact absurd he List.not_mem_nil

theorem openings_append (os ps : List Effect) :
    openings (os ++ ps) = openings os ++ openings ps := List.filterMap_append

theorem openings_welcome (env : Env) (room : Room) (player : Player) :
    openings (welcome env room player) = [] := by
  unfold welcome Room.send
  cases room.players.get? player.id with
  | none => rfl
  | some _ => dsimp only; split_ifs <;> rfl

theorem transition_announces {env : Env} {room t : Room} {input : RoomInput} {os : List Effect}
    (hs : Transition env room input t os) {m : RoundStartedMessage} (hm : m ∈ openings os) :
    Announces t m := by
  cases hs with
  | aside _ ho => simp [openings_aside ho] at hm
  | draw _ _ _ => exact absurd hm List.not_mem_nil
  | drawClear _ _ => exact absurd hm List.not_mem_nil
  | join _ =>
    rw [openings, List.filterMap_cons_none rfl, ← openings, openings_welcome] at hm
    exact absurd hm List.not_mem_nil
  | start _ _ _ hd => exact openings_openEffects hd hm
  | guess _ _ _ _ _ => exact absurd hm List.not_mem_nil
  | lastGuess _ _ _ _ _ => exact absurd hm List.not_mem_nil
  | timeUp _ _ => exact absurd hm List.not_mem_nil
  | nextRound _ _ _ hd => exact openings_openEffects hd hm
  | gameOver _ _ _ _ => exact absurd hm List.not_mem_nil
  | leave _ => exact absurd hm List.not_mem_nil
  | leaveGame _ _ _ ho =>
    rw [openings_append, openings_append, openings_aside ho] at hm
    exact absurd hm List.not_mem_nil
  | leaveRound _ _ ho =>
    rw [openings_append, openings_append, openings_aside ho] at hm
    exact absurd hm List.not_mem_nil
  | leaveSolved _ _ _ => exact absurd hm List.not_mem_nil

theorem mem_openings {id : Uuid} {os : List Effect} {m : RoundStartedMessage}
    (h : .roundStarted m ∈ received id os) : m ∈ openings os := by
  obtain ⟨e, he, hm⟩ := List.mem_filterMap.mp h
  refine List.mem_filterMap.mpr ⟨e, he, ?_⟩
  cases e with
  | broadcast message recipients =>
    simp only [heard, Option.ite_none_right_eq_some, Option.some.injEq] at hm
    rw [hm.2]
    rfl
  | send recipient message =>
    simp only [heard, Option.ite_none_right_eq_some, Option.some.injEq] at hm
    rw [hm.2]
    rfl
  | _ => cases hm

/-! ### The page of a round -/

/-- What the page says of the round beside its number. -/
structure Titled (room : Room) (id : Uuid) (game : GameState) : Prop where
  word : ∀ d, room.drawerId = some d → game.word = if d = id then room.word else none
  wordLength : ∀ d, room.drawerId = some d → game.wordLength = room.word.map List.length
  nickname : ∀ d n, room.drawerId = some d → (d, n) ∈ nicknames room →
    game.drawerNickname = some n
  revealed : ∀ d, room.drawerId = some d → game.revealedWord = none
  hidden : room.phase = .playing → room.drawerId = none → game.word = none

theorem Titled.of_room {room t : Room} {id : Uuid} {game : GameState} (h : Titled room id game)
    (hd : t.drawerId = room.drawerId) (hw : t.word = room.word) (hp : t.phase = room.phase)
    (hn : ∀ d n, room.drawerId = some d → (d, n) ∈ nicknames t → (d, n) ∈ nicknames room) :
    Titled t id game where
  word := by rw [hd, hw]; exact h.word
  wordLength := by rw [hd, hw]; exact h.wordLength
  nickname d n hdr hmem := h.nickname d n (hd ▸ hdr) (hn d n (hd ▸ hdr) hmem)
  revealed := by rw [hd]; exact h.revealed
  hidden := by rw [hp, hd]; exact h.hidden

theorem Titled.of_hidden {room : Room} {id : Uuid} {game : GameState} (hd : room.drawerId = none)
    (hw : room.phase = .playing → game.word = none) : Titled room id game where
  word d h := by simp [hd] at h
  wordLength d h := by simp [hd] at h
  nickname d n h := by simp [hd] at h
  revealed d h := by simp [hd] at h
  hidden hp _ := hw hp

theorem titled_opened {env : Env} {room : Room} {drawer : Player} {id : Uuid} (page : RoomSocket)
    (now : ℤ) (ha : Announces (room.openRound env drawer) (toldTo env room drawer id)) :
    Titled (room.openRound env drawer) id
      (page.onmessage now (.roundStarted (toldTo env room drawer id))).game where
  word d h := by
    obtain rfl : drawer.id = d := Option.some.inj h
    unfold toldTo
    split_ifs <;> rfl
  wordLength d _ := by
    unfold toldTo
    split_ifs <;> rfl
  nickname d n h hmem := by
    obtain ⟨hd, hname⟩ := ha
    obtain rfl := Option.some.inj (hd.symm.trans h)
    exact congrArg some (nicknames_inj hname hmem)
  revealed d h := rfl
  hidden _ h := by cases h

theorem titled_heard {env : Env} {room t : Room} {id : Uuid} {input : RoomInput}
    {ms : List ServerToClientMessage} {ks : List GameMark} (hc : room.Coherent)
    (hs : Heard env room id input t ms ks) (ha : ∀ m, .roundStarted m ∈ ms → Announces t m)
    (clock : ℕ → ℤ) {page : RoomSocket} (h : Titled room id page.game) :
    Titled t id (pageAfter clock page ms).game := by
  cases hs with
  | aside hms => rwa [game_pageAfter_aside hms]
  | draw stroke _ =>
    have ht : Titled (room.addStroke stroke) id page.game := by
      rw [Room.addStroke_eq]
      exact h.of_room rfl rfl rfl fun _ _ _ hn => hn
    split_ifs
    · exact ht
    · exact ht
  | drawClear _ =>
    have ht : Titled room.clearStrokes id page.game :=
      h.of_room rfl rfl rfl fun _ _ _ hn => hn
    split_ifs
    · exact ht
    · exact ht
  | @join _ _ _ player _ _ hf _ hms =>
    rw [game_pageAfter_cons hms, Room.seatPlayer_eq]
    refine h.of_room rfl rfl rfl fun d n hd hn => ?_
    -- the drawer was there before
    have hne : d ≠ player.id := fun he => hf (he ▸ (hc.consistent.drawing d hd).2.1)
    rw [nicknames, rows_set_of_new hf, List.map_append, List.mem_append] at hn
    rcases hn with hn | hn
    · exact hn
    · simp [hne] at hn
  | start _ _ => exact titled_opened _ _ (ha _ (by simp))
  | @answer solver _ d _ _ _ =>
    have ht : Titled (room.scoreGuess env solver.id d) id page.game :=
      h.of_room rfl rfl rfl fun _ _ _ hn => by rwa [nicknames_scoreGuess] at hn
    rw [pageAfter, replay_cons, replay_nil, game_correctAnswer]
    exact ⟨ht.word, ht.wordLength, ht.nickname, ht.revealed, ht.hidden⟩
  | lastAnswer _ _ =>
    refine .of_hidden rfl fun _ => ?_
    rw [pageAfter, replay_cons, replay_cons, replay_nil, game_roundEnded]
  | close _ =>
    refine .of_hidden rfl fun _ => ?_
    rw [pageAfter, replay_cons, replay_nil, game_roundEnded]
  | next _ => exact titled_opened _ _ (ha _ (by simp))
  | finish _ => exact .of_hidden rfl fun hp => by cases hp
  | @leave left _ _ _ hms =>
    rw [game_pageAfter_cons hms]
    exact h.of_room rfl rfl rfl fun _ _ _ hn => mem_nicknames_removePlayer hn
  | leaveGame _ _ => exact .of_hidden rfl fun hp => by cases hp
  | @leaveRound left nickname count _ _ hms =>
    obtain ⟨before, now, -, he⟩ := pageAfter_departure hms room.id left nickname count
      (.roundEnded room.round (room.word.getD []) (room.removePlayer left).summaries) clock page
    rw [he]
    exact .of_hidden rfl fun _ => by rw [game_roundEnded]

theorem titled_snapshot {env : Env} {room : Room} {player : Player} (page : RoomSocket) (now : ℤ)
    (hd : room.drawerId ≠ some player.id) :
    Titled room player.id (page.onmessage now (.roomState (snapshot env room player))).game where
  word d h := by
    have hne : d ≠ player.id := fun he => hd (he ▸ h)
    rw [if_neg hne]
    rfl
  wordLength _ _ := rfl
  nickname d n h hmem := by
    obtain ⟨q, hq, he⟩ := List.mem_map.mp hmem
    simp only [Prod.mk.injEq] at he
    have hsome : (room.summaries.find? fun p => some p.id = room.drawerId).isSome := by
      rw [List.find?_isSome]
      exact ⟨_, List.mem_map_of_mem hq, by simp [h, he.1]⟩
    obtain ⟨p, hp⟩ := Option.isSome_iff_exists.mp hsome
    obtain ⟨x, hx, rfl⟩ := List.mem_map.mp (List.mem_of_find?_eq_some hp)
    have hid := List.find?_some hp
    simp only [h, Option.some.injEq, decide_eq_true_eq] at hid
    have hname := nicknames_inj (mem_nicknames hx) (hid ▸ hmem)
    change (room.summaries.find? fun p => some p.id = room.drawerId).map _ = _
    rw [hp, ← hname]
    rfl
  revealed _ _ := rfl
  hidden _ _ := rfl

/-! ### The player itself -/

def meAfter (me : Option PlayerSummary) : ServerToClientMessage → Option PlayerSummary
  | .roomState m => some m.you
  | _ => me

theorem onmessage_me (c : RoomSocket) (now : ℤ) (m : ServerToClientMessage) :
    (c.onmessage now m).me = meAfter c.me m := by
  cases m <;> simp only [RoomSocket.onmessage, meAfter, RoomSocket.pushFeed]

theorem meAfter_aside (me : Option PlayerSummary) (m : ServerToClientMessage) (h : IsAside m) :
    meAfter me m = me := by
  cases m <;> first | rfl | exact h.elim

theorem me_heard {env : Env} {room t : Room} {id : Uuid} {input : RoomInput}
    {ms : List ServerToClientMessage} {ks : List GameMark} (hs : Heard env room id input t ms ks)
    (me : Option PlayerSummary) : ms.foldl meAfter me = me := by
  cases hs with
  | aside hms => exact foldl_aside meAfter_aside hms me
  | draw _ _ => split_ifs <;> rfl
  | drawClear _ => split_ifs <;> rfl
  | join _ _ _ hms => exact foldl_aside meAfter_aside hms me
  | leave hms => exact foldl_aside meAfter_aside hms me
  | leaveGame _ hms =>
    rw [List.cons_append, List.foldl_cons, List.foldl_append, foldl_aside meAfter_aside hms]
    rfl
  | leaveRound _ hms =>
    rw [List.cons_append, List.foldl_cons, List.foldl_append, foldl_aside meAfter_aside hms]
    rfl
  | _ => rfl

section
variable [Runtime] {id : RoomId} {capacity : ℕ}

/-- The rule for pages, with the whole transition in place of what the player heard of it. -/
theorem clients_transition_rule {R : RoomState → Uuid → RoomSocket → Prop}
    (hjoin : ∀ env (s t : RoomState) player ms clock page, s.Inv →
      t.room = seatPlayer s.room player → player.id ∉ s.room.players.keys →
      (∀ m ∈ ms, IsAside m) →
      R t player.id (pageAfter clock page (.roomState (snapshot env t.room player) :: ms)))
    (hkeep : ∀ env input (s t : RoomState) os p clock page, s.Inv →
      Transition env s.room input t.room os →
      Heard env s.room p input t.room (received p os) ((marks os).filter isTold) →
      R s p page → R t p (pageAfter clock page (received p os)))
    {s : Clients} (hr : Machine.Reachable (clientSystem id capacity) s) {p : Uuid}
    {ms : List ServerToClientMessage} (hp : s.2 p = some ms) (clock : ℕ → ℤ) (page : RoomSocket) :
    R s.1 p (pageAfter clock page ms) := by
  refine Feed.replica (J := RoomState.Inv) (R := fun s p _ page => R s p page)
    (A := fun _ _ => True) (fun s hr => reachable_inv hr) ?_ ?_ (hr.to_restrict fun _ _ => trivial)
    hp clock page
  · intro s inbox i t os p hi _ hs hc hm clock page
    obtain ⟨-, hstep, -⟩ := roomSystem_step hs
    have hnew : p ∉ s.room.players.keys := of_decide_eq_false hm
    obtain ⟨player, rfl, -, -, ht, ms, hms, hreceived⟩ :=
      transition_joined (roomStep_transition hi.coherent hstep) (of_decide_eq_true hc) hnew
    change R t player.id (pageAfter clock page (received player.id os))
    rw [hreceived]
    exact hjoin i.1 s t player ms clock page hi ht hnew hms
  · intro s inbox i t os p ns page hi _ hs hc hm hrel clock
    obtain ⟨hu, hstep, -⟩ := roomSystem_step hs
    have hfresh : i.1.uuid ∉ s.room.players.keys := fun hid => hu (hi.players_issued _ hid)
    have htransition := roomStep_transition hi.coherent hstep
    exact hkeep i.1 i.2 s t os p clock page hi htransition
      (transition_heard htransition hfresh (of_decide_eq_true hc) (of_decide_eq_true hm)) hrel

theorem reachable_titled {s : Clients} (hr : Machine.Reachable (clientSystem id capacity) s)
    {p : Uuid} {ms : List ServerToClientMessage} (hp : s.2 p = some ms) (clock : ℕ → ℤ)
    (page : RoomSocket) :
    (pageAfter clock page ms).me.map PlayerSummary.id = some p ∧
      Titled s.1.room p (pageAfter clock page ms).game := by
  refine clients_transition_rule
    (R := fun s p page => page.me.map PlayerSummary.id = some p ∧ Titled s.room p page.game)
    ?_ ?_ hr hp clock page
  · intro env s t player ms clock page hi ht hnew hms
    have hd : t.room.drawerId ≠ some player.id := by
      intro h
      rw [ht, Room.seatPlayer_eq] at h
      exact hnew (hi.coherent.consistent.drawing _ h).2.1
    refine ⟨?_, ?_⟩
    · rw [pageAfter, replay_part onmessage_me, List.foldl_cons, foldl_aside meAfter_aside hms]
      rfl
    · rw [game_pageAfter_cons hms]
      exact titled_snapshot page (clock 0) hd
  · intro env input s t os p clock page hi hs hheard hrel
    refine ⟨?_, ?_⟩
    · rw [pageAfter, replay_part onmessage_me, me_heard hheard]
      exact hrel.1
    · exact titled_heard hi.coherent hheard
        (fun m hm => transition_announces hs (mem_openings hm)) clock hrel.2

/-- What the page offers is what the room does. -/
structure Offers (room : Room) (id : Uuid) (c : RoomSocket) : Prop where
  mayDraw : c.canDraw = true ↔ room.phase = .playing ∧ room.drawerId = some id
  draws : c.canDraw = true → ∀ env stroke sanitized, strokePoints stroke ≠ [] →
    sanitizeStroke stroke = .ok sanitized →
      handleDraw env room id stroke = .ok (room.addStroke sanitized,
        [(room.addStroke sanitized).broadcast env (.draw sanitized) (some id)])
  refused : c.canDraw = false → ∀ env stroke, handleDraw env room id stroke = .ok (room, []) ∧
    handleDrawClear env room id = (room, [])
  starts : c.banner.offersStart = true → ∀ env, ∃ drawer ∈ (room.beginGame env).players.rows,
    (startGame env room).1 = (room.beginGame env).openRound env drawer
  idles : c.banner.offersStart = false → ∀ env, (startGame env room).1 = room
  round : ∀ d w, room.InRound d w → ∃ n, (d, n) ∈ nicknames room ∧ c.banner =
    if d = id then .drawing room.round room.totalRounds (some w) (roundTimer c.game)
    else .guessing room.round room.totalRounds (hintText (some w.length)) (some n)
      (roundTimer c.game)
  intermission : room.InIntermission → c.game.word = none ∧ c.isDrawer = false ∧
    roundTimer c.game = none

omit [Runtime] in
theorem isDrawer_iff {c : RoomSocket} {p : Uuid} (h : c.me.map PlayerSummary.id = some p) :
    c.isDrawer = true ↔ c.game.drawerId = some p := by
  obtain ⟨me, hme, rfl⟩ := Option.map_eq_some_iff.mp h
  simp [RoomSocket.isDrawer, hme]

omit [Runtime] in
theorem startGame_still {env : Env} {room : Room}
    (h : ¬ (room.phase ≠ .playing ∧ MIN_PLAYERS_TO_START ≤ room.size)) :
    (startGame env room).1 = room := by
  unfold startGame
  by_cases hp : room.phase = .playing
  · rw [if_pos hp]
  · rw [if_neg hp, if_pos (not_le.mp fun hs => h ⟨hp, hs⟩)]

omit [Runtime] in
theorem startGame_opens {room : Room} (env : Env) (hb : room.Base) (hp : room.phase ≠ .playing)
    (hs : MIN_PLAYERS_TO_START ≤ room.size) : ∃ drawer ∈ (room.beginGame env).players.rows,
      (startGame env room).1 = (room.beginGame env).openRound env drawer := by
  have hq : (room.beginGame env).drawerQueue ≠ [] := by
    rw [← List.length_pos_iff, Room.beginGame_queue_length]
    exact Room.beginGame_totalRounds_pos env hs
  obtain ⟨drawer, hd, hhead⟩ := Room.exists_drawer (Room.beginGame_base env hb) hq
  exact ⟨drawer, hd, congrArg Prod.fst (startGame_enough env room drawer hp hs hhead hd)⟩

/-- The page of every connected player lets it draw exactly when the room takes its strokes, lets
it start a game exactly when the room would start one, and shows the word to the drawer alone. -/
theorem page_offers (id : RoomId) (capacity : ℕ) (s : Clients)
    (hr : Machine.Reachable (clientSystem id capacity) s) (p : Uuid)
    (ms : List ServerToClientMessage) (hp : s.2 p = some ms) (clock : ℕ → ℤ) (page : RoomSocket) :
    Offers s.1.room p (pageAfter clock page ms) := by
  obtain ⟨hme, htitled⟩ := reachable_titled hr hp clock page
  have hfollows := reachable_follows hr hp clock page
  have hids := reachable_ids hr hp clock page
  have hc := (reachable_inv hr.of_observe).coherent
  generalize pageAfter clock page ms = c at *
  have hdrawer : c.isDrawer = true ↔ s.1.room.drawerId = some p := by
    rw [isDrawer_iff hme, hfollows.drawerId]
  have hdraw : c.canDraw = true ↔ s.1.room.phase = .playing ∧ s.1.room.drawerId = some p := by
    rw [RoomSocket.canDraw, Bool.and_eq_true, decide_eq_true_iff, hdrawer, hfollows.phase, and_comm]
  have hsize : c.players.length = s.1.room.size := by
    have hlength := congrArg List.length hids
    rwa [List.length_map, length_keys] at hlength
  have hstart : c.banner.offersStart = true ↔
      s.1.room.phase ≠ .playing ∧ MIN_PLAYERS_TO_START ≤ s.1.room.size := by
    rw [offersStart_banner, hfollows.phase, hsize]
  constructor
  case mayDraw => exact hdraw
  case draws =>
    intro h env stroke sanitized hpoints hok
    obtain ⟨hplaying, hd⟩ := hdraw.mp h
    have hguard : ¬ (s.1.room.phase ≠ .playing ∨ s.1.room.drawerId ≠ some p) := by
      simp [hplaying, hd]
    rw [handleDraw, if_neg hguard, if_neg hpoints, hok]
    rfl
  case refused =>
    intro h env stroke
    have hguard : s.1.room.phase ≠ .playing ∨ s.1.room.drawerId ≠ some p := by
      rw [← not_and_or, ← hdraw, h]
      exact Bool.false_ne_true
    rw [handleDraw, handleDrawClear, if_pos hguard, if_pos hguard]
    exact ⟨rfl, rfl⟩
  case starts =>
    intro h env
    obtain ⟨hphase, hs⟩ := hstart.mp h
    exact startGame_opens env hc.1 hphase hs
  case idles =>
    intro h env
    apply startGame_still
    rw [← hstart, h]
    exact Bool.false_ne_true
  case round =>
    intro d w hround
    obtain ⟨drawer, hd, rfl⟩ := mem_keys.mp hround.drawer_present
    refine ⟨drawer.nickname, mem_nicknames hd, ?_⟩
    have hphase : c.game.phase = .playing := hfollows.phase.trans hround.phase
    have hword := htitled.word _ hround.drawerId
    rw [hround.word] at hword
    rw [RoomSocket.banner, roundBanner, hphase, htitled.revealed _ hround.drawerId,
      if_neg (by simp), if_neg (by simp), hfollows.round, hfollows.totalRounds]
    by_cases hdp : drawer.id = p
    · rw [if_pos hdp] at hword
      rw [if_pos hdp, if_pos (hdrawer.mpr (hdp ▸ hround.drawerId)), hword]
    · have hnot : ¬ c.isDrawer = true := by
        rw [hdrawer, hround.drawerId]
        exact fun he => hdp (Option.some.inj he)
      rw [if_neg hdp, if_neg hnot, htitled.wordLength _ hround.drawerId, hround.word,
        htitled.nickname _ _ hround.drawerId (mem_nicknames hd)]
      rfl
  case intermission =>
    intro hi
    refine ⟨htitled.hidden hi.phase hi.drawerId, ?_, ?_⟩
    · rw [← Bool.not_eq_true, hdrawer, hi.drawerId]
      simp
    · rw [roundTimer, hfollows.countdown.mpr hi.roundEndsAt]
      rfl

end

/-- The first round of `twoStart` is drawn by one player and guessed by the other. -/
theorem twoStart_offers : ∃ s os ms ms', Machine.Run plainClients (numbered twoStart) s os ∧
    s.2 ⟨1⟩ = some ms ∧ s.2 ⟨0⟩ = some ms' ∧
    @Offers plainRuntime s.1.room ⟨1⟩ (pageAfter (fun _ => 0) {} ms) ∧
    @Offers plainRuntime s.1.room ⟨0⟩ (pageAfter (fun _ => 0) {} ms') ∧
    (pageAfter (fun _ => 0) {} ms).canDraw ≠ (pageAfter (fun _ => 0) {} ms').canDraw :=
  ⟨_, _, _, _, Machine.exec_observe_run (by decide +kernel),
    (Option.some_get (by decide +kernel)).symm, (Option.some_get (by decide +kernel)).symm,
    @page_offers plainRuntime _ _ _ ⟨_, _, Machine.exec_observe_run (by decide +kernel)⟩ _ _
      (Option.some_get (by decide +kernel)).symm _ _,
    @page_offers plainRuntime _ _ _ ⟨_, _, Machine.exec_observe_run (by decide +kernel)⟩ _ _
      (Option.some_get (by decide +kernel)).symm _ _,
    by decide +kernel⟩

end GachaMind.Web
