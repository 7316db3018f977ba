import GachaMind.GameSession.RoomInvariant

/-!
# The order of the lifecycle broadcasts

What a room broadcasts about its games should be a prefix of complete games: started,
then rounds `1, 2, …` each closed with its own word, the last one possibly cut short,
then ended. An acceptor with one state for each of the three kinds of coherent room
decides these traces, and the room's own fields are the acceptor's state.
-/

namespace GachaMind.GameSession
open GachaMind.Js GachaMind.Shared KeyedTable

/-! ### Traces of complete games -/

/-- The lifecycle broadcasts, each start of a round with the word chosen for it. -/
inductive LifecycleEvent where
  | gameStarted
  | roundStarted (round : ℕ) (word : JsString)
  | roundEnded (round : ℕ) (word : JsString)
  | gameEnded
  deriving DecidableEq

def roundBroadcasts : ℕ → List JsString → List LifecycleEvent
  | _, [] => []
  | k, word :: words => .roundStarted k word :: .roundEnded k word :: roundBroadcasts (k + 1) words

/-- A game: the words of its closed rounds and of a last round that was cut short. -/
structure GameRecord where
  words : List JsString
  unfinished : Option JsString

def GameRecord.broadcasts (g : GameRecord) : List LifecycleEvent :=
  .gameStarted :: (roundBroadcasts 1 g.words ++
    (g.unfinished.toList.map (.roundStarted (g.words.length + 1)) ++ [.gameEnded]))

/-- A prefix of complete games, one after the other. -/
def WellFormedTrace (trace : List LifecycleEvent) : Prop :=
  ∃ games : List GameRecord, trace <+: games.flatMap GameRecord.broadcasts

/-! ### The acceptor -/

inductive LifecyclePhase where
  | idle
  | between (played : ℕ)
  | inRound (round : ℕ) (word : JsString)
  deriving DecidableEq

def LifecyclePhase.next : LifecyclePhase → LifecycleEvent → Option LifecyclePhase
  | .idle, .gameStarted => some (.between 0)
  | .between n, .roundStarted k word => if k = n + 1 then some (.inRound k word) else none
  | .between _, .gameEnded => some .idle
  | .inRound k word, .roundEnded l answer =>
    if l = k ∧ answer = word then some (.between k) else none
  | .inRound _ _, .gameEnded => some .idle
  | _, _ => none

def scan : LifecyclePhase → List LifecycleEvent → Option LifecyclePhase
  | p, [] => some p
  | p, e :: es => (p.next e).bind fun q => scan q es

theorem scan_append (p : LifecyclePhase) (es fs : List LifecycleEvent) :
    scan p (es ++ fs) = (scan p es).bind fun q => scan q fs := by
  induction es generalizing p with
  | nil => rfl
  | cons e es ih =>
    simp only [List.cons_append, scan]
    cases p.next e with
    | none => rfl
    | some q => simpa using ih q

theorem roundBroadcasts_append (k : ℕ) (words : List JsString) (word : JsString) :
    roundBroadcasts k (words ++ [word]) = roundBroadcasts k words ++
      [.roundStarted (k + words.length) word, .roundEnded (k + words.length) word] := by
  induction words generalizing k with
  | nil => rfl
  | cons w words ih =>
    have hk : k + 1 + words.length = k + (words.length + 1) := by omega
    simp only [List.cons_append, roundBroadcasts, ih, List.length_cons, hk]

theorem scan_roundBroadcasts (n : ℕ) (words : List JsString) :
    scan (.between n) (roundBroadcasts (n + 1) words) = some (.between (n + words.length)) := by
  induction words generalizing n with
  | nil => rfl
  | cons w words ih =>
    have hn : n + 1 + words.length = n + (words.length + 1) := by omega
    simp [roundBroadcasts, scan, LifecyclePhase.next, ih, hn]

theorem scan_broadcasts (g : GameRecord) : scan .idle g.broadcasts = some .idle := by
  have hrounds := scan_roundBroadcasts 0 g.words
  cases hu : g.unfinished with
  | none =>
    simp only [GameRecord.broadcasts, hu, scan, LifecyclePhase.next, Option.bind_some, scan_append,
      hrounds, Option.toList_none, List.map_nil]
  | some w =>
    simp [GameRecord.broadcasts, hu, scan, LifecyclePhase.next, scan_append, hrounds]

theorem scan_games (games : List GameRecord) :
    scan .idle (games.flatMap GameRecord.broadcasts) = some .idle := by
  induction games with
  | nil => rfl
  | cons g games ih => rw [List.flatMap_cons, scan_append, scan_broadcasts, Option.bind_some, ih]

/-- What the acceptor has read when it is in a phase. -/
def Read (trace : List LifecycleEvent) : LifecyclePhase → Prop
  | .idle => ∃ games : List GameRecord, trace = games.flatMap GameRecord.broadcasts
  | .between n => ∃ (games : List GameRecord) (words : List JsString), words.length = n ∧
      trace = games.flatMap GameRecord.broadcasts ++ .gameStarted :: roundBroadcasts 1 words
  | .inRound k word => ∃ (games : List GameRecord) (words : List JsString), words.length + 1 = k ∧
      trace = games.flatMap GameRecord.broadcasts ++
        .gameStarted :: (roundBroadcasts 1 words ++ [.roundStarted k word])

theorem read_next {trace : List LifecycleEvent} {p q : LifecyclePhase} {e : LifecycleEvent}
    (h : Read trace p) (hn : p.next e = some q) : Read (trace ++ [e]) q := by
  cases p with
  | idle =>
    obtain ⟨games, rfl⟩ := h
    cases e with
    | gameStarted =>
      cases hn
      exact ⟨games, [], rfl, rfl⟩
    | roundStarted k w => cases hn
    | roundEnded k w => cases hn
    | gameEnded => cases hn
  | between n =>
    obtain ⟨games, words, rfl, rfl⟩ := h
    cases e with
    | gameStarted => cases hn
    | roundStarted k w =>
      simp only [LifecyclePhase.next] at hn
      split_ifs at hn with hk
      cases hn
      exact ⟨games, words, hk.symm, by simp⟩
    | roundEnded k w => cases hn
    | gameEnded =>
      cases hn
      exact ⟨games ++ [⟨words, none⟩], by simp [GameRecord.broadcasts]⟩
  | inRound k w =>
    obtain ⟨games, words, rfl, rfl⟩ := h
    cases e with
    | gameStarted => cases hn
    | roundStarted k w => cases hn
    | roundEnded l answer =>
      simp only [LifecyclePhase.next] at hn
      split_ifs at hn with hl
      obtain ⟨rfl, rfl⟩ := hl
      cases hn
      refine ⟨games, words ++ [answer], by simp, ?_⟩
      rw [roundBroadcasts_append, Nat.add_comm 1]
      simp
    | gameEnded =>
      cases hn
      exact ⟨games ++ [⟨words, some w⟩], by simp [GameRecord.broadcasts]⟩

theorem read_scan {trace : List LifecycleEvent} {p q : LifecyclePhase}
    {es : List LifecycleEvent} (h : Read trace p) (hs : scan p es = some q) :
    Read (trace ++ es) q := by
  induction es generalizing trace p with
  | nil =>
    cases hs
    simpa using h
  | cons e es ih =>
    obtain ⟨r, hr, hs⟩ := Option.bind_eq_some_iff.mp hs
    simpa using ih (read_next h hr) hs

theorem Read.wellFormed {trace : List LifecycleEvent} {p : LifecyclePhase} (h : Read trace p) :
    WellFormedTrace trace := by
  cases p with
  | idle =>
    obtain ⟨games, rfl⟩ := h
    exact ⟨games, List.prefix_refl _⟩
  | between n =>
    obtain ⟨games, words, -, rfl⟩ := h
    refine ⟨games ++ [⟨words, none⟩], ?_⟩
    simp [GameRecord.broadcasts]
  | inRound k w =>
    obtain ⟨games, words, rfl, rfl⟩ := h
    refine ⟨games ++ [⟨words, some w⟩], [.gameEnded], ?_⟩
    simp [GameRecord.broadcasts]

/-- The acceptor accepts exactly the prefixes of complete games. -/
theorem wellFormedTrace_iff (trace : List LifecycleEvent) :
    WellFormedTrace trace ↔ (scan .idle trace).isSome := by
  constructor
  · intro hs
    obtain ⟨games, rest, he⟩ := hs
    have hg := scan_games games
    rw [← he, scan_append] at hg
    obtain ⟨q, hq, -⟩ := Option.bind_eq_some_iff.mp hg
    rw [hq]
    rfl
  · intro h
    obtain ⟨q, hq⟩ := Option.isSome_iff_exists.mp h
    have h0 : Read [] .idle := ⟨[], rfl⟩
    simpa using (read_scan h0 hq).wellFormed

instance (trace : List LifecycleEvent) : Decidable (WellFormedTrace trace) :=
  decidable_of_iff _ (wellFormedTrace_iff trace).symm

/-! ### The trace of a run -/

def lifecycleEvent (after : Room) : GameMark → Option LifecycleEvent
  | .gameStarted _ => some .gameStarted
  | .roundStarted k => some (.roundStarted k (after.word.getD []))
  | .roundEnded k word => some (.roundEnded k word)
  | .gameEnded _ => some .gameEnded
  | _ => none

def lifecycleEvents (after : Room) (os : List Effect) : List LifecycleEvent :=
  (marks os).filterMap (lifecycleEvent after)

def recordLifecycle (trace : List LifecycleEvent) (_ : RoomState) (_ : Env × RoomInput)
    (t : RoomState) (os : List Effect) : List LifecycleEvent :=
  trace ++ lifecycleEvents t.room os

/-- A departure in an intermission that leaves enough players, all of whom had solved the
round that is already over. -/
def LeavesOnlySolvers (room : Room) : RoomInput → Prop
  | .leave id => room.phase = .playing ∧ room.drawerId = none ∧
      MIN_PLAYERS_TO_START ≤ (room.removePlayer id).size ∧
      ∀ l ∈ (room.removePlayer id).players.keys, l ∈ (room.removePlayer id).solvedPlayerIds
  | _ => False

instance (room : Room) : ∀ input, Decidable (LeavesOnlySolvers room input)
  | .leave _ => inferInstanceAs (Decidable (_ ∧ _))
  | .join _ _ _ | .chat _ _ | .draw _ _ | .drawClear _ | .startGame | .timer _ =>
    inferInstanceAs (Decidable False)

def Room.lifecyclePhase (room : Room) : LifecyclePhase :=
  if room.phase = .playing then
    match room.word with
    | none => .between room.round
    | some word => .inRound room.round word
  else .idle

theorem Room.InRound.lifecyclePhase {room : Room} {d : Uuid} {w : JsString}
    (h : room.InRound d w) : room.lifecyclePhase = .inRound room.round w := by
  simp [Room.lifecyclePhase, h.phase, h.word]

theorem Room.InIntermission.lifecyclePhase {room : Room} (h : room.InIntermission) :
    room.lifecyclePhase = .between room.round := by
  simp [Room.lifecyclePhase, h.phase, h.word]

theorem Room.lifecyclePhase_idle {room : Room} (h : room.phase ≠ .playing) :
    room.lifecyclePhase = .idle := by
  simp [Room.lifecyclePhase, h]

theorem Room.Playing.lifecyclePhase_closeRound {room : Room} (h : room.Playing) :
    room.closeRound.lifecyclePhase = .between room.round := by
  have hp : room.closeRound.phase = .playing := h.phase
  simp only [Room.lifecyclePhase, hp]
  rfl

theorem Room.Playing.lifecyclePhase_openRound {env : Env} {room : Room} {drawer : Player}
    (h : room.Playing) : (room.openRound env drawer).lifecyclePhase =
      .inRound (room.round + 1) (pickWord env room.usedWords) := by
  have hp : (room.openRound env drawer).phase = .playing := h.phase
  simp only [Room.lifecyclePhase, hp]
  rfl

theorem Room.Playing.next_gameEnded {room : Room} (h : room.Playing) :
    room.lifecyclePhase.next .gameEnded = some .idle := by
  simp only [Room.lifecyclePhase, h.phase, if_true]
  cases room.word <;> rfl

theorem gameStep_scan {env : Env} {room t : Room} {input : RoomInput} {ms : List GameMark}
    (hs : GameStep env room input t ms) (hn : ¬ LeavesOnlySolvers room input) :
    scan room.lifecyclePhase (ms.filterMap (lifecycleEvent t)) = some t.lifecyclePhase := by
  cases hs with
  | quiet strokes _ => rfl
  | join _ =>
    rw [Room.seatPlayer_eq]
    rfl
  | start hp hsize _ _ =>
    rw [Room.lifecyclePhase_idle hp, (Room.beginGame_playing env hsize).lifecyclePhase_openRound]
    simp [scan, LifecyclePhase.next, lifecycleEvent, Room.openRound, Room.setRoundTimer,
      Room.beginGame]
  | guess hr _ _ _ _ => rfl
  | lastGuess hr _ _ _ _ =>
    rw [hr.lifecyclePhase,
      (Room.scoreGuess_playing env _ _ hr.toPlaying).lifecyclePhase_closeRound]
    simp only [List.filterMap_cons, lifecycleEvent, List.filterMap_nil, scan, LifecyclePhase.next]
    simp [Room.scoreGuess, addScore]
  | timeUp hr =>
    rw [hr.lifecyclePhase, (Room.timerFired_playing _ hr.toPlaying).lifecyclePhase_closeRound]
    simp [scan, LifecyclePhase.next, lifecycleEvent, Room.timerFired]
  | nextRound hi _ _ =>
    rw [hi.lifecyclePhase, (Room.timerFired_playing _ hi.toPlaying).lifecyclePhase_openRound]
    simp [scan, LifecyclePhase.next, lifecycleEvent, Room.openRound, Room.setRoundTimer,
      Room.timerFired]
  | gameOver hi _ _ =>
    simp only [List.filterMap_cons, lifecycleEvent, List.filterMap_nil, scan,
      hi.toPlaying.next_gameEnded, Option.bind_some]
    rfl
  | leave _ => rfl
  | leaveGame hp _ _ =>
    simp only [List.filterMap_cons, lifecycleEvent, List.filterMap_nil, scan, hp.next_gameEnded,
      Option.bind_some]
    rfl
  | leaveRound hr hsize =>
    rw [hr.lifecyclePhase,
      (Room.removePlayer_playing _ hr.toPlaying hsize).lifecyclePhase_closeRound]
    simp [scan, LifecyclePhase.next, lifecycleEvent, Room.removePlayer]
  | leaveSolved hi hsize hc =>
    refine absurd ⟨hi.phase, hi.drawerId, hsize, fun l hl => ?_⟩ hn
    rcases (Room.unsolvedGuesserCount_eq_zero _).mp hc l hl with hd | hsolved
    · exact absurd (hi.drawerId.symm.trans hd.symm) (by simp)
    · exact hsolved

/-- After such a departure the acceptor is stuck: the room has just ended a round twice. -/
theorem gameStep_scan_stuck {env : Env} {room t : Room} {input : RoomInput} {ms : List GameMark}
    (hs : GameStep env room input t ms) (hn : LeavesOnlySolvers room input) :
    scan room.lifecyclePhase (ms.filterMap (lifecycleEvent t)) = none := by
  cases input with
  | leave id =>
    obtain ⟨hp, hd, hsize, hsolved⟩ := hn
    have hc : (room.removePlayer id).unsolvedGuesserCount = 0 :=
      (Room.unsolvedGuesserCount_eq_zero _).mpr fun l hl => .inr (hsolved l hl)
    cases hs with
    | quiet strokes hq => exact absurd rfl (hq id)
    | leave hl => exact absurd hc (hl hp).2.2
    | leaveGame _ hlt _ => omega
    | leaveRound hr _ => exact absurd (hr.drawerId.symm.trans hd) (by simp)
    | leaveSolved hi _ _ =>
      rw [hi.lifecyclePhase]
      rfl
  | join _ _ _ => exact hn.elim
  | chat _ _ => exact hn.elim
  | draw _ _ => exact hn.elim
  | drawClear _ => exact hn.elim
  | startGame => exact hn.elim
  | timer _ => exact hn.elim

section
variable [Runtime] {id : RoomId} {capacity : ℕ}

def lifecycleSystem (id : RoomId) (capacity : ℕ) :
    Machine.System (RoomState × List LifecycleEvent) (Env × RoomInput) Effect :=
  (roomSystem id capacity).observe [] recordLifecycle

abbrev SolversLeaveLast (s : RoomState × List LifecycleEvent) (i : Env × RoomInput) : Prop :=
  ¬ LeavesOnlySolvers s.1.room i.2

theorem lifecycle_scan {s : RoomState × List LifecycleEvent}
    (hr : Machine.Reachable ((lifecycleSystem id capacity).restrict SolversLeaveLast) s) :
    scan .idle s.2 = some s.1.room.lifecyclePhase := by
  refine hr.recorded (I := fun s trace => scan .idle trace = some s.room.lifecyclePhase)
    (fun _ hr => reachable_inv hr) ?_ ?_
  · intro s h
    obtain rfl := h
    rfl
  · intro s trace i t os hi hscan hlast hs
    rw [recordLifecycle, scan_append, hscan, Option.bind_some]
    exact gameStep_scan (step_marks hi hs).2.1 hlast

/-- As long as no departure in an intermission leaves only solvers, the trace is a prefix of
complete games; the first such departure breaks it. -/
theorem lifecycle_wellFormed (id : RoomId) (capacity : ℕ)
    (s : RoomState × List LifecycleEvent)
    (hr : Machine.Reachable ((lifecycleSystem id capacity).restrict SolversLeaveLast) s) :
    WellFormedTrace s.2 ∧
      ∀ i t os, (lifecycleSystem id capacity).step s i t os →
        (WellFormedTrace t.2 ↔ ¬ LeavesOnlySolvers s.1.room i.2) := by
  have hscan := lifecycle_scan hr
  have hi := reachable_inv hr.of_observe_restrict
  refine ⟨(wellFormedTrace_iff _).mpr (by rw [hscan]; rfl), fun i t os hs => ?_⟩
  have hg := (step_marks hi hs.1).2.1
  have htrace : t.2 = s.2 ++ lifecycleEvents t.1.room os := hs.2
  rw [wellFormedTrace_iff, htrace, scan_append, hscan, Option.bind_some]
  constructor
  · intro h hn
    rw [lifecycleEvents, gameStep_scan_stuck hg hn] at h
    exact absurd h (by simp)
  · intro hn
    rw [lifecycleEvents, gameStep_scan hg hn]
    rfl

end

def roundSolved : List RoomInput :=
  [.join 0 none (utf16 "a"), .join 1 none (utf16 "b"), .join 2 none (utf16 "c"), .startGame,
   .chat ⟨0⟩ (some (.str (utf16 "사과"))), .chat ⟨2⟩ (some (.str (utf16 "사과")))]

theorem roundSolved_wellFormed : ∃ s os,
    Machine.Run ((@lifecycleSystem plainRuntime (utf16 "AB3DE") DEFAULT_ROOM_CAPACITY).restrict
      SolversLeaveLast) (numbered roundSolved) s os ∧ s.2.length = 3 ∧ WellFormedTrace s.2 :=
  ⟨_, _, Machine.exec_observe_restrict_run (by decide +kernel), by decide +kernel,
    (@lifecycle_wellFormed plainRuntime _ _ _
      ⟨_, _, Machine.exec_observe_restrict_run (by decide +kernel)⟩).1⟩

/-- The drawer leaves in the intermission and the round ends a second time, without a word. -/
theorem solved_drawer_leaves : ∃ s os,
    Machine.Run (@lifecycleSystem plainRuntime (utf16 "AB3DE") DEFAULT_ROOM_CAPACITY)
      (numbered (roundSolved ++ [.leave ⟨1⟩])) s os ∧
    s.2 = [.gameStarted, .roundStarted 1 (utf16 "사과"), .roundEnded 1 (utf16 "사과"),
      .roundEnded 1 []] ∧ ¬ WellFormedTrace s.2 :=
  ⟨_, _, Machine.exec_observe_run (by decide +kernel), by decide +kernel, by decide +kernel⟩

end GachaMind.GameSession
