import GachaMind.GameSession.Lifecycle

/-!
# The words of a game

The words of the rounds against the dictionary: `pickWord` avoids the words that the game
has used until there are no others, so no word comes twice before every word came once.
-/

namespace GachaMind.GameSession
open GachaMind.Js GachaMind.Shared KeyedTable

/-- `word` is the word of the room after the step. -/
def wordMark (word : Option JsString) (words : List JsString) : GameMark → List JsString
  | .gameStarted _ => []
  | .roundStarted _ => words ++ word.toList
  | _ => words

/-- The words of the current game, or of the last one, in the order of its rounds. -/
def recordWords (words : List JsString) (_ : RoomState) (_ : Env × RoomInput) (t : RoomState)
    (os : List Effect) : List JsString :=
  (marks os).foldl (wordMark t.room.word) words

/-! ### One pick -/

theorem WORDS_nodup : WORDS.Nodup := by decide +kernel

/-- A word is left when fewer were used than there are. -/
theorem exists_unused {used : List JsString} (h : used.length < WORDS.length) :
    ∃ word ∈ WORDS, word ∉ used := by
  by_contra hall
  push Not at hall
  exact absurd (WORDS_nodup.subperm hall).length_le (not_le.mpr h)

theorem mem_wordPool {used : List JsString} (h : used.length < WORDS.length) {word : JsString}
    (hw : word ∈ wordPool used) : word ∉ used := by
  obtain ⟨free, hfree, hunused⟩ := exists_unused h
  have hpool : (WORDS.filter fun word => !used.contains word) ≠ [] :=
    List.ne_nil_of_mem (List.mem_filter.mpr ⟨hfree, by simpa using hunused⟩)
  unfold wordPool at hw
  dsimp only at hw
  rw [if_neg (by simpa using hpool)] at hw
  simpa using (List.mem_filter.mp hw).2

theorem pickWord_mem_pool (env : Env) (used : List JsString) :
    pickWord env used ∈ wordPool used := by
  have hlt : env.pick % (wordPool used).length < (wordPool used).length :=
    Nat.mod_lt _ (List.length_pos_iff.mpr (wordPool_ne_nil used))
  simp only [pickWord, List.getElem?_eq_getElem hlt, Option.getD_some]
  exact List.getElem_mem hlt

/-- The words used are known, and none is repeated before all were used. -/
structure FreshWords (used : List JsString) : Prop where
  known : ∀ word ∈ used, word ∈ WORDS
  nodup : (used.take WORDS.length).Nodup

theorem FreshWords.nil : FreshWords [] := ⟨by simp, by simp⟩

theorem FreshWords.pick {used : List JsString} (h : FreshWords used) (env : Env) :
    FreshWords (used ++ [pickWord env used]) where
  known word hw := by
    rcases List.mem_append.mp hw with hw | hw
    · exact h.known word hw
    · rw [List.mem_singleton.mp hw]
      exact pickWord_mem env used
  nodup := by
    by_cases hlen : used.length < WORDS.length
    · have hused : used.take WORDS.length = used := List.take_of_length_le hlen.le
      have hnodup := h.nodup
      rw [hused] at hnodup
      rw [List.take_of_length_le (by simpa using hlen)]
      refine List.nodup_append.mpr ⟨hnodup, List.nodup_singleton _, fun a ha b hb he => ?_⟩
      rw [he, List.mem_singleton.mp hb] at ha
      exact mem_wordPool hlen (pickWord_mem_pool env used) ha
    · rw [List.take_append_of_le_length (not_lt.mp hlen)]
      exact h.nodup

/-! ### Every run -/

/-- The words recorded are those the room keeps, one for each round. -/
structure WordsKept (room : Room) (words : List JsString) : Prop where
  fresh : FreshWords words
  used : room.usedWords = words
  rounds : words.length = room.round
  current : ∀ word, room.word = some word → words.getLast? = some word

theorem WordsKept.open {room : Room} {words : List JsString} (h : WordsKept room words)
    (env : Env) (drawer : Player) :
    WordsKept (room.openRound env drawer) (words ++ [pickWord env room.usedWords]) where
  fresh := by
    rw [h.used]
    exact h.fresh.pick env
  used := by
    rw [← h.used]
    rfl
  rounds := by
    rw [List.length_append, h.rounds]
    rfl
  current word hw := by
    have he : some (pickWord env room.usedWords) = some word := hw
    rw [List.getLast?_append_cons, ← he]
    rfl

theorem WordsKept.keep {room t : Room} {words : List JsString} (h : WordsKept room words)
    (hu : t.usedWords = room.usedWords) (hr : t.round = room.round)
    (hw : t.word = room.word ∨ t.word = none) : WordsKept t words where
  fresh := h.fresh
  used := hu.trans h.used
  rounds := h.rounds.trans hr.symm
  current word he := by
    rcases hw with hw | hw
    · exact h.current word (hw.symm.trans he)
    · rw [hw] at he
      cases he

theorem WordsKept.begin (env : Env) (room : Room) (h : room.word = none) :
    WordsKept (room.beginGame env) [] where
  fresh := .nil
  used := rfl
  rounds := rfl
  current word he := by
    have hnone : (room.beginGame env).word = none := h
    rw [hnone] at he
    cases he

theorem wordsKept_step {env : Env} {room t : Room} {input : RoomInput} {ms : List GameMark}
    {words : List JsString} (h : WordsKept room words) (hc : room.Coherent)
    (hs : GameStep env room input t ms) : WordsKept t (ms.foldl (wordMark t.word) words) := by
  cases hs with
  | quiet _ _ => exact h.keep rfl rfl (.inl rfl)
  | join _ =>
    rw [Room.seatPlayer_eq]
    exact h.keep rfl rfl (.inl rfl)
  | start hp _ _ _ =>
    have hidle : room.word = none := by
      obtain ⟨-, hi | ⟨d, w, hr⟩ | hi⟩ := hc
      · exact hi.word
      · exact absurd hr.phase hp
      · exact absurd hi.phase hp
    exact (WordsKept.begin env room hidle).open env _
  | guess _ _ _ _ _ => exact h.keep rfl rfl (.inl rfl)
  | lastGuess _ _ _ _ _ => exact h.keep rfl rfl (.inr rfl)
  | timeUp _ => exact h.keep rfl rfl (.inr rfl)
  | nextRound _ _ _ =>
    exact (h.keep (t := room.timerFired _) rfl rfl (.inl rfl)).open env _
  | gameOver _ _ _ => exact h.keep rfl rfl (.inr rfl)
  | leave _ => exact h.keep rfl rfl (.inl rfl)
  | leaveGame _ _ _ => exact h.keep rfl rfl (.inr rfl)
  | leaveRound _ _ => exact h.keep rfl rfl (.inr rfl)
  | leaveSolved _ _ _ => exact h.keep rfl rfl (.inr rfl)

/-- The end of a round reveals its word. The round that has ended already ends again when all who
stay in an intermission have solved it, and then nothing is revealed. -/
theorem revealed_current {env : Env} {room t : Room} {input : RoomInput} {ms : List GameMark}
    (hs : GameStep env room input t ms) {n : ℕ} {word : JsString}
    (hm : .roundEnded n word ∈ ms) :
    n = room.round ∧ (LeavesOnlySolvers room input ∧ word = [] ∨
      ¬ LeavesOnlySolvers room input ∧ room.word = some word) := by
  -- in a round there is a drawer
  have hround : ∀ {d w}, room.InRound d w → ¬ LeavesOnlySolvers room input := by
    intro d w hr hleaves
    cases input with
    | leave id => cases hr.drawerId.symm.trans hleaves.2.1
    | _ => exact hleaves
  cases hs with
  | lastGuess hr _ _ _ _ =>
    obtain ⟨rfl, rfl⟩ : n = room.round ∧ word = _ := by simpa using hm
    exact ⟨rfl, .inr ⟨hround hr, hr.word⟩⟩
  | timeUp hr =>
    obtain ⟨rfl, rfl⟩ : n = room.round ∧ word = _ := by simpa using hm
    exact ⟨rfl, .inr ⟨hround hr, hr.word⟩⟩
  | leaveRound hr _ =>
    obtain ⟨rfl, rfl⟩ : n = room.round ∧ word = _ := by simpa using hm
    exact ⟨rfl, .inr ⟨hround hr, hr.word⟩⟩
  | @leaveSolved id hi hstay hc =>
    obtain ⟨rfl, rfl⟩ : n = room.round ∧ word = [] := by simpa using hm
    have hsolved : ∀ l ∈ (room.removePlayer id).players.keys,
        l ∈ (room.removePlayer id).solvedPlayerIds := by
      intro l hl
      rcases (Room.unsolvedGuesserCount_eq_zero _).mp hc l hl with hd | hsolved
      · cases hd.trans hi.drawerId
      · exact hsolved
    exact ⟨rfl, .inl ⟨⟨hi.phase, hi.drawerId, hstay, hsolved⟩, rfl⟩⟩
  | _ => simp at hm

theorem leavesOnlySolvers_reveals {env : Env} {room t : Room} {input : RoomInput}
    {ms : List GameMark} (hs : GameStep env room input t ms) (h : LeavesOnlySolvers room input) :
    .roundEnded room.round [] ∈ ms := by
  cases input with
  | leave id =>
    obtain ⟨hp, hd, hstay, hsolved⟩ := h
    have hc : (room.removePlayer id).unsolvedGuesserCount = 0 :=
      (Room.unsolvedGuesserCount_eq_zero _).mpr fun l hl => .inr (hsolved l hl)
    cases hs with
    | quiet _ hno => exact absurd rfl (hno id)
    | leave hplays => exact absurd hc (hplays hp).2.2
    | leaveGame _ hfew _ => omega
    | leaveRound hr _ => cases hd.symm.trans hr.drawerId
    | leaveSolved _ _ _ => exact List.mem_singleton_self _
  | _ => exact h.elim

section
variable [Runtime] {id : RoomId} {capacity : ℕ}

def wordSystem (id : RoomId) (capacity : ℕ) :
    Machine.System (RoomState × List JsString) (Env × RoomInput) Effect :=
  (roomSystem id capacity).observe [] recordWords

theorem reachable_words {s : RoomState × List JsString}
    (hr : Machine.Reachable (wordSystem id capacity) s) : WordsKept s.1.room s.2 := by
  refine hr.recorded_free (I := fun s words => WordsKept s.room words)
    (fun _ hr => reachable_inv hr) ?_ ?_
  · intro s hs
    obtain rfl := hs
    exact ⟨.nil, rfl, rfl, fun word he => by cases he⟩
  · intro s words i t os hi h hs
    exact wordsKept_step h hi.coherent (step_marks hi hs).2.1

/-- The words of a game come from the dictionary, one a round, and none comes again before every
word came. The word that is guessed is the last of them, and so is the one revealed, but for the
round-ended broadcasts that reveal nothing. -/
theorem words_not_repeated (id : RoomId) (capacity : ℕ) (s : RoomState × List JsString)
    (hr : Machine.Reachable (wordSystem id capacity) s) :
    s.2.length = s.1.room.round ∧ (∀ word ∈ s.2, word ∈ WORDS) ∧
    (∀ i j : ℕ, i < j → j < WORDS.length → ∀ w ∈ s.2[j]?, s.2[i]? ≠ some w) ∧
    (∀ word, s.1.room.word = some word → s.2.getLast? = some word) ∧
    ∀ i t os, (wordSystem id capacity).step s i t os →
      (LeavesOnlySolvers s.1.room i.2 → .roundEnded s.2.length [] ∈ marks os) ∧
      ∀ n word, .roundEnded n word ∈ marks os → n = s.2.length ∧
        (LeavesOnlySolvers s.1.room i.2 ∧ word = [] ∨
          ¬ LeavesOnlySolvers s.1.room i.2 ∧ s.2.getLast? = some word) := by
  have h := reachable_words hr
  refine ⟨h.rounds, h.fresh.known, fun i j hij hj w hw he => ?_, h.current, ?_⟩
  · have hn := List.nodup_iff_getElem?_ne_getElem?.mp h.fresh.nodup i j hij
    have hlen : j < s.2.length := (List.getElem?_eq_some_iff.mp hw).1
    refine hn (by simp; omega) ?_
    rw [List.getElem?_take_of_lt (by omega), List.getElem?_take_of_lt hj, he]
    exact hw.symm
  · intro i t os hs
    have hstep := (step_marks (reachable_inv hr.of_observe) hs.1).2.1
    constructor
    · intro hleaves
      rw [h.rounds]
      exact leavesOnlySolvers_reveals hstep hleaves
    · intro n word hm
      obtain ⟨hn, hword⟩ := revealed_current hstep hm
      refine ⟨hn.trans h.rounds.symm, ?_⟩
      rcases hword with ⟨hleaves, hnothing⟩ | ⟨hno, hw⟩
      · exact .inl ⟨hleaves, hnothing⟩
      · exact .inr ⟨hno, h.current word hw⟩

end

/-- A game that has reached its second round. -/
def secondRound : List RoomInput :=
  [.join 0 none (utf16 "a"), .join 1 none (utf16 "b"), .startGame, .timer 0, .timer 1]

theorem secondRound_words : ∃ s os,
    Machine.Run (@wordSystem plainRuntime (utf16 "AB3DE") DEFAULT_ROOM_CAPACITY)
      (numbered secondRound) s os ∧ s.2 = [utf16 "사과", utf16 "바나나"] ∧
    s.2.length = s.1.room.round :=
  ⟨_, _, Machine.exec_observe_run (by decide +kernel), by decide +kernel,
    (@words_not_repeated plainRuntime (utf16 "AB3DE") DEFAULT_ROOM_CAPACITY _
      ⟨_, _, Machine.exec_observe_run (by decide +kernel)⟩).1⟩

end GachaMind.GameSession
