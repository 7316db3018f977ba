import GachaMind.GameSession.EventFates
import GachaMind.GameSession.Publications
import GachaMind.ResultsWorker.Delivery

/-!
# From the game to the history

Any number of game-session processes, their publishers, the broker, the results workers and the
tables of user as one system. A process may die at any moment, with its rooms and with the events
that it has not sent, and be started again; a message that was sent may be lost on the way to the
broker, which confirms none. `randomUUID` never repeats a UUID, nor one of a game on record.
-/

namespace GachaMind.Results
open GachaMind.Js GachaMind.Shared GachaMind.GameSession GachaMind.User KeyedTable

abbrev ProcessId := ℕ

structure Process where
  server : Server
  publisher : Events.Publisher

/-- `wire` are the messages that `sendToQueue` took and that have not reached the broker. -/
structure Pipeline where
  processes : ProcessId → Process
  wire : List GameFinishedEvent
  workers : ResultsWorker.State
  issued : List Uuid

inductive PipelineInput where
  | game (n : ProcessId) (i : Env × ServerInput)
  | events (n : ProcessId) (i : Events.EventsInput)
  | arrive (place : ℕ)
  | mislay (place : ℕ)
  | results (i : ResultsWorker.Input)
  | die (n : ProcessId)

inductive PipelineOutput where
  | effect (n : ProcessId) (e : Effect)
  | events (n : ProcessId) (o : Events.EventsOutput)
  | arrived (event : GameFinishedEvent)
  | lost (event : GameFinishedEvent)
  | results (o : ResultsWorker.Output)

/-- The events handed to `sendToQueue`. -/
def sentEvents (os : List Events.EventsOutput) : List GameFinishedEvent :=
  os.filterMap fun
    | .sendToQueue _ event => some event
    | _ => none

def newProcess (self : ShardIdentity) : Process := ⟨newServer self, {}⟩

namespace Pipeline

def setProcess (p : Pipeline) (n : ProcessId) (process : Process) : Pipeline :=
  { p with processes := Function.update p.processes n process }

variable [Runtime] [Postgres]

/-- One handler of a process; `publishGameEvent` is called where the handler publishes. -/
def play (p : Pipeline) (n : ProcessId) (i : Env × ServerInput) :
    Option (Pipeline × List PipelineOutput) :=
  if i.1.uuid ∈ p.issued then none
  else ((p.processes n).server.step i).map fun r =>
    let publisher := (publishedEvents r.2).foldl Events.Publisher.publishGameEvent
      (p.processes n).publisher
    ({ p.setProcess n ⟨r.1, publisher⟩ with issued := i.1.uuid :: p.issued },
      r.2.map (.effect n))

omit [Runtime] [Postgres] in
/-- A call of the publisher goes on. -/
def goOn (p : Pipeline) (n : ProcessId) (i : Events.EventsInput) :
    Option (Pipeline × List PipelineOutput) :=
  if (Events.EventsInput.published? i).isSome then none
  else ((p.processes n).publisher.step i).map fun r =>
    ({ p.setProcess n { p.processes n with publisher := r.1 } with
        wire := p.wire ++ sentEvents r.2 }, r.2.map (.events n))

def step (selves : ProcessId → ShardIdentity) (p : Pipeline) :
    PipelineInput → Option (Pipeline × List PipelineOutput)
  | .game n i => p.play n i
  | .events n i => p.goOn n i
  | .arrive place => p.wire[place]?.map fun event =>
      ({ p with
          wire := p.wire.eraseIdx place
          workers := { p.workers with queue := p.workers.queue.publish (.finished event) } },
        [.arrived event])
  | .mislay place => p.wire[place]?.map fun event =>
      ({ p with wire := p.wire.eraseIdx place }, [.lost event])
  | .results i => (p.workers.step i).map fun r => ({ p with workers := r.1 }, r.2.map .results)
  | .die n =>
    some (p.setProcess n (newProcess (selves n)),
      (p.processes n).publisher.pending.map .lost)

end Pipeline

def newPipeline (selves : ProcessId → ShardIdentity) (tables : HistoryTables) : Pipeline where
  processes n := newProcess (selves n)
  wire := []
  workers := ⟨.ofList [], fun _ => .idle, [], tables⟩
  issued := tables.games.keys

def pipelineSystem [Runtime] [Postgres] (selves : ProcessId → ShardIdentity)
    (tables : HistoryTables) : Machine.System Pipeline PipelineInput PipelineOutput :=
  Machine.ofFunction (newPipeline selves tables) (Pipeline.step selves)


/-! ### The games of the processes -/

/-- The games played so far are different from each other and from those on record. A process that
runs has published the games whose UUIDs it drew, and no other process drew one of them. -/
structure GamesInv [Runtime] (selves : ProcessId → ShardIdentity) (recorded : List Uuid)
    (servers : ProcessId → Server) (issued : List Uuid) (log : List GameFinishedEvent) :
    Prop where
  once : (log.map GameFinishedEvent.gameId).Nodup
  known : ∀ e ∈ log, e.gameId ∈ issued
  fresh : ∀ e ∈ log, e.gameId ∉ recorded
  old : ∀ u ∈ recorded, u ∈ issued
  run : ∀ n, ∃ is os, Machine.Run (serverSystem (selves n)) is (servers n) os ∧
    ∀ e ∈ log, e.gameId ∈ (servers n).issued → e ∈ publishedEvents os
  drawn : ∀ n, ∀ u ∈ (servers n).issued, u ∈ issued ∧ u ∉ recorded
  apart : ∀ m n, m ≠ n → ∀ u ∈ (servers m).issued, u ∉ (servers n).issued

section
variable [Runtime] {selves : ProcessId → ShardIdentity} {recorded issued : List Uuid}
  {servers : ProcessId → Server} {log : List GameFinishedEvent} {n : ProcessId}

theorem GamesInv.start (selves : ProcessId → ShardIdentity) (recorded : List Uuid) :
    GamesInv selves recorded (fun n => newServer (selves n)) recorded [] where
  once := List.nodup_nil
  known _ he := absurd he List.not_mem_nil
  fresh _ he := absurd he List.not_mem_nil
  old _ hu := hu
  run _ := ⟨[], [], .nil rfl, fun _ he => absurd he List.not_mem_nil⟩
  drawn _ _ hu := absurd hu List.not_mem_nil
  apart _ _ _ _ hu := absurd hu List.not_mem_nil

theorem GamesInv.die (h : GamesInv selves recorded servers issued log) (n : ProcessId) :
    GamesInv selves recorded (Function.update servers n (newServer (selves n))) issued log := by
  have hnew : ∀ k, Function.update servers n (newServer (selves n)) k = servers k ∨
      (k = n ∧ Function.update servers n (newServer (selves n)) k = newServer (selves n)) := by
    intro k
    by_cases hk : k = n
    · exact .inr ⟨hk, by rw [hk, Function.update_self]⟩
    · exact .inl (Function.update_of_ne hk ..)
  refine ⟨h.once, h.known, h.fresh, h.old, fun k => ?_, fun k u hu => ?_, fun j k hjk u hj hk => ?_⟩
  · rcases hnew k with he | ⟨rfl, he⟩
    · rw [he]
      exact h.run k
    · rw [he]
      exact ⟨[], [], .nil rfl, fun e _ hid => absurd hid List.not_mem_nil⟩
  · rcases hnew k with he | ⟨-, he⟩
    · exact h.drawn k u (he ▸ hu)
    · rw [he] at hu
      exact absurd hu List.not_mem_nil
  · rcases hnew j with hej | ⟨-, hej⟩
    · rcases hnew k with hek | ⟨-, hek⟩
      · exact h.apart j k hjk u (hej ▸ hj) (hek ▸ hk)
      · rw [hek] at hk
        exact absurd hk List.not_mem_nil
    · rw [hej] at hj
      exact absurd hj List.not_mem_nil

theorem GamesInv.issued_play (h : GamesInv selves recorded servers issued log)
    {i : Env × ServerInput} {t : Server} {os : List Effect}
    (hs : (serverSystem (selves n)).step (servers n) i t os) :
    t.issued = i.1.uuid :: (servers n).issued := by
  obtain ⟨is, ps, hrun, -⟩ := h.run n
  exact (server_rooms (server_room_reachable ⟨is, ps, hrun⟩) hs).2.1

theorem GamesInv.drawn_now (h : GamesInv selves recorded servers issued log)
    {i : Env × ServerInput} {t : Server} {os : List Effect}
    (hs : (serverSystem (selves n)).step (servers n) i t os) :
    ∀ e ∈ publishedEvents os, e.gameId = i.1.uuid ∨ e.gameId ∈ (servers n).issued := by
  intro e he
  obtain ⟨is, ps, hrun, -⟩ := h.run n
  have hgames := server_games_apart (hrun.snoc hs)
  rw [publishedEvents_append] at hgames
  have hknown := hgames.known e (List.mem_append_right _ he)
  rwa [h.issued_play hs, List.mem_cons] at hknown

/-- A game that a process finishes now has a UUID that it drew, so no earlier event has it. -/
theorem GamesInv.unseen (h : GamesInv selves recorded servers issued log) {i : Env × ServerInput}
    {t : Server} {os : List Effect} (hu : i.1.uuid ∉ issued)
    (hs : (serverSystem (selves n)).step (servers n) i t os) :
    ((log ++ publishedEvents os).map GameFinishedEvent.gameId).Nodup := by
  obtain ⟨is, ps, hrun, hlog⟩ := h.run n
  have honce := (server_games_apart (hrun.snoc hs)).once
  rw [publishedEvents_append, List.map_append] at honce
  obtain ⟨-, hnodup, hdisjoint⟩ := List.nodup_append.mp honce
  rw [List.map_append]
  refine List.nodup_append.mpr ⟨h.once, hnodup, fun a ha b hb hab => ?_⟩
  obtain ⟨e', he', rfl⟩ := List.mem_map.mp ha
  obtain ⟨e, he, rfl⟩ := List.mem_map.mp hb
  rcases h.drawn_now hs e he with hid | hid
  · exact hu (by rw [← hid, ← hab]; exact h.known e' he')
  · have hold := hlog e' he' (hab ▸ hid)
    exact hdisjoint _ (List.mem_map_of_mem hold) _ (List.mem_map_of_mem he) hab

theorem GamesInv.undrawn (h : GamesInv selves recorded servers issued log) {i : Env × ServerInput}
    {t : Server} {os : List Effect} (hu : i.1.uuid ∉ issued)
    (hs : (serverSystem (selves n)).step (servers n) i t os) :
    ∀ k, k ≠ n → ∀ u ∈ (servers k).issued, u ∉ t.issued := by
  intro k hk u huk hut
  rw [h.issued_play hs, List.mem_cons] at hut
  rcases hut with rfl | hut
  · exact hu (h.drawn k _ huk).1
  · exact h.apart k n hk u huk hut

theorem GamesInv.play (h : GamesInv selves recorded servers issued log) {i : Env × ServerInput}
    {t : Server} {os : List Effect} (hu : i.1.uuid ∉ issued)
    (hs : (serverSystem (selves n)).step (servers n) i t os) :
    GamesInv selves recorded (Function.update servers n t) (i.1.uuid :: issued)
      (log ++ publishedEvents os) := by
  have hissued := h.issued_play hs
  have hnew := h.drawn_now hs
  have hother := h.undrawn hu hs
  constructor
  case once => exact h.unseen hu hs
  case known =>
    intro e he
    rcases List.mem_append.mp he with he | he
    · exact List.mem_cons_of_mem _ (h.known e he)
    · rcases hnew e he with hid | hid
      · rw [hid]
        exact List.mem_cons_self
      · exact List.mem_cons_of_mem _ (h.drawn n _ hid).1
  case fresh =>
    intro e he
    rcases List.mem_append.mp he with he | he
    · exact h.fresh e he
    · rcases hnew e he with hid | hid
      · exact fun hrec => hu (h.old _ (hid ▸ hrec))
      · exact (h.drawn n _ hid).2
  case old => exact fun u hold => List.mem_cons_of_mem _ (h.old u hold)
  case run =>
    intro k
    by_cases hk : k = n
    · subst hk
      obtain ⟨is, ps, hrun, hlog⟩ := h.run k
      rw [Function.update_self]
      refine ⟨_, _, hrun.snoc hs, fun e he hid => ?_⟩
      rw [publishedEvents_append]
      rcases List.mem_append.mp he with he | he
      · rw [hissued, List.mem_cons] at hid
        rcases hid with hid | hid
        · exact absurd (hid ▸ h.known e he) hu
        · exact List.mem_append_left _ (hlog e he hid)
      · exact List.mem_append_right _ he
    · rw [Function.update_of_ne hk]
      obtain ⟨js, qs, hr, hl⟩ := h.run k
      refine ⟨js, qs, hr, fun e he hid => ?_⟩
      rcases List.mem_append.mp he with he | he
      · exact hl e he hid
      · refine absurd ?_ (hother k hk _ hid)
        rw [hissued, List.mem_cons]
        exact hnew e he
  case drawn =>
    intro k u huk
    by_cases hk : k = n
    · subst hk
      rw [Function.update_self, hissued, List.mem_cons] at huk
      rcases huk with rfl | huk
      · exact ⟨List.mem_cons_self, fun hrec => hu (h.old _ hrec)⟩
      · exact ⟨List.mem_cons_of_mem _ (h.drawn k u huk).1, (h.drawn k u huk).2⟩
    · rw [Function.update_of_ne hk] at huk
      exact ⟨List.mem_cons_of_mem _ (h.drawn k u huk).1, (h.drawn k u huk).2⟩
  case apart =>
    intro j k hjk u huj huk
    by_cases hj : j = n
    · subst hj
      rw [Function.update_self] at huj
      rw [Function.update_of_ne hjk.symm] at huk
      exact hother k hjk.symm u huk huj
    · rw [Function.update_of_ne hj] at huj
      by_cases hk : k = n
      · subst hk
        rw [Function.update_self] at huk
        exact hother j hj u huj huk
      · rw [Function.update_of_ne hk] at huk
        exact h.apart j k hjk u huj huk

end

/-! ### Where an event is -/

def PipelineOutput.game? : PipelineOutput → Option GameFinishedEvent
  | .effect _ (.publishGameEvent event) => some event
  | _ => none

/-- The event is lost: dropped or failed to be sent, mislaid, or gone with its process. -/
def PipelineOutput.lost? : PipelineOutput → Option GameFinishedEvent
  | .events _ (.dropped event) => some event
  | .events _ (.publishFailed event) => some event
  | .lost event => some event
  | _ => none

def PipelineOutput.arrived? : PipelineOutput → Option GameFinishedEvent
  | .arrived event => some event
  | _ => none

def PipelineOutput.result? : PipelineOutput → Option ResultsWorker.Output
  | .results o => some o
  | _ => none

/-- The games that were played to their end, in the order in which they ended. -/
def gamesOf (os : List PipelineOutput) : List GameFinishedEvent :=
  os.filterMap PipelineOutput.game?

def lostEvents (os : List PipelineOutput) : List GameFinishedEvent :=
  os.filterMap PipelineOutput.lost?

def arrivals (os : List PipelineOutput) : List GameFinishedEvent :=
  os.filterMap PipelineOutput.arrived?

def resultsOf (os : List PipelineOutput) : List ResultsWorker.Output :=
  os.filterMap PipelineOutput.result?

def Pipeline.Holds (p : Pipeline) (n : ProcessId) (event : GameFinishedEvent) : Prop :=
  event ∈ (p.processes n).publisher.pending

/-- A process holds the event, it is on its way to the broker, it is lost, or it has arrived. -/
def Located (p : Pipeline) (os : List PipelineOutput) (event : GameFinishedEvent) : Prop :=
  (∃ n, p.Holds n event) ∨ event ∈ p.wire ∨ event ∈ lostEvents os ∨ event ∈ arrivals os

section
variable {p q : Pipeline} {n : ProcessId} {os ps : List PipelineOutput}
  {event : GameFinishedEvent}

theorem holds_split (p : Pipeline) (n : ProcessId) (event : GameFinishedEvent) :
    (∃ k, p.Holds k event) ↔ p.Holds n event ∨ ∃ k, k ≠ n ∧ p.Holds k event := by
  constructor
  · rintro ⟨k, hk⟩
    by_cases hkn : k = n
    · exact .inl (hkn ▸ hk)
    · exact .inr ⟨k, hkn, hk⟩
  · rintro (hn | ⟨k, -, hk⟩)
    · exact ⟨n, hn⟩
    · exact ⟨k, hk⟩

theorem holds_update {process : Process}
    (hq : q.processes = Function.update p.processes n process) :
    (∃ k, q.Holds k event) ↔
      event ∈ process.publisher.pending ∨ ∃ k, k ≠ n ∧ p.Holds k event := by
  rw [holds_split q n event]
  refine or_congr ?_ (exists_congr fun k => and_congr_right fun hk => ?_)
  · rw [Pipeline.Holds, hq, Function.update_self]
  · rw [Pipeline.Holds, hq, Function.update_of_ne hk]
    rfl

theorem lostEvents_append : lostEvents (os ++ ps) = lostEvents os ++ lostEvents ps :=
  List.filterMap_append

theorem arrivals_append : arrivals (os ++ ps) = arrivals os ++ arrivals ps :=
  List.filterMap_append

theorem gamesOf_append : gamesOf (os ++ ps) = gamesOf os ++ gamesOf ps :=
  List.filterMap_append

theorem resultsOf_append : resultsOf (os ++ ps) = resultsOf os ++ resultsOf ps :=
  List.filterMap_append

theorem located_append : Located p (os ++ ps) event ↔
    Located p os event ∨ event ∈ lostEvents ps ∨ event ∈ arrivals ps := by
  rw [Located, Located, lostEvents_append, arrivals_append, List.mem_append, List.mem_append]
  tauto

theorem outputs_effects (n : ProcessId) (es : List Effect) :
    gamesOf (es.map (.effect n)) = publishedEvents es ∧ lostEvents (es.map (.effect n)) = [] ∧
    arrivals (es.map (.effect n)) = [] ∧ resultsOf (es.map (.effect n)) = [] := by
  refine ⟨?_, ?_, ?_, ?_⟩
  · rw [gamesOf, List.filterMap_map, publishedEvents]
    refine List.filterMap_congr fun e _ => ?_
    cases e <;> rfl
  all_goals
    refine List.filterMap_eq_nil_iff.mpr fun o ho => ?_
    obtain ⟨e, -, rfl⟩ := List.mem_map.mp ho
    rfl

theorem outputs_events (n : ProcessId) (es : List Events.EventsOutput) :
    gamesOf (es.map (.events n)) = [] ∧ arrivals (es.map (.events n)) = [] ∧
    resultsOf (es.map (.events n)) = [] := by
  refine ⟨?_, ?_, ?_⟩
  all_goals
    refine List.filterMap_eq_nil_iff.mpr fun o ho => ?_
    obtain ⟨e, -, rfl⟩ := List.mem_map.mp ho
    rfl

theorem outputs_results (es : List ResultsWorker.Output) :
    gamesOf (es.map .results) = [] ∧ lostEvents (es.map .results) = [] ∧
    arrivals (es.map .results) = [] ∧ resultsOf (es.map .results) = es := by
  refine ⟨?_, ?_, ?_, ?_⟩
  case refine_4 =>
    rw [resultsOf, List.filterMap_map]
    exact List.filterMap_some
  all_goals
    refine List.filterMap_eq_nil_iff.mpr fun o ho => ?_
    obtain ⟨e, -, rfl⟩ := List.mem_map.mp ho
    rfl

theorem outputs_lost (es : List GameFinishedEvent) :
    gamesOf (es.map .lost) = [] ∧ lostEvents (es.map .lost) = es ∧
    arrivals (es.map .lost) = [] ∧ resultsOf (es.map .lost) = [] := by
  refine ⟨?_, ?_, ?_, ?_⟩
  case refine_2 =>
    rw [lostEvents, List.filterMap_map]
    exact List.filterMap_some
  all_goals
    refine List.filterMap_eq_nil_iff.mpr fun o ho => ?_
    obtain ⟨e, -, rfl⟩ := List.mem_map.mp ho
    rfl

/-- A call of the publisher ends with its event sent or lost. -/
theorem mem_ended (n : ProcessId) (es : List Events.EventsOutput) :
    event ∈ es.filterMap Events.EventsOutput.ended? ↔
      event ∈ sentEvents es ∨ event ∈ lostEvents (es.map (.events n)) := by
  rw [lostEvents, List.filterMap_map]
  simp only [List.mem_filterMap, sentEvents, Function.comp_apply]
  rw [← exists_or]
  refine exists_congr fun o => ?_
  rw [← and_or_left]
  refine and_congr_right fun _ => ?_
  cases o <;> simp [Events.EventsOutput.ended?, PipelineOutput.lost?]

theorem pending_published (events : List GameFinishedEvent) (s : Events.Publisher) :
    (events.foldl Events.Publisher.publishGameEvent s).pending = s.pending ++ events := by
  induction events generalizing s with
  | nil => exact (List.append_nil _).symm
  | cons e events ih =>
    rw [List.foldl_cons, ih, Events.Publisher.pending_publish, List.append_assoc]
    rfl

theorem mem_wire {place : ℕ} {taken : GameFinishedEvent} (h : p.wire[place]? = some taken) :
    event ∈ p.wire ↔ event = taken ∨ event ∈ p.wire.eraseIdx place := by
  obtain ⟨hi, rfl⟩ := List.getElem?_eq_some_iff.mp h
  rw [← (List.getElem_cons_eraseIdx_perm hi).mem_iff, List.mem_cons]

end

/-! ### One step -/

section
variable [Runtime] [Postgres] {selves : ProcessId → ShardIdentity} {p q : Pipeline}
  {os ps : List PipelineOutput}

/-- What a step can do to the pipeline. -/
inductive Move (selves : ProcessId → ShardIdentity) (p : Pipeline) :
    Pipeline → List PipelineOutput → Prop
  | play {n : ProcessId} {i : Env × ServerInput} {t : Server} {es : List Effect}
      (hu : i.1.uuid ∉ p.issued)
      (hs : (serverSystem (selves n)).step (p.processes n).server i t es) :
      Move selves p
        { p.setProcess n ⟨t, (publishedEvents es).foldl Events.Publisher.publishGameEvent
            (p.processes n).publisher⟩ with issued := i.1.uuid :: p.issued }
        (es.map (.effect n))
  | goOn {n : ProcessId} {i : Events.EventsInput} {t : Events.Publisher}
      {es : List Events.EventsOutput} (hi : Events.EventsInput.published? i = none)
      (hs : (p.processes n).publisher.step i = some (t, es)) :
      Move selves p
        { p.setProcess n { p.processes n with publisher := t } with
          wire := p.wire ++ sentEvents es } (es.map (.events n))
  | arrive {place : ℕ} {event : GameFinishedEvent} (h : p.wire[place]? = some event) :
      Move selves p
        { p with
          wire := p.wire.eraseIdx place
          workers := { p.workers with queue := p.workers.queue.publish (.finished event) } }
        [.arrived event]
  | mislay {place : ℕ} {event : GameFinishedEvent} (h : p.wire[place]? = some event) :
      Move selves p { p with wire := p.wire.eraseIdx place } [.lost event]
  | results {i : ResultsWorker.Input} {t : ResultsWorker.State} {es : List ResultsWorker.Output}
      (hs : p.workers.step i = some (t, es)) :
      Move selves p { p with workers := t } (es.map .results)
  | die {n : ProcessId} :
      Move selves p (p.setProcess n (newProcess (selves n)))
        ((p.processes n).publisher.pending.map .lost)

theorem step_move {input : PipelineInput}
    (hs : (Pipeline.step selves p input) = some (q, ps)) : Move selves p q ps := by
  cases input with
  | game n i =>
    simp only [Pipeline.step, Pipeline.play] at hs
    split_ifs at hs with hu
    obtain ⟨r, hr, he⟩ := Option.map_eq_some_iff.mp hs
    obtain ⟨rfl, rfl⟩ := Prod.mk.inj he
    exact .play hu hr
  | events n i =>
    simp only [Pipeline.step, Pipeline.goOn] at hs
    split_ifs at hs with hi
    obtain ⟨r, hr, he⟩ := Option.map_eq_some_iff.mp hs
    obtain ⟨rfl, rfl⟩ := Prod.mk.inj he
    exact .goOn (Option.not_isSome_iff_eq_none.mp hi) hr
  | arrive place =>
    obtain ⟨event, h, he⟩ := Option.map_eq_some_iff.mp hs
    obtain ⟨rfl, rfl⟩ := Prod.mk.inj he
    exact .arrive h
  | mislay place =>
    obtain ⟨event, h, he⟩ := Option.map_eq_some_iff.mp hs
    obtain ⟨rfl, rfl⟩ := Prod.mk.inj he
    exact .mislay h
  | results i =>
    obtain ⟨r, hr, he⟩ := Option.map_eq_some_iff.mp hs
    obtain ⟨rfl, rfl⟩ := Prod.mk.inj he
    exact .results hr
  | die n =>
    obtain ⟨rfl, rfl⟩ := Prod.mk.inj (Option.some.inj hs)
    exact .die

/-- A step loses sight of no event, and finds none that was not played. -/
theorem Move.located (h : Move selves p q ps) (os : List PipelineOutput)
    (event : GameFinishedEvent) :
    Located q (os ++ ps) event ↔ Located p os event ∨ event ∈ gamesOf ps := by
  rw [located_append]
  cases h with
  | @play n i t es hu hs =>
    obtain ⟨hgames, hlost, harrived, -⟩ := outputs_effects n es
    rw [hgames, hlost, harrived]
    simp only [Located, List.not_mem_nil, or_false]
    rw [holds_update (p := p) (n := n) rfl, holds_split p n, pending_published, List.mem_append]
    generalize (∃ k, k ≠ n ∧ p.Holds k event) = others
    simp only [Pipeline.Holds, Pipeline.setProcess]
    grind
  | @goOn n i t es hi hs =>
    obtain ⟨hgames, harrived, -⟩ := outputs_events n es
    have hperm := (Events.Publisher.step_pending hs).mem_iff (a := event)
    rw [hi, Option.toList_none, List.append_nil, List.mem_append, mem_ended n] at hperm
    rw [hgames, harrived]
    simp only [Located, List.not_mem_nil, or_false, List.mem_append]
    rw [holds_update (p := p) (n := n) rfl, holds_split p n]
    generalize (∃ k, k ≠ n ∧ p.Holds k event) = others
    simp only [Pipeline.Holds]
    rw [← hperm]
    grind
  | @arrive place taken hw =>
    have hgames : gamesOf [.arrived taken] = [] := rfl
    have hlost : lostEvents [.arrived taken] = [] := rfl
    have harrived : arrivals [.arrived taken] = [taken] := rfl
    rw [hgames, hlost, harrived, Located, Located, mem_wire hw]
    simp only [List.not_mem_nil, List.mem_singleton, or_false, false_or]
    change ((∃ k, p.Holds k event) ∨ _) ∨ _ ↔ _
    grind
  | @mislay place taken hw =>
    have hgames : gamesOf [.lost taken] = [] := rfl
    have hlost : lostEvents [.lost taken] = [taken] := rfl
    have harrived : arrivals [.lost taken] = [] := rfl
    rw [hgames, hlost, harrived, Located, Located, mem_wire hw]
    simp only [List.not_mem_nil, List.mem_singleton, or_false]
    change ((∃ k, p.Holds k event) ∨ _) ∨ _ ↔ _
    grind
  | @results i t es hs =>
    obtain ⟨hgames, hlost, harrived, -⟩ := outputs_results es
    rw [hgames, hlost, harrived]
    simp only [Located, List.not_mem_nil, or_false]
    rfl
  | @die n =>
    obtain ⟨hgames, hlost, harrived, -⟩ := outputs_lost (p.processes n).publisher.pending
    rw [hgames, hlost, harrived]
    simp only [Located, List.not_mem_nil, or_false]
    rw [holds_update (p := p) (n := n) rfl, holds_split p n]
    have hnone : event ∉ (newProcess (selves n)).publisher.pending := List.not_mem_nil
    generalize (∃ k, k ≠ n ∧ p.Holds k event) = others
    simp only [Pipeline.Holds, Pipeline.setProcess, hnone, false_or]
    grind

/-! ### The games -/

omit [Runtime] [Postgres] in
theorem servers_setProcess (p : Pipeline) (n : ProcessId) (process : Process) :
    (fun k => ((p.setProcess n process).processes k).server) =
      Function.update (fun k => (p.processes k).server) n process.server :=
  funext fun k => Function.apply_update (fun _ => Process.server) p.processes n process k

theorem Move.games {recorded : List Uuid} (h : Move selves p q ps) {log : List GameFinishedEvent}
    (hinv : GamesInv selves recorded (fun k => (p.processes k).server) p.issued log) :
    GamesInv selves recorded (fun k => (q.processes k).server) q.issued (log ++ gamesOf ps) := by
  cases h with
  | @play n i t es hu hs =>
    rw [(outputs_effects n es).1]
    show GamesInv _ _ (fun k => ((p.setProcess n _).processes k).server) _ _
    rw [servers_setProcess]
    exact hinv.play hu hs
  | @goOn n i t es hi hs =>
    rw [(outputs_events n es).1, List.append_nil]
    show GamesInv _ _ (fun k => ((p.setProcess n _).processes k).server) _ _
    rw [servers_setProcess, Function.update_eq_self]
    exact hinv
  | arrive _ => exact (List.append_nil log).symm ▸ hinv
  | mislay _ => exact (List.append_nil log).symm ▸ hinv
  | @results i t es hs =>
    rw [(outputs_results es).1, List.append_nil]
    exact hinv
  | @die n =>
    rw [(outputs_lost _).1, List.append_nil, servers_setProcess]
    exact hinv.die n

/-! ### The deliveries -/

omit [Runtime] in
theorem Delivered.publish {messages : List ResultsWorker.Content} {tables : HistoryTables}
    {s : ResultsWorker.State} {os : List ResultsWorker.Output}
    (h : ResultsWorker.Inv messages tables s os) (event : GameFinishedEvent) :
    ResultsWorker.Inv (messages ++ [.finished event]) tables
      { s with queue := s.queue.publish (.finished event) } os where
  tables := h.tables
  source dto hd := by
    obtain ⟨e, he, hv⟩ := h.source dto hd
    exact ⟨e, List.mem_append_left _ he, hv⟩
  posted x hx := List.mem_append_left _ (h.posted x hx)
  kept m hm := by
    rcases Broker.Queue.keeps_publish.mp hm with hm | rfl
    · exact List.mem_append_left _ (h.kept m hm)
    · exact List.mem_append_right _ (List.mem_singleton_self _)
  request := h.request
  holding := h.holding
  answered := h.answered
  settled e he := by
    rcases List.mem_append.mp he with he | he
    · exact (h.settled e he).imp_left fun hk => Broker.Queue.keeps_publish.mpr (.inl hk)
    · exact .inl (Broker.Queue.keeps_publish.mpr (.inr (List.mem_singleton.mp he)))

/-! ### Every run -/

structure PipelineInv (selves : ProcessId → ShardIdentity) (tables : HistoryTables)
    (p : Pipeline) (os : List PipelineOutput) : Prop where
  games : GamesInv selves tables.games.keys (fun k => (p.processes k).server) p.issued
    (gamesOf os)
  located : ∀ event, event ∈ gamesOf os ↔ Located p os event
  delivered : ResultsWorker.Inv ((arrivals os).map .finished) tables p.workers (resultsOf os)

theorem PipelineInv.start (selves : ProcessId → ShardIdentity) (tables : HistoryTables) :
    PipelineInv selves tables (newPipeline selves tables) [] where
  games := .start selves tables.games.keys
  located event := by
    refine iff_of_false List.not_mem_nil ?_
    rintro (⟨n, hn⟩ | hw | hl | ha)
    · exact List.not_mem_nil hn
    · exact List.not_mem_nil hw
    · exact List.not_mem_nil hl
    · exact List.not_mem_nil ha
  delivered := .start [] tables

theorem PipelineInv.step (huuid : ∀ u, Postgres.uuid (uuidText u) = some u)
    {tables : HistoryTables} (h : PipelineInv selves tables p os) (hm : Move selves p q ps) :
    PipelineInv selves tables q (os ++ ps) where
  games := by
    rw [gamesOf_append]
    exact hm.games h.games
  located event := by
    rw [hm.located, gamesOf_append, List.mem_append, h.located]
  delivered := by
    have hold := h.delivered
    rw [arrivals_append, resultsOf_append]
    cases hm with
    | @play n i t es hu hs =>
      rw [(outputs_effects n es).2.2.1, (outputs_effects n es).2.2.2, List.append_nil,
        List.append_nil]
      exact hold
    | @goOn n i t es hi hs =>
      rw [(outputs_events n es).2.1, (outputs_events n es).2.2, List.append_nil, List.append_nil]
      exact hold
    | @arrive place event hw =>
      rw [List.map_append]
      show ResultsWorker.Inv _ _ _ (resultsOf os ++ [])
      rw [List.append_nil]
      exact Delivered.publish hold event
    | mislay _ =>
      show ResultsWorker.Inv ((arrivals os ++ []).map _) _ _ (resultsOf os ++ [])
      rw [List.append_nil, List.append_nil]
      exact hold
    | @results i t es hs =>
      rw [(outputs_results es).2.2.1, (outputs_results es).2.2.2, List.append_nil]
      refine hold.step huuid (fun e e' he he' hid => ?_) (ResultsWorker.step_cases hs)
      obtain ⟨x, hx, hxe⟩ := List.mem_map.mp he
      obtain ⟨y, hy, hye⟩ := List.mem_map.mp he'
      obtain rfl := ResultsWorker.Content.finished.inj hxe
      obtain rfl := ResultsWorker.Content.finished.inj hye
      have hgame : ∀ z ∈ arrivals os, z ∈ gamesOf os := fun z hz =>
        (h.located z).mpr (.inr (.inr (.inr hz)))
      exact List.inj_on_of_nodup_map h.games.once (hgame x hx) (hgame y hy) hid
    | @die n =>
      rw [(outputs_lost _).2.2.1, (outputs_lost _).2.2.2, List.append_nil, List.append_nil]
      exact hold

/-- What is on record is what was there before and some of the games played, each once and as the
process that played it published it. A game that was played is held by its process, on its way,
lost, kept by the broker, on record, or was refused by user with a permanent 4xx. -/
theorem games_recorded_once (huuid : ∀ u, Postgres.uuid (uuidText u) = some u)
    (selves : ProcessId → ShardIdentity) (tables : HistoryTables) (is : List PipelineInput)
    (p : Pipeline) (os : List PipelineOutput)
    (hr : Machine.Run (pipelineSystem selves tables) is p os) :
    saveEach tables (ResultsWorker.commitsOf (resultsOf os)) = some p.workers.tables ∧
    ((ResultsWorker.commitsOf (resultsOf os)).map fun dto => dto.gameId.text).Nodup ∧
    (∀ dto ∈ ResultsWorker.commitsOf (resultsOf os), ∃ e ∈ gamesOf os, validate e = some dto) ∧
    ((gamesOf os).map GameFinishedEvent.gameId).Nodup ∧
    ∀ e ∈ gamesOf os, (∃ n, p.Holds n e) ∨ e ∈ p.wire ∨ e ∈ lostEvents os ∨
      p.workers.queue.Keeps (.finished e) ∨
      (∃ dto ∈ ResultsWorker.commitsOf (resultsOf os), validate e = some dto) ∨
      ∃ status, .answered e status ∈ resultsOf os ∧ ResultsWorker.permanent status = true := by
  have hinv : PipelineInv selves tables p os := by
    induction hr with
    | nil h =>
      obtain rfl := h
      exact .start selves tables
    | snoc _ hs ih => exact ih.step huuid (step_move hs)
  have hgame : ∀ e ∈ arrivals os, e ∈ gamesOf os := fun e he =>
    (hinv.located e).mpr (.inr (.inr (.inr he)))
  refine ⟨hinv.delivered.tables, saveEach_nodup hinv.delivered.tables, fun dto hd => ?_,
    hinv.games.once, fun e he => ?_⟩
  · obtain ⟨e, he, hv⟩ := hinv.delivered.source dto hd
    obtain ⟨x, hx, hxe⟩ := List.mem_map.mp he
    obtain rfl := ResultsWorker.Content.finished.inj hxe
    exact ⟨x, hgame x hx, hv⟩
  · rcases (hinv.located e).mp he with hheld | hwire | hlost | harrived
    · exact .inl hheld
    · exact .inr (.inl hwire)
    · exact .inr (.inr (.inl hlost))
    · refine .inr (.inr (.inr ?_))
      rcases hinv.delivered.settled e (List.mem_map_of_mem harrived) with hk | (hold | hnew) | ha
      · exact .inl hk
      · exact absurd hold (hinv.games.fresh e he)
      · exact .inr (.inl hnew)
      · exact .inr (.inr ha)

end

def plainShards (_ : ProcessId) : ShardIdentity := plainShard

/-- A game of process `1`, whose event is sent, arrives and is saved; the process dies after it has
sent it. -/
def oneGame : List PipelineInput :=
  (numbered (gameOfTwo none none (joinFrame "AB3DE"))).map (.game 1) ++
  [.events 1 (.settle 0 true), .events 1 (.resume 0), .events 1 (.settle 0 true),
   .events 1 (.resume 0), .events 1 (.settle 0 true), .events 1 (.resume 0),
   .events 1 (.send 0 true), .die 1, .arrive 0, .results (.deliver 0 0), .results (.carryOut 0),
   .results (.answer 0 true)]

theorem oneGame_recorded : ∃ p os,
    Machine.Run (@pipelineSystem plainRuntime plainPostgres plainShards .empty) oneGame p os ∧
    (gamesOf os).length = 1 ∧ (ResultsWorker.commitsOf (resultsOf os)).length = 1 ∧
    p.workers.queue.ready.length = 0 ∧
    @saveEach plainPostgres .empty (ResultsWorker.commitsOf (resultsOf os)) =
      some p.workers.tables := by
  have hrun : Machine.Run (@pipelineSystem plainRuntime plainPostgres plainShards .empty)
      oneGame _ _ := Machine.exec_get_run (by decide +kernel)
  exact ⟨_, _, hrun, by decide +kernel, by decide +kernel, by decide +kernel,
    (@games_recorded_once plainRuntime plainPostgres plainPostgres_uuid plainShards .empty _ _ _
      hrun).1⟩

end GachaMind.Results
