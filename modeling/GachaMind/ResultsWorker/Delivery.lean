import GachaMind.ResultsWorker.Worker
import GachaMind.User.Storage

/-!
# Neither lost nor counted twice

A transaction that commits is seen as one `committed`, and the tables are those of saving
exactly the events seen. A message is acknowledged on an answer alone, so it leaves the broker
only when its game is in the tables or user has answered with a 4xx that will not go away.
-/

namespace GachaMind.ResultsWorker
open GachaMind.Js GachaMind.Shared GachaMind.User KeyedTable

/-! ### What has been seen -/

def Output.committed? : Output → Option GameFinishedDto
  | .committed event => some event
  | .answered _ _ => none

def commitsOf (os : List Output) : List GameFinishedDto := os.filterMap Output.committed?

theorem commitsOf_append (os ps : List Output) :
    commitsOf (os ++ ps) = commitsOf os ++ commitsOf ps :=
  List.filterMap_append

/-- The game was in the tables at the start, or a transaction has committed it since. -/
def Recorded (t : HistoryTables) (os : List Output) (event : GameFinishedEvent) : Prop :=
  event.gameId ∈ t.games.keys ∨ ∃ dto ∈ commitsOf os, validate event = some dto

def Settled (t : HistoryTables) (os : List Output) (event : GameFinishedEvent) : Prop :=
  Recorded t os event ∨ ∃ status, .answered event status ∈ os ∧ permanent status = true

theorem Recorded.append {t : HistoryTables} {os : List Output} {event : GameFinishedEvent}
    (h : Recorded t os event) (ps : List Output) : Recorded t (os ++ ps) event := by
  rcases h with h | ⟨dto, hd, hv⟩
  · exact .inl h
  · rw [Recorded, commitsOf_append]
    exact .inr ⟨dto, List.mem_append_left _ hd, hv⟩

theorem Settled.append {t : HistoryTables} {os : List Output} {event : GameFinishedEvent}
    (h : Settled t os event) (ps : List Output) : Settled t (os ++ ps) event := by
  rcases h with h | ⟨status, ho, hp⟩
  · exact .inl (h.append ps)
  · exact .inr ⟨status, List.mem_append_left _ ho, hp⟩

theorem verdict_deliver {res : Option Response} (h : verdict (deliver res) = .ack) :
    ∃ r, res = some r ∧ (ok r.status = true ∨ permanent r.status = true) := by
  cases res with
  | none => cases h
  | some r =>
    refine ⟨r, rfl, ?_⟩
    simp only [deliver] at h
    split_ifs at h with hok hsaved hp
    · exact .inl hok
    · exact .inl hok
    · exact .inr hp
    · cases h

/-! ### The invariant -/

theorem getElem?_snoc_of_some {α : Type} {xs : List α} {i : ℕ} {x : α} (y : α)
    (h : xs[i]? = some x) : (xs ++ [y])[i]? = some x := by
  obtain ⟨hi, -⟩ := List.getElem?_eq_some_iff.mp h
  rw [List.getElem?_append_left hi, h]

theorem fetching_of_setStage {s : State} {worker k : WorkerId} {stage : Stage}
    {e : GameFinishedEvent} {i : ℕ} (hk : (s.setStage worker stage).stage k = .fetching e i) :
    k = worker ∧ stage = .fetching e i ∨ s.stage k = .fetching e i := by
  change Function.update s.stage worker stage k = _ at hk
  rw [Function.update_apply] at hk
  split_ifs at hk with hw
  · exact .inl ⟨hw, hk⟩
  · exact .inr hk

section
variable [Postgres]

structure Inv (messages : List Content) (t : HistoryTables) (s : State) (os : List Output) :
    Prop where
  tables : saveEach t (commitsOf os) = some s.tables
  source : ∀ dto ∈ commitsOf os, ∃ e, .finished e ∈ messages ∧ validate e = some dto
  posted : ∀ x ∈ s.exchanges, .finished x.event ∈ messages
  kept : ∀ m, s.queue.Keeps m → m ∈ messages
  request : ∀ k e i, s.stage k = .fetching e i → ∃ x, s.exchanges[i]? = some x ∧ x.event = e
  holding : ∀ k e i, s.stage k = .fetching e i → ∀ m, s.queue.held k = some m → m = .finished e
  answered : ∀ x ∈ s.exchanges, ∀ res, x.answer = some res → ok res.status = true →
    Recorded t os x.event
  settled : ∀ e, .finished e ∈ messages → s.queue.Keeps (.finished e) ∨ Settled t os e

variable {messages : List Content} {t : HistoryTables} {s : State} {os : List Output}

theorem Inv.start (messages : List Content) (t : HistoryTables) :
    Inv messages t ⟨.ofList messages, fun _ => .idle, [], t⟩ [] where
  tables := rfl
  source dto hd := by cases hd
  posted x hx := by cases hx
  kept m hm := Broker.Queue.keeps_ofList.mp hm
  request k e i hk := by cases hk
  holding k e i hk := by cases hk
  answered x hx := by cases hx
  settled e he := .inl (Broker.Queue.keeps_ofList.mpr he)

theorem Inv.hear (h : Inv messages t s os) (event : GameFinishedEvent) (status : ℕ) :
    Inv messages t s (os ++ [.answered event status]) := by
  have hcommits : commitsOf (os ++ [.answered event status]) = commitsOf os := by
    rw [commitsOf_append]
    exact List.append_nil _
  refine ⟨?_, ?_, h.posted, h.kept, h.request, h.holding, ?_, ?_⟩
  · rw [hcommits]
    exact h.tables
  · rw [hcommits]
    exact h.source
  · exact fun x hx res hres hok => (h.answered x hx res hres hok).append _
  · exact fun e he => (h.settled e he).imp_right fun hs => hs.append _

theorem Inv.requeue (h : Inv messages t s os) (worker : WorkerId) :
    Inv messages t { s with queue := s.queue.requeue worker } os where
  tables := h.tables
  source := h.source
  posted := h.posted
  kept m hm := h.kept m (Broker.Queue.keeps_requeue.mp hm)
  request := h.request
  holding k e i hk m hm := h.holding k e i hk m (Broker.Queue.held_of_requeue hm)
  answered := h.answered
  settled e he := (h.settled e he).imp_left Broker.Queue.keeps_requeue.mpr

theorem Inv.setStage (h : Inv messages t s os) (worker : WorkerId) {stage : Stage}
    (hstage : ∀ e i, stage ≠ .fetching e i) : Inv messages t (s.setStage worker stage) os := by
  have hold : ∀ k e i, (s.setStage worker stage).stage k = .fetching e i →
      s.stage k = .fetching e i := by
    intro k e i hk
    rcases fetching_of_setStage hk with ⟨-, he⟩ | hk
    · exact absurd he (hstage e i)
    · exact hk
  exact ⟨h.tables, h.source, h.posted, h.kept, fun k e i hk => h.request k e i (hold k e i hk),
    fun k e i hk => h.holding k e i (hold k e i hk), h.answered, h.settled⟩

theorem Inv.ack (h : Inv messages t s os) {worker : WorkerId}
    (hgo : ∀ e, s.queue.held worker = some (.finished e) → Settled t os e) :
    Inv messages t { s with queue := s.queue.ack worker } os where
  tables := h.tables
  source := h.source
  posted := h.posted
  kept m hm := h.kept m (Broker.Queue.keeps_of_ack hm)
  request := h.request
  holding k e i hk m hm := h.holding k e i hk m (Broker.Queue.held_of_ack hm)
  answered := h.answered
  settled e he := by
    rcases h.settled e he with hk | hs
    · rcases Broker.Queue.keeps_ack hk with hk | hk
      · exact .inl hk
      · exact .inr (hgo e hk)
    · exact .inr hs

theorem Inv.conclude (h : Inv messages t s os) {worker : WorkerId} {event : GameFinishedEvent}
    {i : ℕ} (hstage : s.stage worker = .fetching event i) {delivery : Delivery}
    (hgo : verdict delivery = .ack → Settled t os event) :
    Inv messages t (s.conclude worker delivery) os := by
  unfold State.conclude
  cases hv : verdict delivery with
  | ack =>
    have hheld : ∀ e, s.queue.held worker = some (.finished e) → Settled t os e := by
      intro e he
      rw [Content.finished.inj (h.holding worker event i hstage _ he)]
      exact hgo hv
    exact (h.ack hheld).setStage worker fun e i he => by cases he
  | nack => exact h.setStage worker fun e i he => by cases he

/-! ### The steps -/

theorem Inv.hand (h : Inv messages t s os) {worker : WorkerId} {place : ℕ} {m : Content}
    {q : Broker.Queue WorkerId Content} (hidle : s.stage worker = .idle)
    (hq : s.queue.deliver worker place = some (m, q)) :
    Inv messages t ({ s with queue := q }.receive worker m) os := by
  obtain ⟨hm, hheld, hkeeps⟩ := Broker.Queue.deliver_spec hq
  have hmessage : m ∈ messages := h.kept m (.inl hm)
  have hothers : ∀ {k}, k ≠ worker → q.held k = s.queue.held k := fun hk => by
    rw [hheld, Function.update_of_ne hk]
  have hself : q.held worker = some m := by rw [hheld, Function.update_self]
  have hdelivered : Inv messages t { s with queue := q } os := by
    refine ⟨h.tables, h.source, h.posted, fun x hx => h.kept x ((hkeeps x).mp hx), h.request,
      fun k e i hk => ?_, h.answered, fun e he => (h.settled e he).imp_left (hkeeps _).mpr⟩
    have hne : k ≠ worker := by
      rintro rfl
      cases hidle.symm.trans hk
    intro x hx
    exact h.holding k e i hk x ((hothers hne).symm.trans hx)
  have hdrop : (∀ e, m ≠ .finished e) →
      Inv messages t { s with queue := q.ack worker } os := fun hne =>
    hdelivered.ack fun e he => absurd (Option.some.inj (hself.symm.trans he)) (hne e)
  cases m with
  | unparseable => exact hdrop fun e he => by cases he
  | unknown => exact hdrop fun e he => by cases he
  | null => exact hdelivered.requeue worker
  | finished event =>
    refine ⟨hdelivered.tables, hdelivered.source, fun x hx => ?_, hdelivered.kept,
      fun k e i hk => ?_, fun k e i hk x hx => ?_, fun x hx res hres hok => ?_, hdelivered.settled⟩
    · rcases List.mem_append.mp hx with hx | hx
      · exact h.posted x hx
      · rw [List.mem_singleton.mp hx]
        exact hmessage
    · rcases fetching_of_setStage hk with ⟨-, he⟩ | hk
      · obtain ⟨rfl, rfl⟩ := Stage.fetching.inj he
        exact ⟨⟨event, none⟩, List.getElem?_concat_length, rfl⟩
      · obtain ⟨x, hx, he⟩ := h.request k e i hk
        exact ⟨x, getElem?_snoc_of_some _ hx, he⟩
    · rcases fetching_of_setStage hk with ⟨rfl, he⟩ | hk
      · obtain ⟨rfl, rfl⟩ := Stage.fetching.inj he
        exact Option.some.inj (hx.symm.trans hself)
      · exact hdelivered.holding k e i hk x hx
    · rcases List.mem_append.mp hx with hx | hx
      · exact h.answered x hx res hres hok
      · rw [List.mem_singleton.mp hx] at hres
        cases hres

theorem Inv.recorded_of_known (h : Inv messages t s os)
    (huuid : ∀ u, Postgres.uuid (uuidText u) = some u)
    (hids : ∀ e e', .finished e ∈ messages → .finished e' ∈ messages →
      e.gameId = e'.gameId → e = e')
    {event : GameFinishedEvent} (he : .finished event ∈ messages)
    (hknown : event.gameId ∈ s.tables.games.keys) : Recorded t os event := by
  obtain ⟨ids, hread, hkeys⟩ := saveEach_keys h.tables
  rw [hkeys] at hknown
  rcases List.mem_append.mp hknown with hold | hnew
  · exact .inl hold
  · have hmem : some event.gameId ∈ ids.map some := List.mem_map_of_mem hnew
    rw [← hread] at hmem
    obtain ⟨dto, hd, hid⟩ := List.mem_map.mp hmem
    obtain ⟨e, hm, hv⟩ := h.source dto hd
    rw [(validate_spec hv).1, huuid] at hid
    rw [hids event e he hm (Option.some.inj hid).symm]
    exact .inr ⟨dto, hd, hv⟩

theorem Inv.reply (h : Inv messages t s os) {request : ℕ} {x : Exchange}
    (hx : s.exchanges[request]? = some x) {tables : HistoryTables} {res : Response}
    {ps : List Output} (htables : saveEach t (commitsOf (os ++ ps)) = some tables)
    (hsource : ∀ dto ∈ commitsOf ps, validate x.event = some dto)
    (hok : ok res.status = true → Recorded t (os ++ ps) x.event) :
    Inv messages t
      { s with
        exchanges := s.exchanges.set request { x with answer := some res }
        tables := tables } (os ++ ps) := by
  obtain ⟨hi, -⟩ := List.getElem?_eq_some_iff.mp hx
  have hposted : .finished x.event ∈ messages := h.posted x (List.mem_of_getElem? hx)
  refine ⟨htables, fun dto hd => ?_, fun y hy => ?_, h.kept, fun k e i hk => ?_, h.holding,
    fun y hy r hr hrok => ?_, fun e he => (h.settled e he).imp_right fun hs => hs.append ps⟩
  · rw [commitsOf_append] at hd
    rcases List.mem_append.mp hd with hd | hd
    · exact h.source dto hd
    · exact ⟨x.event, hposted, hsource dto hd⟩
  · rcases List.mem_or_eq_of_mem_set hy with hy | rfl
    · exact h.posted y hy
    · exact hposted
  · obtain ⟨y, hy, he⟩ := h.request k e i hk
    by_cases hri : request = i
    · subst hri
      obtain rfl := Option.some.inj (hx.symm.trans hy)
      exact ⟨_, List.getElem?_set_self hi, he⟩
    · exact ⟨y, (List.getElem?_set_ne hri).trans hy, he⟩
  · rcases List.mem_or_eq_of_mem_set hy with hy | rfl
    · exact (h.answered y hy r hr hrok).append ps
    · obtain rfl := Option.some.inj hr
      exact hok hrok

theorem Inv.carryOut (h : Inv messages t s os)
    (huuid : ∀ u, Postgres.uuid (uuidText u) = some u)
    (hids : ∀ e e', .finished e ∈ messages → .finished e' ∈ messages →
      e.gameId = e'.gameId → e = e')
    {request : ℕ} {s' : State} {ps : List Output} (hs : s.carryOut request = some (s', ps)) :
    Inv messages t s' (os ++ ps) := by
  obtain ⟨x, hx, hs⟩ := Option.bind_eq_some_iff.mp hs
  have hposted := h.posted x (List.mem_of_getElem? hx)
  cases ha : x.answer with
  | some res =>
    rw [ha] at hs
    cases hs
  | none =>
    rw [ha] at hs
    obtain ⟨rfl, rfl⟩ := Prod.mk.inj (Option.some.inj hs)
    have hnothing : commitsOf (os ++ []) = commitsOf os := by rw [List.append_nil]
    rcases recordGame_cases s.tables x.event with
      ⟨-, he⟩ | ⟨dto, hv, ⟨-, he⟩ | ⟨t', isNew, hsave, he⟩⟩
    · rw [he]
      exact h.reply hx (hnothing ▸ h.tables) (fun dto hd => by cases hd) fun hok => by cases hok
    · rw [he]
      exact h.reply hx (hnothing ▸ h.tables) (fun dto hd => by cases hd) fun hok => by cases hok
    · rw [he]
      obtain ⟨id, hid, ⟨hknown, rfl, rfl⟩ | ⟨-, rfl, -⟩⟩ := saveGameResult_cases hsave
      · rw [(validate_spec hv).1, huuid] at hid
        rw [← Option.some.inj hid] at hknown
        have hrecorded := h.recorded_of_known huuid hids hposted hknown
        exact h.reply hx (hnothing ▸ h.tables) (fun dto hd => by cases hd) fun _ =>
          hrecorded.append []
      · have hcommits : State.commits x.event ⟨200, some true⟩ = [.committed dto] := by
          rw [State.commits, if_pos rfl, hv]
          rfl
        rw [hcommits]
        refine h.reply hx ?_ (fun d hd => ?_) fun _ => .inr ⟨dto, ?_, hv⟩
        · rw [commitsOf_append]
          exact saveEach_snoc h.tables hsave
        · rw [List.mem_singleton.mp hd]
          exact hv
        · rw [commitsOf_append]
          exact List.mem_append_right _ List.mem_cons_self

theorem Inv.respond (h : Inv messages t s os) {worker : WorkerId} {event : GameFinishedEvent}
    {i : ℕ} (hstage : s.stage worker = .fetching event i) {res : Response}
    (hok : ok res.status = true → Recorded t os event) :
    Inv messages t (s.conclude worker (deliver (some res)))
      (os ++ [.answered event res.status]) := by
  have hheard := h.hear event res.status
  refine hheard.conclude hstage fun hv => ?_
  obtain ⟨r, hr, hcause⟩ := verdict_deliver hv
  obtain rfl := Option.some.inj hr
  rcases hcause with hcause | hcause
  · exact .inl ((hok hcause).append _)
  · exact .inr ⟨res.status, by simp, hcause⟩

/-- An answer brings the status that user has given, or one that is not 2xx. -/
inductive WorkerStep (s : State) : State → List Output → Prop
  | hand {worker : WorkerId} {place : ℕ} {m : Content} {q : Broker.Queue WorkerId Content}
      (hidle : s.stage worker = .idle) (hq : s.queue.deliver worker place = some (m, q)) :
      WorkerStep s ({ s with queue := q }.receive worker m) []
  | carryOut {request : ℕ} {s' : State} {ps : List Output}
      (hs : s.carryOut request = some (s', ps)) : WorkerStep s s' ps
  | respond {worker : WorkerId} {event : GameFinishedEvent} {i : ℕ} {res : Response}
      (hstage : s.stage worker = .fetching event i)
      (hres : ok res.status = true → ∃ x given, s.exchanges[i]? = some x ∧
        x.answer = some given ∧ given.status = res.status) :
      WorkerStep s (s.conclude worker (deliver (some res))) [.answered event res.status]
  | giveUp {worker : WorkerId} {event : GameFinishedEvent} {i : ℕ}
      (hstage : s.stage worker = .fetching event i) :
      WorkerStep s (s.conclude worker (deliver none)) []
  | lose {worker : WorkerId} : WorkerStep s { s with queue := s.queue.requeue worker } []
  | restart {worker : WorkerId} :
      WorkerStep s { s.setStage worker .idle with queue := s.queue.requeue worker } []

theorem answer_step {s s' : State} {worker : WorkerId} {whole : Bool} {ps : List Output}
    (hs : s.answer worker whole = some (s', ps)) : WorkerStep s s' ps := by
  unfold State.answer at hs
  split at hs
  · next event request hstage =>
    obtain ⟨given, hgiven, hs⟩ := Option.map_eq_some_iff.mp hs
    obtain ⟨rfl, rfl⟩ := Prod.mk.inj hs
    obtain ⟨x, hx, ha⟩ := Option.bind_eq_some_iff.mp hgiven
    refine .respond hstage fun _ => ⟨x, given, hx, ha, ?_⟩
    cases whole <;> rfl
  · cases hs

theorem refuse_step {s s' : State} {worker : WorkerId} {status : ℕ} {ps : List Output}
    (hs : s.refuse worker status = some (s', ps)) : WorkerStep s s' ps := by
  unfold State.refuse at hs
  split at hs
  · next event request hstage =>
    split_ifs at hs with hok
    obtain ⟨rfl, rfl⟩ := Prod.mk.inj (Option.some.inj hs)
    have hres : WorkerStep s (s.conclude worker (deliver (some ⟨status, none⟩)))
        [.answered event (Response.mk status none).status] :=
      .respond hstage fun ht => absurd ht hok
    exact hres
  · cases hs

theorem step_cases {s s' : State} {input : Input} {ps : List Output}
    (hs : s.step input = some (s', ps)) : WorkerStep s s' ps := by
  cases input with
  | deliver worker place =>
    simp only [State.step] at hs
    split at hs
    · next hidle =>
      obtain ⟨r, hq, he⟩ := Option.map_eq_some_iff.mp hs
      obtain ⟨rfl, rfl⟩ := Prod.mk.inj he
      exact .hand hidle hq
    · cases hs
  | carryOut request => exact .carryOut hs
  | answer worker whole => exact answer_step hs
  | refuse worker status => exact refuse_step hs
  | giveUp worker =>
    simp only [State.step] at hs
    split at hs
    · next hstage =>
      obtain ⟨rfl, rfl⟩ := Prod.mk.inj (Option.some.inj hs)
      exact .giveUp hstage
    · cases hs
  | wake worker =>
    simp only [State.step] at hs
    split at hs
    · obtain ⟨rfl, rfl⟩ := Prod.mk.inj (Option.some.inj hs)
      exact .restart
    · cases hs
  | lose worker =>
    obtain ⟨rfl, rfl⟩ := Prod.mk.inj (Option.some.inj hs)
    exact .lose
  | crash worker =>
    obtain ⟨rfl, rfl⟩ := Prod.mk.inj (Option.some.inj hs)
    exact .restart

theorem Inv.step (h : Inv messages t s os)
    (huuid : ∀ u, Postgres.uuid (uuidText u) = some u)
    (hids : ∀ e e', .finished e ∈ messages → .finished e' ∈ messages →
      e.gameId = e'.gameId → e = e')
    {s' : State} {ps : List Output} (hs : WorkerStep s s' ps) : Inv messages t s' (os ++ ps) := by
  cases hs with
  | hand hidle hq =>
    rw [List.append_nil]
    exact h.hand hidle hq
  | carryOut hs => exact h.carryOut huuid hids hs
  | respond hstage hres =>
    refine h.respond hstage fun hok => ?_
    obtain ⟨x, given, hx, ha, hstatus⟩ := hres hok
    obtain ⟨y, hy, rfl⟩ := h.request _ _ _ hstage
    obtain rfl := Option.some.inj (hx.symm.trans hy)
    exact h.answered x (List.mem_of_getElem? hx) given ha (hstatus ▸ hok)
  | giveUp hstage =>
    rw [List.append_nil]
    exact h.conclude hstage fun hv => by cases hv
  | lose =>
    rw [List.append_nil]
    exact h.requeue _
  | restart =>
    rw [List.append_nil]
    exact (h.requeue _).setStage _ fun e i he => by cases he

/-- Whatever happens to the requests, the workers and their channels, the tables are those of
saving some of the events once each, and an event has left the broker only when it is one of
them, was in the tables from the start, or was answered with a permanent 4xx. -/
theorem delivered_once (huuid : ∀ u, Postgres.uuid (uuidText u) = some u)
    (messages : List Content) (t : HistoryTables)
    (hids : ∀ e e', .finished e ∈ messages → .finished e' ∈ messages →
      e.gameId = e'.gameId → e = e')
    (is : List Input) (s : State) (os : List Output)
    (hr : Machine.Run (workerSystem messages t) is s os) :
    saveEach t (commitsOf os) = some s.tables ∧
    ((commitsOf os).map fun dto => dto.gameId.text).Nodup ∧
    (∀ dto ∈ commitsOf os, ∃ e, .finished e ∈ messages ∧ validate e = some dto) ∧
    ∀ e, .finished e ∈ messages → s.queue.Keeps (.finished e) ∨ e.gameId ∈ t.games.keys ∨
      (∃ dto ∈ commitsOf os, validate e = some dto) ∨
      ∃ status, .answered e status ∈ os ∧ permanent status = true := by
  have hinv : Inv messages t s os := by
    induction hr with
    | nil h =>
      obtain rfl := h
      exact Inv.start messages t
    | snoc _ hs ih => exact ih.step huuid hids (step_cases hs)
  refine ⟨hinv.tables, saveEach_nodup hinv.tables, hinv.source, fun e he => ?_⟩
  rcases hinv.settled e he with hk | (hold | hnew) | ha
  · exact .inl hk
  · exact .inr (.inl hold)
  · exact .inr (.inr (.inl hnew))
  · exact .inr (.inr (.inr ha))

end

def sampleResult : GameFinishedEvent where
  gameId := ⟨1⟩
  roomId := utf16 "AB3DE"
  finishedAt := 12000
  roundsPlayed := 2
  players := [⟨⟨2⟩, some (uuidText ⟨7⟩), utf16 "a", 90, 1⟩]

/-- The request of the first worker commits after its time is up; a second worker posts the
event again. -/
def lateCommit : List Input :=
  [.deliver 0 0, .giveUp 0, .carryOut 0, .wake 0, .deliver 1 0, .carryOut 1, .answer 1 true]

theorem lateCommit_once : ∃ s os,
    Machine.Run (@workerSystem plainPostgres [.finished sampleResult] .empty) lateCommit s os ∧
    s.queue.ready.length = 0 ∧ (commitsOf os).length = 1 ∧
    @saveEach plainPostgres .empty (commitsOf os) = some s.tables := by
  have hids : ∀ e e', Content.finished e ∈ [Content.finished sampleResult] →
      Content.finished e' ∈ [Content.finished sampleResult] → e.gameId = e'.gameId → e = e' := by
    intro e e' he he' _
    rw [Content.finished.inj (List.mem_singleton.mp he),
      Content.finished.inj (List.mem_singleton.mp he')]
  have hrun : Machine.Run (@workerSystem plainPostgres [.finished sampleResult] .empty)
      lateCommit _ _ := Machine.exec_get_run (by decide +kernel)
  exact ⟨_, _, hrun, by decide +kernel, by decide +kernel,
    (@delivered_once plainPostgres plainPostgres_uuid _ _ hids _ _ _ hrun).1⟩

end GachaMind.ResultsWorker
