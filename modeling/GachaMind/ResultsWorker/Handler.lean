import GachaMind.GameSession.Messages
import GachaMind.GameSession.RoomSystem
import GachaMind.Js.Buffer
import GachaMind.ResultsWorker.Worker

/-!
# handleMessage on every message

`handleMessage` with the message as bytes and the answer of user as any JSON text: what it posts,
what it settles, and whether its promise is rejected. The channel stays open, and the engine's
stack is unbounded. Of a log line only the conversions of its values are kept.
-/

namespace GachaMind.ResultsWorker
open GachaMind.Js GachaMind.Shared GachaMind.User
open GachaMind.GameSession (plainRuntime printable toStr_ok_iff)

/-- What `fetch` is fulfilled with; no body where reading it fails. -/
structure HttpResponse where
  status : ℕ
  body : Option JsString

inductive Call where
  | post (event : Json)
  | settle (verdict : Verdict)

def Call.posted? : Call → Option Json
  | .post event => some event
  | .settle _ => none

def Call.verdict? : Call → Option Verdict
  | .post _ => none
  | .settle v => some v

abbrev Handler := ExceptT JsError (StateM (List Call))

def emit (e : Call) : Handler Unit := modify (· ++ [e])

/-! ### deliver (`parse` is `JSON.parse`, `none` where it throws) -/

/-- `v.length`. -/
def lengthOf : Option Json → Except JsError (Option Json)
  | none => .error .typeError
  | some .null => .error .typeError
  | some (.arr items) => .ok (some (.num (.finite items.length)))
  | some (.str s) => .ok (some (.num (.finite s.length)))
  | some (.obj fields) => .ok (lookupField (utf16 "length") fields)
  | some _ => .ok none

section
variable (parse : JsString → Option Json)

/-- `res.json().catch(() => ({}))`. -/
def HttpResponse.json (res : HttpResponse) : Json := (res.body.bind parse).getD (.obj [])

def deliverEvent (event : Json) (fetched : Option HttpResponse) : Handler Delivery := do
  emit (.post event)
  match fetched with
  | none => return .unavailable
  | some res =>
    if ok res.status then
      let saved ← liftExcept (getProp (res.json parse) (utf16 "saved"))
      match saved with
      | some (.bool false) => return .duplicate
      | _ => return .saved
    else if permanent res.status then return .rejected
    else return .unavailable

def asBool : Option Json → Option Bool
  | some (.bool b) => some b
  | _ => none

/-- What `deliver` makes of a response. -/
def HttpResponse.toResponse (res : HttpResponse) : Response where
  status := res.status
  saved := asBool ((res.json parse).field (utf16 "saved"))

/-- `ack` on 2xx and on 4xx other than 404, `nack` with requeue otherwise. -/
def due : Option HttpResponse → Verdict
  | none => .nack
  | some res =>
    if 200 ≤ res.status ∧ res.status ≤ 299 then .ack
    else if 400 ≤ res.status ∧ res.status < 500 ∧ res.status ≠ 404 then .ack
    else .nack

/-- The value is a game-finished event, as far as the handler can tell. -/
def isFinished (v : Json) : Bool := isString (v.field (utf16 "type")) (utf16 "game-finished")

/-- A template can show the value: no object with a `toString` of its own stands in it or in its
arrays. -/
def showable (v : Option Json) : Bool := v.all printable

/-- What has a `length` that a template can show. -/
def counted : Option Json → Bool
  | none => false
  | some .null => false
  | some (.obj fields) => showable (lookupField (utf16 "length") fields)
  | some _ => true

/-- The log lines that follow the delivery of this event can be written. -/
structure Readable (event : Json) (fetched : Option HttpResponse) : Prop where
  game : showable (event.field (utf16 "gameId")) = true
  body : ∀ res, fetched = some res → ok res.status = true → (res.json parse).isNull = false
  saved : ∀ res, fetched = some res → ok res.status = true →
    (res.json parse).field (utf16 "saved") ≠ some (.bool false) →
    showable (event.field (utf16 "roomId")) = true ∧
      counted (event.field (utf16 "players")) = true

/-- The log line of this outcome can be written. -/
def logged (event : Json) (delivery : Delivery) : Bool :=
  showable (event.field (utf16 "gameId")) && (decide (delivery ≠ .saved) ||
    (showable (event.field (utf16 "roomId")) && counted (event.field (utf16 "players"))))

end

section
variable {parse : JsString → Option Json} {fetched : Option HttpResponse} {event : Json}

theorem run_bind_ok {α β : Type} {x : Handler α} {a : α} {es fs : List Call}
    (h : (x.run).run es = (.ok a, fs)) (f : α → Handler β) :
    ((x >>= f).run).run es = ((f a).run).run fs := by
  rw [ExceptT.run_bind, StateT.run_bind, h]
  rfl

theorem run_bind_error {α β : Type} {x : Handler α} {e : JsError} {es fs : List Call}
    (h : (x.run).run es = (.error e, fs)) (f : α → Handler β) :
    ((x >>= f).run).run es = (.error e, fs) := by
  rw [ExceptT.run_bind, StateT.run_bind, h]
  rfl

theorem getProp_of_not_null {v : Json} (h : v.isNull = false) (name : JsString) :
    getProp v name = .ok (v.field name) :=
  if_neg (by rw [h]; decide)

theorem not_null_of_isFinished (h : isFinished event = true) : event.isNull = false := by
  cases event with
  | null => cases h
  | _ => rfl

/-- `deliver` of the workers, where `body.saved` can be read. -/
theorem deliverEvent_run (hbody : ∀ res, fetched = some res → ok res.status = true →
    (res.json parse).isNull = false) :
    ((deliverEvent parse event fetched).run).run [] =
      (.ok (deliver (fetched.map (HttpResponse.toResponse parse))), [.post event]) := by
  cases fetched with
  | none => rfl
  | some res =>
    have hstatus : (res.toResponse parse).status = res.status := rfl
    have hsaved : (res.toResponse parse).saved = asBool ((res.json parse).field (utf16 "saved")) :=
      rfl
    rw [Option.map_some, deliver, hstatus, hsaved]
    by_cases hok : ok res.status
    · have hget := getProp_of_not_null (hbody res rfl hok) (utf16 "saved")
      simp only [deliverEvent, hok, hget, liftExcept, pure_bind, if_true]
      cases (res.json parse).field (utf16 "saved") with
      | none => rfl
      | some v =>
        cases v with
        | bool b => cases b <;> rfl
        | _ => rfl
    · by_cases hpermanent : permanent res.status
      · simp only [deliverEvent, hok, hpermanent]
        rfl
      · simp only [deliverEvent, hok, hpermanent]
        rfl

theorem deliverEvent_null {res : HttpResponse} (hok : ok res.status = true)
    (hbody : (res.json parse).isNull = true) :
    ((deliverEvent parse event (some res)).run).run [] = (.error .typeError, [.post event]) := by
  have hget : getProp (res.json parse) (utf16 "saved") = .error .typeError := if_pos hbody
  simp only [deliverEvent, hok, hget, if_true]
  rfl

theorem verdict_deliver_toResponse (fetched : Option HttpResponse) :
    verdict (deliver (fetched.map (HttpResponse.toResponse parse))) = due fetched := by
  cases fetched with
  | none => rfl
  | some res =>
    have hstatus : (res.toResponse parse).status = res.status := rfl
    rw [Option.map_some, deliver, hstatus, due]
    by_cases hok : ok res.status
    · have hrange : 200 ≤ res.status ∧ res.status ≤ 299 := by simpa [ok] using hok
      rw [if_pos hok, if_pos hrange]
      split_ifs <;> rfl
    · have hrange : ¬ (200 ≤ res.status ∧ res.status ≤ 299) := by simpa [ok] using hok
      rw [if_neg hok, if_neg hrange]
      by_cases hpermanent : permanent res.status
      · have hrefused : 400 ≤ res.status ∧ res.status < 500 ∧ res.status ≠ 404 := by
          simpa [permanent, and_assoc] using hpermanent
        rw [if_pos hpermanent, if_pos hrefused]
        rfl
      · have hrefused : ¬ (400 ≤ res.status ∧ res.status < 500 ∧ res.status ≠ 404) := by
          simpa [permanent, and_assoc] using hpermanent
        rw [if_neg hpermanent, if_neg hrefused]
        rfl

theorem asBool_eq_false {v : Option Json} : asBool v = some false ↔ v = some (.bool false) := by
  constructor
  · intro h
    cases v with
    | none => cases h
    | some v =>
      cases v with
      | bool b => rw [Option.some.inj h]
      | _ => cases h
  · rintro rfl
    rfl

theorem deliver_eq_saved (parse : JsString → Option Json) (fetched : Option HttpResponse) :
    deliver (fetched.map (HttpResponse.toResponse parse)) = .saved ↔
      ∃ res, fetched = some res ∧ ok res.status = true ∧
        (res.json parse).field (utf16 "saved") ≠ some (.bool false) := by
  cases fetched with
  | none => simp [deliver]
  | some res =>
    have hstatus : (res.toResponse parse).status = res.status := rfl
    have hsaved : (res.toResponse parse).saved = asBool ((res.json parse).field (utf16 "saved")) :=
      rfl
    rw [Option.map_some, deliver, hstatus, hsaved]
    split_ifs with hok hfalse hpermanent
    · simp [asBool_eq_false.mp hfalse]
    · simp [hok, mt asBool_eq_false.mpr hfalse]
    · simp [hok]
    · simp [hok]

theorem logged_iff : Readable parse event fetched ↔
    (∀ res, fetched = some res → ok res.status = true → (res.json parse).isNull = false) ∧
      logged event (deliver (fetched.map (HttpResponse.toResponse parse))) = true := by
  have hsaved := deliver_eq_saved parse fetched
  simp only [logged, Bool.and_eq_true, Bool.or_eq_true, decide_eq_true_eq]
  constructor
  · intro h
    refine ⟨h.body, h.game, ?_⟩
    by_cases hd : deliver (fetched.map (HttpResponse.toResponse parse)) = .saved
    · obtain ⟨res, hres, hok, hfield⟩ := hsaved.mp hd
      exact Or.inr (h.saved res hres hok hfield)
    · exact Or.inl hd
  · rintro ⟨hbody, hgame, hline⟩
    refine ⟨hgame, hbody, ?_⟩
    intro res hres hok hfield
    rcases hline with hline | hline
    · exact absurd (hsaved.mpr ⟨res, hres, hok, hfield⟩) hline
    · exact hline

end

/-! ### The events of game-session -/

def playerJson (player : GameResultPlayer) : Json :=
  .obj [(utf16 "playerId", .str (uuidText player.playerId)),
    (utf16 "userId", player.userId.elim .null .str), (utf16 "nickname", .str player.nickname),
    (utf16 "score", .num (.finite player.score)), (utf16 "rank", .num (.finite player.rank))]

/-- The message that `publishGameEvent` sends, read again. -/
def eventJson (event : GameFinishedEvent) : Json :=
  .obj [(utf16 "type", .str (utf16 "game-finished")),
    (utf16 "gameId", .str (uuidText event.gameId)), (utf16 "roomId", .str event.roomId),
    (utf16 "finishedAt", .str (toISOString event.finishedAt)),
    (utf16 "roundsPlayed", .num (.finite event.roundsPlayed)),
    (utf16 "players", .arr (event.players.map playerJson))]

/-! ### handleMessage -/

variable [Runtime]

/-- `${v}`. -/
def interpolate : Option Json → Except JsError JsString
  | none => .ok (utf16 "undefined")
  | some v => toStr v

/-- A log line with these values in its template. -/
def console (values : List (Option Json)) : Handler Unit := do
  let _ ← liftExcept (values.mapM interpolate)

section
variable (parse : JsString → Option Json)

/-- The `switch` of `handleMessage`. -/
def settleEvent (event : Json) (delivery : Delivery) : Handler Unit :=
  let gameId := event.field (utf16 "gameId")
  match delivery with
  | .saved => do
    emit (.settle .ack)
    let players ← liftExcept (lengthOf (event.field (utf16 "players")))
    console [gameId, event.field (utf16 "roomId"), players]
  | .duplicate => do
    emit (.settle .ack)
    console [gameId]
  | .rejected => do
    emit (.settle .ack)
    console [gameId]
  | .unavailable => do
    console [gameId]
    emit (.settle .nack)

def handleMessage (content : List UInt8) (fetched : Option HttpResponse) : Handler Unit := do
  match parse (fromUtf8 content) with
  | none => emit (.settle .ack)
  | some event =>
    let type ← liftExcept (getProp event (utf16 "type"))
    if isString type (utf16 "game-finished") then
      let delivery ← deliverEvent parse event fetched
      settleEvent event delivery
    else
      console [type]
      emit (.settle .ack)

/-- What the promise comes to, and what has been done until then. -/
def handled (content : List UInt8) (fetched : Option HttpResponse) :
    Except JsError Unit × List Call :=
  ((handleMessage parse content fetched).run).run []

/-- The message is settled once and rightly, and nothing is thrown. -/
structure SettledRightly (content : List UInt8) (fetched : Option HttpResponse) : Prop where
  fulfilled : (handled parse content fetched).1 = .ok ()
  settles : (handled parse content fetched).2.filterMap Call.verdict? =
    [((parse (fromUtf8 content)).filter isFinished).elim .ack fun _ => due fetched]
  posts : (handled parse content fetched).2.filterMap Call.posted? =
    ((parse (fromUtf8 content)).filter isFinished).toList

structure Manageable (content : List UInt8) (fetched : Option HttpResponse) : Prop where
  value : ∀ v, parse (fromUtf8 content) = some v → v.isNull = false
  type : ∀ v, parse (fromUtf8 content) = some v → isFinished v = false →
    showable (v.field (utf16 "type")) = true
  event : ∀ v, parse (fromUtf8 content) = some v → isFinished v = true →
    Readable parse v fetched

end

/-! ### The log lines -/

theorem toStr_isOk (v : Json) : (toStr v).isOk = printable v := by
  rw [Bool.eq_iff_iff, ← toStr_ok_iff]
  cases toStr v <;> simp [Except.isOk, Except.toBool]

theorem interpolate_isOk (v : Option Json) : (interpolate v).isOk = showable v := by
  cases v with
  | none => rfl
  | some v => exact toStr_isOk v

theorem mapM_interpolate_isOk (values : List (Option Json)) :
    (values.mapM interpolate).isOk = values.all showable := by
  induction values with
  | nil => rfl
  | cons v rest ih =>
    rw [List.mapM_cons, List.all_cons, ← interpolate_isOk, ← ih]
    cases interpolate v with
    | error e => rfl
    | ok s => cases rest.mapM interpolate <;> rfl

theorem mapM_singleton_isOk (v : Option Json) :
    ([v].mapM interpolate).isOk = showable v := by
  rw [mapM_interpolate_isOk, List.all_cons, List.all_nil, Bool.and_true]

theorem lengthOf_counted (v : Option Json) :
    ((lengthOf v).bind interpolate).isOk = counted v := by
  cases v with
  | none => rfl
  | some v =>
    cases v with
    | obj fields => exact interpolate_isOk _
    | _ => rfl

omit [Runtime] in
theorem except_isOk_map {α β : Type} (x : Except JsError α) (f : α → β) :
    (x.map f).isOk = x.isOk := by
  cases x <;> rfl

omit [Runtime] in
theorem eq_ok_of_isOk {x : Except JsError Unit} (h : x.isOk = true) : x = .ok () := by
  cases x with
  | error e => cases h
  | ok u => rfl

/-- The promise is fulfilled or not, and where it is fulfilled, these calls have been made. -/
def Ends (result : Except JsError Unit × List Call) (fulfilled : Bool) (calls : List Call) : Prop :=
  result.1.isOk = fulfilled ∧ (fulfilled = true → result.2 = calls)

theorem console_ends (values : List (Option Json)) (calls : List Call) :
    Ends (((console values).run).run calls) (values.all showable) calls := by
  have hrun : ((console values).run).run calls =
      ((values.mapM interpolate).map fun _ => (), calls) := by
    rw [console]
    cases values.mapM interpolate <;> rfl
  rw [hrun, ← mapM_interpolate_isOk]
  exact ⟨except_isOk_map _ _, fun _ => rfl⟩

theorem console_emit_ends (values : List (Option Json)) (call : Call) (calls : List Call) :
    Ends (((console values >>= fun _ => emit call).run).run calls) (values.all showable)
      (calls ++ [call]) := by
  rw [← mapM_interpolate_isOk, console]
  cases values.mapM interpolate with
  | error e => exact ⟨rfl, fun h => by cases h⟩
  | ok texts => exact ⟨rfl, fun _ => rfl⟩

theorem settleEvent_saved_ends (event : Json) (calls : List Call) :
    Ends (((settleEvent event .saved).run).run calls) (logged event .saved)
      (calls ++ [.settle .ack]) := by
  have hplayers := lengthOf_counted (event.field (utf16 "players"))
  cases hlength : lengthOf (event.field (utf16 "players")) with
  | error e =>
    have huncounted : counted (event.field (utf16 "players")) = false := by
      rw [← hplayers, hlength]
      rfl
    have hlogged : logged event .saved = false := by simp [logged, huncounted]
    have hrun : ((settleEvent event .saved).run).run calls =
        (.error e, calls ++ [.settle .ack]) := by
      simp only [settleEvent, hlength]
      rfl
    rw [hrun, hlogged]
    exact ⟨rfl, fun h => by cases h⟩
  | ok players =>
    have hcounted : counted (event.field (utf16 "players")) = showable players := by
      rw [← hplayers, hlength, ← interpolate_isOk]
      rfl
    have hlogged : logged event .saved =
        [event.field (utf16 "gameId"), event.field (utf16 "roomId"), players].all showable := by
      simp [logged, hcounted]
    have hrun : ((settleEvent event .saved).run).run calls =
        ((console [event.field (utf16 "gameId"), event.field (utf16 "roomId"), players]).run).run
          (calls ++ [.settle .ack]) := by
      simp only [settleEvent, hlength]
      rfl
    rw [hrun, hlogged]
    exact console_ends _ _

theorem settleEvent_ends (event : Json) (delivery : Delivery) (calls : List Call) :
    Ends (((settleEvent event delivery).run).run calls) (logged event delivery)
      (calls ++ [.settle (verdict delivery)]) := by
  have hline : delivery ≠ .saved →
      logged event delivery = [event.field (utf16 "gameId")].all showable := by
    intro h
    simp [logged, h]
  cases delivery with
  | saved => exact settleEvent_saved_ends event calls
  | duplicate =>
    rw [hline (by decide)]
    exact console_ends _ (calls ++ [.settle .ack])
  | rejected =>
    rw [hline (by decide)]
    exact console_ends _ (calls ++ [.settle .ack])
  | unavailable =>
    rw [hline (by decide)]
    exact console_emit_ends _ _ _

/-! ### One case at a time -/

section
variable {parse : JsString → Option Json} {content : List UInt8} {fetched : Option HttpResponse}
  {event : Json}

theorem handled_unparseable (fetched : Option HttpResponse)
    (h : parse (fromUtf8 content) = none) :
    handled parse content fetched = (.ok (), [.settle .ack]) := by
  rw [handled, handleMessage, h]
  rfl

theorem handled_null (h : parse (fromUtf8 content) = some .null) :
    handled parse content fetched = (.error .typeError, []) := by
  rw [handled, handleMessage, h]
  rfl

theorem handled_other (fetched : Option HttpResponse)
    (h : parse (fromUtf8 content) = some event) (hnull : event.isNull = false)
    (hother : isFinished event = false) :
    handled parse content fetched = match [event.field (utf16 "type")].mapM interpolate with
      | .error e => (.error e, [])
      | .ok _ => (.ok (), [.settle .ack]) := by
  rw [isFinished] at hother
  rw [handled, handleMessage, h]
  simp only [getProp_of_not_null hnull, liftExcept, pure_bind, hother, console]
  cases [event.field (utf16 "type")].mapM interpolate <;> rfl

theorem handled_finished (fetched : Option HttpResponse)
    (h : parse (fromUtf8 content) = some event)
    (hfinished : isFinished event = true) :
    handled parse content fetched =
      ((deliverEvent parse event fetched >>= settleEvent event).run).run [] := by
  have hnull := not_null_of_isFinished hfinished
  rw [isFinished] at hfinished
  rw [handled, handleMessage, h]
  simp only [getProp_of_not_null hnull, liftExcept, pure_bind, hfinished]
  rfl

theorem settled_finished_iff (h : parse (fromUtf8 content) = some event)
    (hfinished : isFinished event = true) :
    SettledRightly parse content fetched ↔ Readable parse event fetched := by
  have hhandled := handled_finished fetched h hfinished
  have hfilter : (parse (fromUtf8 content)).filter isFinished = some event := by
    rw [h]
    exact if_pos hfinished
  rw [logged_iff]
  by_cases hbody : ∀ res, fetched = some res → ok res.status = true →
      (res.json parse).isNull = false
  · have hrun := settleEvent_ends event (deliver (fetched.map (HttpResponse.toResponse parse)))
      [.post event]
    rw [run_bind_ok (deliverEvent_run hbody)] at hhandled
    rw [← hhandled] at hrun
    obtain ⟨hok, hcalls⟩ := hrun
    rw [verdict_deliver_toResponse] at hcalls
    constructor
    · intro hsettled
      rw [← hok, hsettled.fulfilled]
      exact ⟨hbody, rfl⟩
    · rintro ⟨-, hlogged⟩
      have hdone := hcalls hlogged
      constructor
      · exact eq_ok_of_isOk (hok.trans hlogged)
      · rw [hdone, hfilter]
        rfl
      · rw [hdone, hfilter]
        rfl
  · constructor
    · intro hsettled
      push Not at hbody
      obtain ⟨res, rfl, hok, hnull⟩ := hbody
      rw [run_bind_error (deliverEvent_null hok (Bool.eq_true_of_not_eq_false hnull))] at hhandled
      have hfulfilled := hsettled.fulfilled
      rw [hhandled] at hfulfilled
      cases hfulfilled
    · intro hreadable
      exact absurd hreadable.1 hbody

theorem settled_other_iff (h : parse (fromUtf8 content) = some event)
    (hnull : event.isNull = false) (hother : isFinished event = false) :
    SettledRightly parse content fetched ↔ showable (event.field (utf16 "type")) = true := by
  have hhandled := handled_other fetched h hnull hother
  have hline := mapM_singleton_isOk (event.field (utf16 "type"))
  have hfilter : (parse (fromUtf8 content)).filter isFinished = none := by
    rw [h]
    exact if_neg (by rw [hother]; decide)
  rw [← hline]
  constructor
  · intro hsettled
    have hfulfilled := hsettled.fulfilled
    rw [hhandled] at hfulfilled
    cases hvalues : [event.field (utf16 "type")].mapM interpolate with
    | error e =>
      rw [hvalues] at hfulfilled
      cases hfulfilled
    | ok texts => rfl
  · intro hok
    cases hvalues : [event.field (utf16 "type")].mapM interpolate with
    | error e =>
      rw [hvalues] at hok
      cases hok
    | ok texts =>
      rw [hvalues] at hhandled
      constructor
      · rw [hhandled]
      · rw [hhandled, hfilter]
        rfl
      · rw [hhandled, hfilter]
        rfl

/-- The handler on an event of game-session does what the workers do with it. -/
theorem handled_published {event : GameFinishedEvent}
    (h : parse (fromUtf8 content) = some (eventJson event))
    (hbody : ∀ res, fetched = some res → ok res.status = true → (res.json parse).isNull = false) :
    handled parse content fetched = (.ok (), [.post (eventJson event),
      .settle (verdict (deliver (fetched.map (HttpResponse.toResponse parse))))]) := by
  have hrun := settleEvent_ends (eventJson event)
    (deliver (fetched.map (HttpResponse.toResponse parse))) [.post (eventJson event)]
  have hfields : showable ((eventJson event).field (utf16 "gameId")) = true ∧
      showable ((eventJson event).field (utf16 "roomId")) = true ∧
      counted ((eventJson event).field (utf16 "players")) = true := ⟨rfl, rfl, rfl⟩
  have hlogged : logged (eventJson event)
      (deliver (fetched.map (HttpResponse.toResponse parse))) = true := by
    rw [logged, hfields.1, hfields.2.1, hfields.2.2]
    simp
  rw [← run_bind_ok (deliverEvent_run hbody), ← handled_finished fetched h rfl, hlogged] at hrun
  obtain ⟨hok, hcalls⟩ := hrun
  exact Prod.ext (eq_ok_of_isOk hok) (hcalls rfl)

omit [Runtime] in
theorem manageable_iff (h : parse (fromUtf8 content) = some event) :
    Manageable parse content fetched ↔ event.isNull = false ∧
      (isFinished event = false → showable (event.field (utf16 "type")) = true) ∧
      (isFinished event = true → Readable parse event fetched) := by
  constructor
  · intro hm
    exact ⟨hm.value event h, hm.type event h, hm.event event h⟩
  · rintro ⟨hvalue, htype, hevent⟩
    have hsame : ∀ {v}, parse (fromUtf8 content) = some v → event = v :=
      fun hv => Option.some.inj (h.symm.trans hv)
    constructor
    · rintro v hv
      obtain rfl := hsame hv
      exact hvalue
    · rintro v hv
      obtain rfl := hsame hv
      exact htype
    · rintro v hv
      obtain rfl := hsame hv
      exact hevent

omit [Runtime] in
theorem manageable_unparseable (h : parse (fromUtf8 content) = none) :
    Manageable parse content fetched := by
  have habsurd : ∀ v, parse (fromUtf8 content) ≠ some v := by
    intro v hv
    cases h.symm.trans hv
  exact ⟨fun v hv => absurd hv (habsurd v), fun v hv => absurd hv (habsurd v),
    fun v hv => absurd hv (habsurd v)⟩

theorem settled_unparseable (h : parse (fromUtf8 content) = none) :
    SettledRightly parse content fetched := by
  have hhandled := handled_unparseable fetched h
  constructor
  · rw [hhandled]
  · rw [hhandled, h]
    rfl
  · rw [hhandled, h]
    rfl

theorem not_settled_of_null (h : parse (fromUtf8 content) = some event)
    (hnull : event.isNull = true) : ¬ SettledRightly parse content fetched := by
  intro hsettled
  have hvalue : event = .null := by
    cases event with
    | null => rfl
    | _ => cases hnull
  have hfulfilled := hsettled.fulfilled
  rw [handled_null (h.trans (congrArg some hvalue))] at hfulfilled
  cases hfulfilled

end

theorem settledRightly_iff (parse : JsString → Option Json) (content : List UInt8)
    (fetched : Option HttpResponse) :
    SettledRightly parse content fetched ↔ Manageable parse content fetched := by
  cases hparse : parse (fromUtf8 content) with
  | none => exact iff_of_true (settled_unparseable hparse) (manageable_unparseable hparse)
  | some event =>
    rw [manageable_iff hparse]
    cases hnull : event.isNull with
    | true =>
      refine iff_of_false (not_settled_of_null hparse hnull) ?_
      rintro ⟨hvalue, -⟩
      cases hvalue
    | false =>
      cases hfinished : isFinished event with
      | true =>
        rw [settled_finished_iff hparse hfinished]
        exact ⟨fun h => ⟨rfl, fun hother => (nomatch hother), fun _ => h⟩, fun h => h.2.2 rfl⟩
      | false =>
        rw [settled_other_iff hparse hnull hfinished]
        exact ⟨fun h => ⟨rfl, fun _ => h, fun hevent => (nomatch hevent)⟩, fun h => h.2.1 rfl⟩

/-! ### Two messages -/

def typeOnly : JsString := utf16 "\x7b\"type\":\"game-finished\"\x7d"

def parseTexts (s : JsString) : Option Json :=
  if s = utf16 "null" then some .null
  else if s = typeOnly then some (.obj [(utf16 "type", .str (utf16 "game-finished"))])
  else none

omit [Runtime] in
theorem null_and_playerless_messages :
    (@handled plainRuntime parseTexts (utf8 (utf16 "null")) none = (.error .typeError, []) ∧
      ¬ @SettledRightly plainRuntime parseTexts (utf8 (utf16 "null")) none) ∧
    (@handled plainRuntime parseTexts (utf8 typeOnly) (some ⟨200, none⟩)).1 = .error .typeError ∧
      ¬ @SettledRightly plainRuntime parseTexts (utf8 typeOnly) (some ⟨200, none⟩) := by
  have hnull : @handled plainRuntime parseTexts (utf8 (utf16 "null")) none =
      (.error .typeError, []) := @handled_null plainRuntime _ _ _ (by rfl)
  have hplayerless : (@handled plainRuntime parseTexts (utf8 typeOnly) (some ⟨200, none⟩)).1 =
      .error .typeError := by
    rw [@handled_finished plainRuntime parseTexts (utf8 typeOnly)
      (.obj [(utf16 "type", .str (utf16 "game-finished"))]) _ (by rfl) (by rfl)]
    rfl
  refine ⟨⟨hnull, ?_⟩, hplayerless, ?_⟩
  · intro h
    have hfulfilled := @SettledRightly.fulfilled plainRuntime _ _ _ h
    rw [hnull] at hfulfilled
    cases hfulfilled
  · intro h
    have hfulfilled := @SettledRightly.fulfilled plainRuntime _ _ _ h
    rw [hplayerless] at hfulfilled
    cases hfulfilled

end GachaMind.ResultsWorker
