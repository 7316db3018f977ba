import GachaMind.Lib.Broker
import GachaMind.Lib.Machine
import GachaMind.User.Intake

/-!
# The results workers (apps/results-worker/src/index.ts)

Any number of workers take messages from `game.events`, one at a time, and post them to user.
A request is a transaction of its own: it may be carried out after its worker has given up, and
a worker that has lost its channel goes on with a message that is delivered again. The texts of
the log lines, and so `detail`, are left out.
-/

namespace GachaMind.ResultsWorker
open GachaMind.Js GachaMind.Shared GachaMind.User

/-! ### deliver -/

inductive Delivery where
  | saved
  | duplicate
  | rejected
  | unavailable
  deriving DecidableEq

/-- `res.ok`. -/
def ok (status : ℕ) : Bool := 200 ≤ status && status ≤ 299

/-- A 4xx that will not go away. An old instance of user, without the API, answers 404. -/
def permanent (status : ℕ) : Bool := 400 ≤ status && status < 500 && status != 404

/-- `deliver`, where `fetch` is fulfilled with a response or, `none`, throws: no connection, or
no answer within the time allowed. -/
def deliver : Option Response → Delivery
  | none => .unavailable
  | some res =>
    if ok res.status then
      if res.saved = some false then .duplicate else .saved
    else if permanent res.status then .rejected
    else .unavailable

/-! ### handleMessage -/

/-- What a message is to `handleMessage`: `null` is the JSON value, whose `type` cannot be
read, and `unknown` any other value of another type. -/
inductive Content where
  | unparseable
  | null
  | unknown
  | finished (event : GameFinishedEvent)

inductive Verdict where
  | ack
  | nack
  deriving DecidableEq

/-- The `switch` of `handleMessage`. A `nack` is sent `REQUEUE_DELAY_MS` later. -/
def verdict : Delivery → Verdict
  | .saved => .ack
  | .duplicate => .ack
  | .rejected => .ack
  | .unavailable => .nack

/-! ### The workers, the broker and user -/

abbrev WorkerId := ℕ

/-- Where the handler of a worker is: it awaits `fetch`, whose request is the one numbered, or
the `sleep` before the `nack`. -/
inductive Stage where
  | idle
  | fetching (event : GameFinishedEvent) (request : ℕ)
  | sleeping

/-- A request, and the answer of user once it has been carried out. -/
structure Exchange where
  event : GameFinishedEvent
  answer : Option Response

structure State where
  queue : Broker.Queue WorkerId Content
  stage : WorkerId → Stage
  exchanges : List Exchange
  tables : HistoryTables

inductive Input where
  /-- The broker delivers the ready message at a place. -/
  | deliver (worker : WorkerId) (place : ℕ)
  /-- user carries out a request. -/
  | carryOut (request : ℕ)
  /-- The answer of user to the request of a worker arrives; its body may break off. -/
  | answer (worker : WorkerId) (whole : Bool)
  /-- Another answer arrives, with a status that is not 2xx. -/
  | refuse (worker : WorkerId) (status : ℕ)
  /-- `fetch` throws. -/
  | giveUp (worker : WorkerId)
  | wake (worker : WorkerId)
  /-- The channel of a worker is lost while its handler goes on. -/
  | lose (worker : WorkerId)
  | crash (worker : WorkerId)

/-- What is seen from outside: a transaction committed, and the status a worker was answered. -/
inductive Output where
  | committed (event : GameFinishedDto)
  | answered (event : GameFinishedEvent) (status : ℕ)

namespace State

def setStage (s : State) (worker : WorkerId) (stage : Stage) : State :=
  { s with stage := Function.update s.stage worker stage }

/-- `handleMessage` after `await deliver(event)`. The `ack` of a lost channel reaches nobody. -/
def conclude (s : State) (worker : WorkerId) (delivery : Delivery) : State :=
  match verdict delivery with
  | .ack => { s.setStage worker .idle with queue := s.queue.ack worker }
  | .nack => s.setStage worker .sleeping

/-- `handleMessage` on the message just delivered, up to its first `await`. What it drops is
acknowledged; where it throws, the process ends and the message is ready again. -/
def receive (s : State) (worker : WorkerId) : Content → State
  | .unparseable => { s with queue := s.queue.ack worker }
  | .unknown => { s with queue := s.queue.ack worker }
  | .null => { s with queue := s.queue.requeue worker }
  | .finished event =>
    { s.setStage worker (.fetching event s.exchanges.length) with
      exchanges := s.exchanges ++ [⟨event, none⟩] }

/-- `saveGameResult` returned true. -/
def commits (event : GameFinishedEvent) (res : Response) : List Output :=
  if res.saved = some true then (validate event).toList.map .committed else []

variable [Postgres]

def carryOut (s : State) (request : ℕ) : Option (State × List Output) :=
  s.exchanges[request]?.bind fun x =>
    match x.answer with
    | some _ => none
    | none =>
      let r := recordGame s.tables x.event
      some ({ s with
        exchanges := s.exchanges.set request { x with answer := some r.2 }
        tables := r.1 }, commits x.event r.2)

def answer (s : State) (worker : WorkerId) (whole : Bool) : Option (State × List Output) :=
  match s.stage worker with
  | .fetching event request =>
    (s.exchanges[request]?.bind Exchange.answer).map fun res =>
      -- `res.json().catch(() => ({}))`
      let res := if whole then res else { res with saved := none }
      (s.conclude worker (deliver (some res)), [.answered event res.status])
  | _ => none

def refuse (s : State) (worker : WorkerId) (status : ℕ) : Option (State × List Output) :=
  match s.stage worker with
  | .fetching event _ =>
    if ok status then none
    else some (s.conclude worker (deliver (some ⟨status, none⟩)), [.answered event status])
  | _ => none

def step (s : State) : Input → Option (State × List Output)
  | .deliver worker place =>
    match s.stage worker with
    | .idle => (s.queue.deliver worker place).map fun r =>
        ({ s with queue := r.2 }.receive worker r.1, [])
    | _ => none
  | .carryOut request => s.carryOut request
  | .answer worker whole => s.answer worker whole
  | .refuse worker status => s.refuse worker status
  | .giveUp worker =>
    match s.stage worker with
    | .fetching _ _ => some (s.conclude worker (deliver none), [])
    | _ => none
  | .wake worker =>
    match s.stage worker with
    | .sleeping => some ({ s.setStage worker .idle with queue := s.queue.requeue worker }, [])
    | _ => none
  | .lose worker => some ({ s with queue := s.queue.requeue worker }, [])
  | .crash worker =>
    some ({ s.setStage worker .idle with queue := s.queue.requeue worker }, [])

end State

def workerSystem [Postgres] (messages : List Content) (tables : HistoryTables) :
    Machine.System State Input Output :=
  Machine.ofFunction ⟨.ofList messages, fun _ => .idle, [], tables⟩ State.step

end GachaMind.ResultsWorker
