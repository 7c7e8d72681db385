import ContractPinger.Model.Server
import ContractPinger.Model.Stats

/-!
# The load driver

`scripts/loadtest.ts` against a server of `Model/Server`, which serves others meanwhile and
may be restarted. The driver is suspended at its requests and its sleeps; the server answers a
request in between. Reading the body of an answer is part of waiting for it.
-/

namespace ContractPinger

/-- A job id. `randomUUID` gives none twice: neither on two services nor, `start` counting how
    often the server was started, after a restart. -/
structure JobId where
  start : Nat
  environment : Environment
  job : Nat
deriving DecidableEq, Repr

/-- `GET /sign_bidirectional/:jobId`: the services are asked in turn. An id of another
    service, or of an earlier server, is unknown to all of them. -/
def App.getJob (app : App) (start : Nat) (id : JobId) : Option JobView :=
  bidirectionalEnvironments.findSome? fun environment =>
    (app.services environment).bind fun w =>
      if id.start = start ∧ id.environment = environment then w.jobs.view id.job else none

/-- `Options`, less the URL. -/
structure LoadOptions where
  jobs : Nat := 10
  env : String
  mode : String
  secret : String
  pollMs : Millis := 15000

/-- The request of the submit loop. -/
def LoadOptions.request (o : LoadOptions) : PostRequest :=
  { header := some o.secret, env := .string o.env, mode := .string o.mode }

/-- `MAX_MISSES`. -/
def maxMisses : Nat := 5

/-- What the driver reads of an answer to its POST. -/
inductive PostAnswer
  | accepted (id : JobId)
  | tooMany (retryAfterMs : Option Millis)
  /-- Neither 202 nor 429. -/
  | refused
deriving DecidableEq, Repr

/-- The answer of a server, started for the given time, to a request for a network. -/
def PostAnswer.of (start : Nat) (network : Option Environment) : Response → PostAnswer
  | .accepted job _ _ =>
    match network with
    | some environment => .accepted { start, environment, job }
    | none => .refused
  | .full _ body => .tooMany (some body.retryAfterMs)
  | .rateLimited _ _ retryAfterMs => .tooMany (some retryAfterMs)
  | .unauthorized => .refused
  | .invalidMode _ _ => .refused
  | .unresolved _ _ => .refused
  | .failed _ => .refused

/-- An entry of `finished`. -/
inductive LoadOutcome
  | job (view : JobView)
  /-- `lost_by_server`. -/
  | lost
deriving DecidableEq, Repr

namespace LoadOutcome

def state : LoadOutcome → JobState
  | .job view => view.record.state
  | .lost => .failed

/-- The job succeeded. -/
def responded (outcome : LoadOutcome) : Bool := outcome.state == .responded

def failed (outcome : LoadOutcome) : Bool := outcome.state == .failed

end LoadOutcome

/-- The `await`s of the driver. -/
inductive DriverPc
  /-- The POST, with its answer once there is one. -/
  | submitting (answer : Option PostAnswer)
  | backingOff (ms : Millis)
  | sleeping (ms : Millis)
  /-- The GET of the first of these jobs; its answer is `none` if it is not ok. -/
  | polling (id : JobId) (rest : List JobId) (answer : Option (Option JobView))
  /-- The GET of the pool's figures that ends the report. -/
  | readingStats (answered : Bool)
  | exited (code : Nat)
deriving DecidableEq, Repr

/-- The variables of `main`. An id that `missing` does not have is at zero. -/
structure Driver where
  pc : DriverPc := .submitting none
  jobIds : List JobId := []
  rateLimited : Nat := 0
  finished : List (JobId × LoadOutcome) := []
  missing : JobId → Nat := fun _ => 0

namespace Driver

/-- `finished.has(id)`. -/
def hasFinished (d : Driver) (id : JobId) : Bool := d.finished.any fun entry => entry.1 == id

/-- The condition of the poll loop: another round, or the report. -/
def nextRound (o : LoadOptions) (d : Driver) : Driver :=
  if d.finished.length < d.jobIds.length then { d with pc := .sleeping o.pollMs }
  else { d with pc := .readingStats false }

/-- The condition of the submit loop. -/
def submit (o : LoadOptions) (d : Driver) : Driver :=
  if d.jobIds.length < o.jobs then { d with pc := .submitting none } else d.nextRound o

/-- The `for` loop of a round, at `rest`: finished jobs are not asked for again. -/
def pollFrom (o : LoadOptions) (d : Driver) (rest : List JobId) : Driver :=
  match rest.dropWhile d.hasFinished with
  | [] => d.nextRound o
  | id :: rest => { d with pc := .polling id rest none }

/-- `finished.set`. -/
def finish (d : Driver) (id : JobId) (outcome : LoadOutcome) : Driver :=
  { d with finished := d.finished ++ [(id, outcome)] }

/-- What the answer to the poll of a job makes of the two maps. -/
def polled (d : Driver) (id : JobId) : Option JobView → Driver
  | none =>
    -- not ok: the server was restarted, or has dropped the record
    let misses := d.missing id + 1
    let missed := { d with missing := Function.update d.missing id misses }
    if maxMisses ≤ misses then missed.finish id .lost else missed
  | some view =>
    -- `missing.delete`: the misses have to come in a row
    let known := { d with missing := Function.update d.missing id 0 }
    if view.record.state.terminal then known.finish id (.job view) else known

/-- `main`, up to its first `await`. -/
def new (o : LoadOptions) : Driver :=
  if o.secret = "" then { pc := .exited 1 } else submit o {}

/-- The exit code of the report. -/
def exitCode (d : Driver) : Nat := if d.finished.any fun entry => entry.2.failed then 1 else 0

/-- The code of the driver from one `await` to the next. -/
def resume (o : LoadOptions) (d : Driver) : Option Driver :=
  match d.pc with
  | .submitting none => none
  | .submitting (some (.accepted id)) => some ({ d with jobIds := d.jobIds ++ [id] }.submit o)
  -- a 429 is expected: the same job is submitted again, after the wait it names
  | .submitting (some (.tooMany retryAfterMs)) =>
    some { d with
      rateLimited := d.rateLimited + 1
      pc := .backingOff (retryAfterMs.getD 5000 + 250) }
  | .submitting (some .refused) => some { d with pc := .exited 1 }
  | .backingOff _ => some (d.submit o)
  | .sleeping _ => some (d.pollFrom o d.jobIds)
  | .polling _ _ none => none
  | .polling id rest (some answer) => some ((d.polled id answer).pollFrom o rest)
  | .readingStats false => none
  | .readingStats true => some { d with pc := .exited d.exitCode }
  | .exited _ => none

end Driver

/-! ## The report -/

/-- What a failure is counted under. -/
inductive ReportedReason
  | reason (reason : FailureReason)
  | lostByServer
  | unknown
deriving DecidableEq, Repr

/-- `job.failureReason ?? 'unknown'`. -/
def LoadOutcome.reason : LoadOutcome → ReportedReason
  | .job view => (view.record.failureReason.map ReportedReason.reason).getD .unknown
  | .lost => .lostByServer

/-- A line of the latency table. -/
structure LatencyRow where
  min : Option Millis
  p50 : Option Millis
  p95 : Option Millis
  max : Option Millis
deriving DecidableEq, Repr

/-- The figures of the report. -/
structure LoadReport where
  total : Nat
  succeeded : Nat
  failed : Nat
  /-- `reasons`, the most frequent first. -/
  failures : List (ReportedReason × Nat)
  latency : LatencyStage → LatencyRow

/-- `j.durations?.[key]`. -/
def LoadOutcome.duration (stage : LatencyStage) : LoadOutcome → Option Millis
  | .job view => view.durations.lookup stage.name
  | .lost => none

namespace Driver

/-- The report on `[...finished.values()]`. -/
def report (d : Driver) : LoadReport :=
  let jobs := d.finished.map Prod.snd
  let ok := jobs.filter LoadOutcome.responded
  let bad := jobs.filter LoadOutcome.failed
  { total := jobs.length
    succeeded := ok.length
    failed := bad.length
    failures := (countBy (bad.map LoadOutcome.reason)).mergeSort fun a b => decide (b.2 ≤ a.2)
    latency := fun stage =>
      let values := ok.filterMap (LoadOutcome.duration stage)
      { min := values.min?
        p50 := Loadtest.percentile values 50
        p95 := Loadtest.percentile values 95
        max := values.max? } }

end Driver

/-! ## The driver and the server -/

/-- A load test under way. -/
structure LoadTest where
  app : App
  /-- How often the server has been restarted. -/
  start : Nat := 0
  driver : Driver

/-- What can happen next. -/
inductive LoadAction
  /-- The server goes on with anything but the driver's requests. -/
  | server (action : AppAction)
  /-- The server is restarted: its services were in memory. -/
  | restart
  /-- The server answers the driver. -/
  | answer
  /-- The request in flight fails, and `main` with it. -/
  | disconnect
  /-- The driver goes on, its answer received or its sleep over. -/
  | resume

namespace LoadTest

/-- A driver as it starts, against a server as it starts. -/
def new (o : LoadOptions) (now : Millis) : LoadTest :=
  { app := App.new now, driver := Driver.new o }

/-- `GET /sign_bidirectional/:jobId` behind `validateSecret`. -/
def getJob (lt : LoadTest) (c : Config) (o : LoadOptions) (id : JobId) : Option JobView :=
  if authorized c.env { header := some o.secret } then lt.app.getJob lt.start id else none

/-- The server's answer to the request in flight. -/
def answer (lt : LoadTest) (c : Config) (o : LoadOptions) : Option LoadTest :=
  match lt.driver.pc with
  | .submitting none =>
    let posted := lt.app.post c o.request
    let network := bidirectionalEnvironments.find? fun environment => environment.name == o.env
    some { lt with
      app := posted.1
      driver := { lt.driver with
        pc := .submitting (some (.of lt.start network posted.2)) } }
  -- a poll reads the record and changes nothing
  | .polling id rest none =>
    some { lt with
      driver := { lt.driver with pc := .polling id rest (some (lt.getJob c o id)) } }
  | .readingStats false =>
    let app :=
      if authorized c.env { header := some o.secret } then
        lt.app.inspect c (.string o.env) fun _ w => w.readStats
      else lt.app
    some { lt with app, driver := { lt.driver with pc := .readingStats true } }
  | _ => none

/-- A request is in flight. -/
def requesting : DriverPc → Bool
  | .submitting _ => true
  | .backingOff _ => false
  | .sleeping _ => false
  | .polling _ _ _ => true
  | .readingStats _ => true
  | .exited _ => false

/-- One step. -/
def step (c : Config) (o : LoadOptions) (lt : LoadTest) : LoadAction → Option LoadTest
  | .server action => (lt.app.step c action).map fun app => { lt with app }
  | .restart => some { lt with app := App.new lt.app.now, start := lt.start + 1 }
  | .answer => lt.answer c o
  | .disconnect =>
    if requesting lt.driver.pc then some { lt with driver := { lt.driver with pc := .exited 1 } }
    else none
  | .resume => (lt.driver.resume o).map fun driver => { lt with driver }

end LoadTest

end ContractPinger
