import ContractPinger.Model.Run
import ContractPinger.Model.RateLimiter

/-!
# One service and everything that runs on it

`BidirectionalService` of `src/handlers/signBidirectional.ts` with its jobs, the
`GET /sign_bidirectional/workers` requests and the derivations in flight. A step resumes
one of them at its `await`, fires a timer, starts a job or a request, runs
`abortActiveJobs` or changes the clock; the code in between runs without interruption, as in
Node, and at one instant.

`history` is an observation and no part of the service: the calls made on the shared
objects and the settlements they caused, in order.
-/

namespace ContractPinger

/-- The promise `ensureAddresses` memoizes, with the derivation behind it. -/
inductive Derivation
  /-- `deriveWorkerAddresses`: the paths still to derive and the results so far. -/
  | deriving (solana : SolanaContext) (rest : List String) (derived : List DerivedWorker)
  /-- The derivation has rejected; the `catch` that clears the memo has not run yet. -/
  | failing (error : JsError)
  | fulfilled
  | rejected (error : JsError)
deriving DecidableEq, Repr

/-- The outcome a caller of `ensureAddresses` sees. -/
def Derivation.outcome : Derivation → Option (Except JsError Unit)
  | .fulfilled => some (.ok ())
  | .rejected error => some (.error error)
  | _ => none

/-- The `await`s of `GET /sign_bidirectional/workers`. -/
inductive RequestPc
  | ensuringAddresses (derivation : Nat)
  /-- The loop of `refreshBalances`. -/
  | refreshing (rest : List String)
  | reconciling (rest : List String)
  /-- Answered, with 200 or with 500. -/
  | answered (ok : Bool)
deriving DecidableEq, Repr

/-- Who makes a call on the shared objects. -/
inductive Proc
  | job (id : Nat)
  | request (id : Nat)
deriving DecidableEq, Repr

/-- What is observed of a run. -/
inductive Event
  | called (who : Proc) (effect : Effect)
  | settled (call : Nat) (outcome : Settlement)
  | started (job : Nat) (time : Millis)
  | aborted
deriving DecidableEq, Repr

/-- A `BidirectionalService` and the activations suspended on it. Job ids are positions in
    `frames`. -/
structure World where
  pool : WorkerPool
  jobs : JobStore
  limiter : RateLimiter
  /-- `addressesReady`, by position in `derivations`. -/
  addressesReady : Option Nat := none
  derivations : List Derivation := []
  frames : List Frame := []
  requests : List RequestPc := []
  now : Millis := 0
  history : List Event := []
deriving DecidableEq, Repr

/-- What can happen next. -/
inductive Action
  | start (mode : TxMode)
  | getWorkers
  | resume (job : Nat) (reply : Reply)
  | resumeRequest (request : Nat) (reply : Reply)
  | resumeDerivation (derivation : Nat) (reply : Reply)
  | expire (job : Nat)
  | respondDeadline (job : Nat)
  | abortActiveJobs
  /-- `Date.now()` has changed: nothing stops it from going back. -/
  | clock (now : Millis)
deriving DecidableEq, Repr

/-- The path count of the constructor: mainnet's is fixed. -/
def Setup.paths (s : Setup) : Nat :=
  if s.environment = .mainnet then 1 else s.env.bidirectional.paths

def Setup.maxJobs (s : Setup) : Nat :=
  if s.environment = .mainnet then 2 else s.env.bidirectional.maxJobs

def Setup.maxActiveJobs (s : Setup) : Nat :=
  if s.environment = .mainnet then 1 else s.env.bidirectional.maxActiveJobs

def Setup.maxRequestsPerMinute (s : Setup) : Nat :=
  if s.environment = .mainnet then 1 else s.env.bidirectional.maxRequestsPerMinute

/-- `BidirectionalService.solana()`. -/
def Setup.solana (s : Setup) : Except JsError SolanaContext :=
  s.env.solana s.libs s.environment

namespace World

/-- The constructor of `BidirectionalService`, at the given instant. -/
def new (s : Setup) (now : Millis) : World :=
  { pool := WorkerPool.new (buildPaths s.env.bidirectional.pathPrefix s.paths)
    jobs :=
      { maxJobs := s.maxJobs
        retained := s.env.bidirectional.retainedJobs
        maxActiveJobs := s.maxActiveJobs }
    limiter := { limit := s.maxRequestsPerMinute }
    now }

/-- Put a changed pool in place and observe the promises it has settled. -/
def setPool (w : World) (pool : WorkerPool) : World :=
  { w with
    pool
    history := w.history ++
      (pool.settled.drop w.pool.settled.length).map fun entry => .settled entry.1 entry.2 }

/-- One call on the shared objects. -/
def perform (w : World) (who : Proc) (effect : Effect) : World :=
  let called : World :=
    { w with
      jobs := effect.onJobs w.now w.jobs
      history := w.history ++ [.called who effect] }
  called.setPool (effect.onPool w.now w.pool)

/-- The calls of one uninterrupted stretch of code, in order. -/
def performAll (w : World) (who : Proc) (effects : List Effect) : World :=
  effects.foldl (fun w effect => w.perform who effect) w

/-- The state of a derivation's promise. -/
def derived (w : World) (derivation : Nat) : Option (Except JsError Unit) :=
  w.derivations[derivation]?.bind Derivation.outcome

/-- What `run()` reads. -/
def view (w : World) : RunView := { pool := w.pool, derived := w.derived, now := w.now }

/-- `ensureAddresses`: join the memoized derivation or start one. -/
def ensureAddresses (w : World) (s : Setup) : World × Nat :=
  match w.addressesReady with
  -- a burst of callers joins the one derivation in flight
  | some derivation => (w, derivation)
  | none =>
    let derivation := match s.solana with
      | .error e => .failing e
      | .ok solana => .deriving solana w.pool.paths []
    ({ w with
        derivations := w.derivations ++ [derivation]
        addressesReady := some w.derivations.length },
      w.derivations.length)

/-- `start`: the record, and `run()` up to its first `await`. -/
def start (w : World) (s : Setup) (mode : TxMode) : World :=
  let job := w.frames.length
  let w : World :=
    { w with
      jobs := w.jobs.create job s.environment mode w.now
      history := w.history ++ [.started job w.now] }
  match s.solana with
  -- `run()` rejects before its controller is in `activeJobs`
  | .error e => { w with frames := w.frames ++ [{ mode, pc := .rejected (.other e) }] }
  | .ok solana =>
    -- `activeJobs.add(watches)`, then the first `await`
    let joined := w.ensureAddresses s
    { joined.1 with
      frames := joined.1.frames ++ [{ mode, requester := solana.requester, listed := true,
                                      pc := .ensuringAddresses joined.2 }] }

/-- `GET /sign_bidirectional/workers`, up to its first `await`. -/
def getWorkers (w : World) (s : Setup) : World :=
  let joined := w.ensureAddresses s
  { joined.1 with requests := joined.1.requests ++ [.ensuringAddresses joined.2] }

/-- Where the loop of `refreshBalances` stops next: the first worker with an address. -/
def skipUnderived (pool : WorkerPool) (rest : List String) : List String :=
  rest.dropWhile fun path => pool.address path == noAddress

/-- `refreshBalances` once its loop stands at `rest`; past the end it goes on to
    `reconcileQuarantined`. -/
def refreshFrom (pool : WorkerPool) (rest : List String) : RequestPc :=
  match skipUnderived pool rest with
  | [] => .reconciling (pool.quarantined.map Worker.path)
  | path :: rest => .refreshing (path :: rest)

/-- The code of `GET /sign_bidirectional/workers` from one `await` to the next. -/
def resumeRequest (w : World) (s : Setup) : RequestPc → Reply → Option (RequestPc × List Effect)
  | .ensuringAddresses derivation, .resume =>
    match w.derived derivation with
    | none => none
    | some (.error _) => some (.answered false, [])
    | some (.ok ()) => some (refreshFrom w.pool w.pool.paths, [])
  | .refreshing (path :: rest), .balance balance =>
    let refreshed := w.pool.setBalance path balance s.env.bidirectional.minBalanceWei
    some (refreshFrom refreshed rest,
      [.setBalance path balance s.env.bidirectional.minBalanceWei])
  | .refreshing (_ :: _), .throw _ => some (.answered false, [])
  | .reconciling (path :: rest), .counts latest pending =>
    some (.reconciling rest, [.reconcile path (decide (latest < pending))])
  | .reconciling (_ :: _), .throw _ => some (.answered false, [])
  | .reconciling [], .resume => some (.answered true, [])
  | _, _ => none

/-- The loop of `ensureAddresses` that applies the derived addresses. -/
def applyAddresses (pool : WorkerPool) (derived : List DerivedWorker) : WorkerPool :=
  derived.foldl (fun pool d => pool.setAddress d.path d.address) pool

/-- The code of a derivation from one `await` to the next. -/
def resumeDerivation (w : World) (s : Setup) (index : Nat) : Derivation → Reply → Option World
  | .deriving solana (path :: rest) derived, .resume =>
    some { w with derivations := w.derivations.set index
                    (.deriving solana rest (derived ++ [deriveWorker s.libs solana path])) }
  | .deriving _ (_ :: _) _, .throw e =>
    some { w with derivations := w.derivations.set index (.failing e) }
  | .deriving _ [] derived, .resume =>
    some { w with
      pool := applyAddresses w.pool derived
      derivations := w.derivations.set index .fulfilled }
  | .failing e, .resume =>
    some { w with
      -- the `catch`: a failure is not memoized
      addressesReady := none
      derivations := w.derivations.set index (.rejected e) }
  | _, _ => none

/-- The reason the respond deadline aborts with. -/
def respondDeadlineError (s : Setup) : JsError :=
  { message := "respondBidirectionalEvent not received within " ++
      toString s.env.bidirectional.respondTimeoutMs ++ "ms of confirmation" }

/-- `abortActiveJobs`: abort every listed controller, then reject every waiter. -/
def abortActiveJobs (w : World) : World :=
  let w : World :=
    { w with
      frames := w.frames.map fun f : Frame =>
        -- `controller.abort()` on each of them, then `activeJobs.clear()`
        if f.listed then { f.abort abortError with listed := false } else f
      history := w.history ++ [.aborted] }
  w.setPool (w.pool.rejectWaiters (.other { message := "Process is shutting down" }))

/-- One step. -/
def step (s : Setup) (w : World) : Action → Option World
  | .start mode => some (w.start s mode)
  | .getWorkers => some (w.getWorkers s)
  | .resume job reply =>
    w.frames[job]?.bind fun f =>
      (f.resume s w.view job reply).map fun next =>
        { w with frames := w.frames.set job next.1 }.performAll (.job job) next.2
  | .resumeRequest request reply =>
    w.requests[request]?.bind fun pc =>
      (w.resumeRequest s pc reply).map fun next =>
        { w with requests := w.requests.set request next.1 }.performAll (.request request) next.2
  | .resumeDerivation index reply =>
    w.derivations[index]?.bind fun d => w.resumeDerivation s index d reply
  | .expire job =>
    -- a timer that was cleared does not fire
    if job ∈ w.pool.timers then some (w.setPool (w.pool.expire job)) else none
  | .respondDeadline job =>
    w.frames[job]?.bind fun f =>
      if f.respondDeadline then
        some { w with frames := w.frames.set job
                        { f.abort (respondDeadlineError s) with respondDeadline := false } }
      else none
  | .abortActiveJobs => some w.abortActiveJobs
  | .clock now => some { w with now }

end World

end ContractPinger
